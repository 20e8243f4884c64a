import Mathlib.Data.Char
import Mathlib.Data.List.Dedup
import Mathlib.Data.List.Lex
import WakeSol.Forking.Enable
import WakeSol.Forking.Phases

/- The accounts a fork is said to have brought in. The list is the resident part of
   what the fork has resolved, and an address is resolved as well when the chain has
   nothing there, or when it is excluded. -/
set_option autoImplicit false

namespace WakeSol.Forking

open TextLib RadixLib CacheLib Trace

def byText (left right : Address) : Prop := left.text ≤ right.text

instance : DecidableRel byText := fun left right => inferInstanceAs (Decidable (left.text ≤ right.text))

def forkedAccounts (svm : Svm) : List Address :=
  match svm.fork with
  | none => []
  | some fork => (fork.seen.dedup.filter fun address => (svm.accounts address).isSome).insertionSort byText

def Svm.resolved (svm : Svm) (address : Address) : Prop := ∃ fork, svm.fork = some fork ∧ address ∈ fork.seen

variable (svm : Svm)

theorem listed_iff (address : Address) :
    address ∈ forkedAccounts svm ↔ svm.resolved address ∧ svm.accounts address ≠ none := by
  rw [forkedAccounts, Svm.resolved]
  cases svm.fork with
  | none => simp
  | some fork => simp [List.mem_insertionSort, Option.isSome_iff_ne_none]

inductive Command where
  | call (op : Op)
  | fork (request : ForkRequest)
  | unfork

-- The state with a record the harness does not keep: the addresses whose resident
-- account was put there by the fork that is enabled.
structure Traced where
  svm : Svm
  forked : List Address

def replaced (engine : Engine) (svm : Svm) (op : Op) : Option Address :=
  match op with
  | .setAccount address _ => if (step engine svm op).error.isNone then some address else none
  | .addProgram address _ => if (step engine svm op).error.isNone then some address else none
  | _ => none

def Traced.call (engine : Engine) (state : Traced) (op : Op) : Traced :=
  let middle := hydrate engine state.svm (hydrationOf op)
  let after := (step engine state.svm op).svm
  ⟨after, (state.forked ++ middle.injected.map Prod.fst).filter fun address =>
    (middle.svm.accounts address).isSome ∧ (after.accounts address).isSome ∧ replaced engine state.svm op ≠ some address⟩

def Traced.step (engine : Engine) (state : Traced) : Command → Traced
  | .call .reset => ⟨(Forking.step engine state.svm .reset).svm, []⟩
  | .call op => state.call engine op
  | .fork request =>
    match state.svm.forkWith engine request with
    | .error _ => state
    | .ok svm => ⟨svm, []⟩
  | .unfork => ⟨{ state.svm with fork := none }, []⟩

variable (engine : Engine) (state : Traced) (op : Op)

theorem step_call (running : op ≠ .reset) : state.step engine (.call op) = state.call engine op := by
  cases op with
  | reset => exact absurd rfl running
  | _ => rfl

def Traced.start (svm : Svm) : Traced := ⟨{ svm with fork := none }, []⟩

def Traced.Exact (state : Traced) : Prop := ∀ address, address ∈ forkedAccounts state.svm ↔ address ∈ state.forked

-- No account the fork did not bring in may stand at a resolved address after the
-- call: one that was there before the address was resolved, one the call creates
-- there, or one it replaces the fork's account with.
def Tidy (engine : Engine) (svm : Svm) : Command → Prop
  | .call .reset => True
  | .call op => ∀ address,
      let middle := (hydrate engine svm (hydrationOf op)).svm
      middle.resolved address → (step engine svm op).svm.accounts address ≠ none →
        (svm.accounts address ≠ none → svm.resolved address) ∧ middle.accounts address ≠ none ∧
          replaced engine svm op ≠ some address
  | .fork _ => True
  | .unfork => True

theorem tidy_call (svm : Svm) (op : Op) (running : op ≠ .reset) : Tidy engine svm (.call op) ↔ ∀ address,
      (hydrate engine svm (hydrationOf op)).svm.resolved address → (step engine svm op).svm.accounts address ≠ none →
        (svm.accounts address ≠ none → svm.resolved address) ∧
          (hydrate engine svm (hydrationOf op)).svm.accounts address ≠ none ∧ replaced engine svm op ≠ some address := by
  cases op with
  | reset => exact absurd rfl running
  | _ => exact Iff.rfl

def Traced.Sound (state : Traced) : Prop :=
  ∀ address ∈ state.forked, state.svm.resolved address ∧ state.svm.accounts address ≠ none

theorem exact_iff (sound : state.Sound) :
    state.Exact ↔ ∀ address, state.svm.resolved address → state.svm.accounts address ≠ none → address ∈ state.forked := by
  refine ⟨fun exact address resolved resident => ?_, fun complete address => ?_⟩
  · exact (exact address).mp ((listed_iff state.svm address).mpr ⟨resolved, resident⟩)
  · rw [listed_iff]
    exact ⟨fun listed => complete address listed.1 listed.2, sound address⟩

theorem hydrate_resolved (svm : Svm) (hydration : Hydration) (address : Address)
    (resolved : svm.resolved address) : (hydrate engine svm hydration).svm.resolved address := by
  obtain ⟨fork, enabled, seen⟩ := resolved
  have guarded := hydrate_guarded engine svm hydration
  simp only [Guarded, enabled] at guarded
  obtain ⟨after, isAfter, continues, _⟩ := guarded
  exact ⟨after, isAfter, continues.seen address seen⟩

theorem injected_resolved (svm : Svm) (hydration : Hydration) (address : Address)
    (written : address ∈ (hydrate engine svm hydration).injected.map Prod.fst) :
    (hydrate engine svm hydration).svm.resolved address := by
  obtain ⟨entry, inside, rfl⟩ := List.mem_map.mp written
  have guarded := hydrate_guarded engine svm hydration
  rw [Guarded] at guarded
  cases enabled : svm.fork with
  | none =>
    simp only [enabled] at guarded
    rw [guarded.2] at inside
    cases inside
  | some fork =>
    simp only [enabled] at guarded
    obtain ⟨after, isAfter, _, injected⟩ := guarded
    exact ⟨after, isAfter, (injected entry inside).2.2⟩

theorem step_resolved (svm : Svm) (op : Op) (running : op ≠ .reset) (address : Address) :
    (step engine svm op).svm.resolved address ↔ (hydrate engine svm (hydrationOf op)).svm.resolved address := by
  rw [Svm.resolved, Svm.resolved, phases_fork engine svm op running]

theorem call_mem (address : Address) : address ∈ (state.call engine op).forked ↔
      (address ∈ state.forked ∨ address ∈ (hydrate engine state.svm (hydrationOf op)).injected.map Prod.fst) ∧
        (hydrate engine state.svm (hydrationOf op)).svm.accounts address ≠ none ∧
        (step engine state.svm op).svm.accounts address ≠ none ∧ replaced engine state.svm op ≠ some address := by
  simp only [Traced.call, List.mem_filter, List.mem_append, decide_eq_true_eq, Option.isSome_iff_ne_none]

theorem call_sound (running : op ≠ .reset) (sound : state.Sound) : (state.call engine op).Sound := by
  intro address forked
  obtain ⟨origin, _, resident, _⟩ := (call_mem engine state op address).mp forked
  refine ⟨(step_resolved engine state.svm op running address).mpr ?_, resident⟩
  rcases origin with earlier | written
  · exact hydrate_resolved engine state.svm _ address (sound address earlier).1
  · exact injected_resolved engine state.svm _ address written

theorem call_exact_iff (running : op ≠ .reset) (sound : state.Sound)
    (exact : state.Exact) : (state.call engine op).Exact ↔ Tidy engine state.svm (.call op) := by
  have keeps := hydration_keeps engine state.svm (hydrationOf op)
  have elsewhere := hydration_elsewhere engine state.svm (hydrationOf op)
  rw [tidy_call engine state.svm op running, exact_iff _ (call_sound engine state op running sound)]
  have resolved := step_resolved engine state.svm op running
  refine ⟨fun complete address isResolved resident => ?_, fun clean address isResolved resident => ?_⟩
  · obtain ⟨origin, there, _, notReplaced⟩ :=
      (call_mem engine state op address).mp (complete address ((resolved address).mpr isResolved) resident)
    refine ⟨fun before => ?_, there, notReplaced⟩
    rcases origin with earlier | written
    · exact (sound address earlier).1
    · exact absurd written (keeps address before).1
  · obtain ⟨known, there, notReplaced⟩ := clean address ((resolved address).mp isResolved) resident
    refine (call_mem engine state op address).mpr ⟨?_, there, resident, notReplaced⟩
    by_cases before : state.svm.accounts address = none
    · -- It was not there before the hydration, so the hydration wrote it.
      refine .inr ?_
      by_contra unwritten
      exact there ((elsewhere address unwritten).trans before)
    · refine .inl ((exact address).mp ?_)
      exact (listed_iff state.svm address).mpr ⟨known before, before⟩

theorem unresolved_exact (none : ∀ address, ¬ svm.resolved address) : (⟨svm, []⟩ : Traced).Exact := by
  intro address
  rw [listed_iff]
  exact ⟨fun listed => absurd listed.1 (none address), fun inside => by cases inside⟩

theorem nothing_sound : (⟨svm, []⟩ : Traced).Sound := by
  intro address inside
  cases inside

theorem off_unresolved (off : svm.fork = none) (address : Address) : ¬ svm.resolved address := by
  rintro ⟨fork, enabled, _⟩
  rw [off] at enabled
  cases enabled

theorem forked_unresolved (svm forked : Svm) (request : ForkRequest)
    (enabled : svm.forkWith engine request = .ok forked) (address : Address) : ¬ forked.resolved address := by
  rintro ⟨fork, isFork, seen⟩
  cases mode : request.offline with
  | true =>
    rw [Svm.forkWith, mode] at enabled
    cases enabled
    cases isFork
    cases seen
  | false =>
    obtain ⟨rpc, slot, _, _, rfl⟩ := fork_online engine svm request mode forked enabled
    cases isFork
    cases seen

theorem reset_unresolved (svm : Svm) (address : Address) : ¬ (step engine svm .reset).svm.resolved address := by
  rintro ⟨fork, isFork, seen⟩
  obtain ⟨before, _, rfl⟩ := Option.map_eq_some_iff.mp isFork
  cases seen

theorem step_sound (command : Command) (sound : state.Sound) : (state.step engine command).Sound := by
  cases command with
  | unfork => exact nothing_sound _
  | fork request =>
    rw [Traced.step]
    split
    · exact sound
    · exact nothing_sound _
  | call op =>
    by_cases isReset : op = .reset
    · rw [isReset]
      exact nothing_sound _
    · rw [step_call engine state op isReset]
      exact call_sound engine state op isReset sound

theorem step_exact_iff (command : Command) (sound : state.Sound) (exact : state.Exact) :
    (state.step engine command).Exact ↔ Tidy engine state.svm command := by
  cases command with
  | unfork =>
    exact iff_of_true (unresolved_exact _ (off_unresolved _ rfl)) trivial
  | fork request =>
    refine iff_of_true ?_ trivial
    rw [Traced.step]
    cases enabled : state.svm.forkWith engine request with
    | error error => exact exact
    | ok svm => exact unresolved_exact svm (forked_unresolved engine state.svm svm request enabled)
  | call op =>
    by_cases isReset : op = .reset
    · rw [isReset]
      exact iff_of_true (unresolved_exact _ (reset_unresolved engine state.svm)) trivial
    · rw [step_call engine state op isReset]
      exact call_exact_iff engine state op isReset sound exact

def EachStep (engine : Engine) (holdsAt : Traced → Command → Prop) : Traced → List Command → Prop
  | _, [] => True
  | state, command :: rest => holdsAt state command ∧ EachStep engine holdsAt (state.step engine command) rest

theorem run_exact_iff (commands : List Command) (sound : state.Sound) (exact : state.Exact) :
    EachStep engine (fun state command => (state.step engine command).Exact) state commands ↔
      EachStep engine (fun state command => Tidy engine state.svm command) state commands := by
  induction commands generalizing state with
  | nil => exact Iff.rfl
  | cons command rest ih =>
    have first := step_exact_iff engine state command sound exact
    rw [EachStep, EachStep, first]
    refine and_congr_right fun tidy => ?_
    exact ih (state.step engine command) (step_sound engine state command sound) (first.mpr tidy)

def emptyChain : ForkRequest := ⟨none, [], ⟨fun _ => some (storedJson none)⟩, true⟩

def readThenWritten : List Command :=
  [.fork emptyChain, .call (.touch [.fill 1]), .call (.setAccount (.fill 1) (wallet 5))]

end WakeSol.Forking
