import Mathlib.Data.List.Basic
import Mathlib.Data.List.Range

/- Computations on a state that an error can cut short, as statements of a language
   with exceptions are: the changes made before the error stay. What a computation
   does is stated by a condition before it, one after it, and one for each error. -/
set_option autoImplicit false

namespace EffectLib

def Act (ε σ α : Type) := σ → Except ε α × σ

section rules

variable {ε σ α β : Type}

instance : Monad (Act ε σ) where
  pure value := fun state => (.ok value, state)
  bind act next := fun state =>
    match act state with
    | (.ok value, reached) => next value reached
    | (.error error, reached) => (.error error, reached)

def fail (error : ε) : Act ε σ α := fun state => (.error error, state)

def read : Act ε σ σ := fun state => (.ok state, state)

def update (change : σ → σ) : Act ε σ Unit := fun state => (.ok (), change state)

def each (items : List β) (body : β → Act ε σ Unit) : Act ε σ Unit :=
  match items with
  | [] => pure ()
  | item :: rest => do
      body item
      each rest body

def keep (items : List β) (condition : β → Act ε σ Bool) : Act ε σ (List β) :=
  match items with
  | [] => pure []
  | item :: rest => do
      let wanted ← condition item
      let others ← keep rest condition
      pure (if wanted then item :: others else others)

def Ensures (before : σ → Prop) (act : Act ε σ α) (after : α → σ → Prop) (abrupt : ε → σ → Prop) : Prop :=
  ∀ state, before state →
    match act state with
    | (.ok value, reached) => after value reached
    | (.error error, reached) => abrupt error reached

variable {before : σ → Prop} {abrupt : ε → σ → Prop}

theorem ensures_pure (value : α) (after : α → σ → Prop) (holds : ∀ state, before state → after value state) :
    Ensures before (pure value : Act ε σ α) after abrupt := by
  intro state start
  exact holds state start

theorem ensures_bind (act : Act ε σ α) (next : α → Act ε σ β) (between : α → σ → Prop) (after : β → σ → Prop)
    (first : Ensures before act between abrupt) (second : ∀ value, Ensures (between value) (next value) after abrupt) :
    Ensures before (act >>= next) after abrupt := by
  intro state start
  have reached := first state start
  simp only [bind]
  split at reached
  · rename_i value middle _
    exact second value middle reached
  · exact reached

theorem ensures_imp (act : Act ε σ α) (weaker : σ → Prop) (stronger : α → σ → Prop) (after : α → σ → Prop)
    (earlier : ε → σ → Prop) (holds : Ensures weaker act stronger earlier) (start : ∀ state, before state → weaker state)
    (finish : ∀ value state, stronger value state → after value state)
    (cut : ∀ error state, earlier error state → abrupt error state) : Ensures before act after abrupt := by
  intro state given
  have reached := holds state (start state given)
  split at reached
  · rename_i value final _
    exact finish value final reached
  · rename_i error final _
    exact cut error final reached

theorem ensures_fail (error : ε) (after : α → σ → Prop) (holds : ∀ state, before state → abrupt error state) :
    Ensures before (fail error : Act ε σ α) after abrupt := by
  intro state start
  exact holds state start

theorem ensures_from (act : Act ε σ α) (weaker : σ → Prop) (after : α → σ → Prop)
    (start : ∀ state, before state → weaker state) (holds : Ensures weaker act after abrupt) : Ensures before act after abrupt :=
  fun state given => holds state (start state given)

theorem ensures_cut (act : Act ε σ α) (after : α → σ → Prop) (earlier : ε → σ → Prop) (holds : Ensures before act after earlier)
    (cut : ∀ error state, earlier error state → abrupt error state) : Ensures before act after abrupt :=
  ensures_imp act before after after earlier holds (fun _ given => given) (fun _ _ reached => reached) cut

theorem ensures_read (next : σ → Act ε σ α) (after : α → σ → Prop)
    (holds : ∀ seen, before seen → Ensures (fun state => state = seen) (next seen) after abrupt) :
    Ensures before (read >>= next) after abrupt :=
  fun state start => holds state start state rfl

theorem ensures_update (change : σ → σ) (after : Unit → σ → Prop) (holds : ∀ state, before state → after () (change state)) :
    Ensures before (update change : Act ε σ Unit) after abrupt := by
  intro state start
  exact holds state start

theorem ensures_each (items : List β) (body : β → Act ε σ Unit) (holds : List β → σ → Prop)
    (step : ∀ done item rest, items = done ++ item :: rest →
      Ensures (holds done) (body item) (fun _ => holds (done ++ [item])) abrupt) :
    Ensures (holds []) (each items body) (fun _ => holds items) abrupt := by
  suffices general : ∀ rest done, items = done ++ rest →
      Ensures (holds done) (each rest body) (fun _ => holds (done ++ rest)) abrupt by
    exact general items [] rfl
  intro rest
  induction rest with
  | nil =>
    intro done _
    refine ensures_pure () _ fun state start => ?_
    rwa [List.append_nil]
  | cons item rest ih =>
    intro done split
    refine ensures_bind _ _ _ _ (step done item rest split) fun _ => ?_
    have later := ih (done ++ [item]) (by rw [split, List.append_assoc, List.singleton_append])
    rwa [List.append_assoc, List.singleton_append] at later

theorem ensures_range (count : Nat) (body : Nat → Act ε σ Unit) (holds : Nat → σ → Prop)
    (step : ∀ index < count, Ensures (holds index) (body index) (fun _ => holds (index + 1)) abrupt) :
    Ensures (holds 0) (each (List.range count) body) (fun _ => holds count) abrupt := by
  have loop : Ensures (holds ([] : List Nat).length) (each (List.range count) body)
      (fun _ => holds (List.range count).length) abrupt := by
    refine ensures_each (List.range count) body (fun done => holds done.length) fun done index rest split => ?_
    have there : (List.range count)[done.length]? = some index := by
      rw [split, List.getElem?_append_right (le_refl _), Nat.sub_self]
      rfl
    obtain ⟨within, same⟩ := List.getElem?_eq_some_iff.mp there
    rw [List.getElem_range] at same
    rw [List.length_range] at within
    rw [← same]
    simpa only [List.length_append, List.length_singleton] using step done.length within
  rwa [List.length_range] at loop

theorem ensures_keep (items : List β) (condition : β → Act ε σ Bool) (holds : List β → σ → Prop)
    (step : ∀ kept, ∀ item ∈ items,
      Ensures (holds kept) (condition item) (fun wanted => holds (if wanted then kept ++ [item] else kept)) abrupt) :
    Ensures (holds []) (keep items condition) holds abrupt := by
  suffices general : ∀ rest, (∀ item ∈ rest, item ∈ items) → ∀ kept,
      Ensures (holds kept) (keep rest condition) (fun found => holds (kept ++ found)) abrupt by
    exact general items (fun _ inside => inside) []
  intro rest
  induction rest with
  | nil =>
    intro _ kept
    refine ensures_pure [] _ fun state start => ?_
    rwa [List.append_nil]
  | cons item rest ih =>
    intro inside kept
    refine ensures_bind _ _ _ _ (step kept item (inside item List.mem_cons_self)) fun wanted => ?_
    refine ensures_bind _ _ _ _ (ih (fun other there => inside other (List.mem_cons_of_mem _ there)) _) fun others => ?_
    refine ensures_pure _ _ fun state reached => ?_
    cases wanted with
    | false => exact reached
    | true =>
      rw [if_pos rfl, List.append_assoc, List.singleton_append] at reached
      exact reached

end rules

section parts

variable {ε δ σ τ α : Type}

def within (part : σ → τ) (put : τ → σ → σ) (mark : δ → ε) (act : Act δ τ α) : Act ε σ α := fun state =>
  match act (part state) with
  | (.ok value, reached) => (.ok value, put reached state)
  | (.error error, reached) => (.error (mark error), put reached state)

theorem ensures_within (part : σ → τ) (put : τ → σ → σ) (mark : δ → ε) (act : Act δ τ α) (holds : σ → Prop)
    (apart : ∀ piece state, holds state → holds (put piece state)) :
    Ensures holds (within part put mark act) (fun _ => holds)
      (fun error state => (∃ cause, error = mark cause) ∧ holds state) := by
  intro state start
  rw [within]
  cases ran : act (part state) with
  | mk outcome reached =>
    cases outcome with
    | ok value => exact apart reached state start
    | error cause => exact ⟨⟨cause, rfl⟩, apart reached state start⟩

end parts

end EffectLib
