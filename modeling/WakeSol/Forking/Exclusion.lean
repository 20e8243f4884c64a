import WakeSol.Forking.Chain
import WakeSol.Forking.Enable

/- What an exclude list keeps out. A key that is asked for is checked by address
   and by owner; the programdata of a program is checked by address only, and is
   safe because of where it comes from. -/
set_option autoImplicit false

namespace WakeSol.Forking

open TextLib RadixLib CacheLib Trace

-- Every program of the upgradeable loader points to the programdata address
-- derived from its id, and the loader owns what is there.
def Canonical (engine : Engine) (truth : Address → Option Account → Prop) : Prop :=
  ∀ program account, truth program (some account) → account.executable = true → account.owner = loaderV3 →
    programdataAddress account.data = some (engine.programdataAddressOf program) ∧
    ∀ programdata, truth (engine.programdataAddressOf program) (some programdata) → programdata.owner = loaderV3

structure Spared (engine : Engine) (exclude : List Address) (entry : Address × Account) : Prop where
  program : entry.1 ∉ exclude
  programdata : ∀ program ∈ exclude, entry.1 ≠ engine.programdataAddressOf program
  owner : entry.2.owner ∉ exclude

structure Fork.Excluding (engine : Engine) (exclude : List Address) (fork : Fork) : Prop where
  programs : fork.excludePrograms = exclude
  addrs : fork.excludeAddrs = exclude.map engine.programdataAddressOf

theorem excluding_continues (engine : Engine) (exclude : List Address) (fork after : Fork) (continues : fork.Continues after)
    (excluding : fork.Excluding engine exclude) : after.Excluding engine exclude :=
  ⟨continues.excludePrograms.trans excluding.programs, continues.excludeAddrs.trans excluding.addrs⟩

theorem outside_addrs (engine : Engine) (exclude : List Address) (fork : Fork) (excluding : fork.Excluding engine exclude)
    (address : Address) (outside : address ∉ fork.excludeAddrs) :
    ∀ program ∈ exclude, address ≠ engine.programdataAddressOf program := by
  intro program inside same
  apply outside
  rw [excluding.addrs, same]
  exact List.mem_map_of_mem inside

section Exclusion

variable (engine : Engine) (truth : Address → Option Account → Prop) (exclude : List Address)
variable (notProgramdata : ∀ program ∈ exclude, ∀ other, program ≠ engine.programdataAddressOf other)
variable (canonical : Canonical engine truth)

include notProgramdata canonical in
theorem sourced_spared (fork : Fork) (excluding : fork.Excluding engine exclude) (accounts : Accounts)
    (entry : Address × Account) (sourced : fork.Sourced truth accounts entry) : Spared engine exclude entry := by
  cases sourced with
  | direct taken =>
    constructor
    · intro program
      exact taken.notExcluded (.inl (by rwa [excluding.programs]))
    · exact outside_addrs engine exclude fork excluding entry.1 fun out => taken.notExcluded (.inr out)
    · intro owner
      exact taken.allowed (by rwa [excluding.programs])
  | followed held program taken points =>
    -- the program was written, so the loader that owns it is not excluded
    obtain ⟨derived, owned⟩ := canonical program.1 program.2 taken.held points.executable points.loader
    have same : entry.1 = engine.programdataAddressOf program.1 := Option.some.inj (points.address.symm.trans derived)
    constructor
    · intro inside
      exact notProgramdata entry.1 inside program.1 same
    · exact outside_addrs engine exclude fork excluding entry.1 points.notExcluded
    · have loader := owned entry.2 (same ▸ held)
      rw [loader, ← points.loader, ← excluding.programs]
      exact taken.allowed

def Excludes (svm : Svm) : Prop := ∀ fork ∈ svm.fork, fork.Honest truth ∧ fork.Excluding engine exclude

def Spares (svm : Svm) (outcome : Outcome) : Prop :=
  Excludes engine truth exclude svm → Excludes engine truth exclude outcome.svm ∧
    ∀ entry ∈ outcome.injected, truth entry.1 (some entry.2) ∧ Spared engine exclude entry

theorem spares_quiet (svm after : Svm) (error : Option HarnessError) (same : after.fork = svm.fork) :
    Spares engine truth exclude svm ⟨after, [], error⟩ := by
  intro excludes
  refine ⟨fun fork enabled => excludes fork ?_, by simp⟩
  rwa [← same]

theorem spares_then (svm : Svm) (first : Outcome) (next : Svm → Outcome) (before : Spares engine truth exclude svm first)
    (after : ∀ svm, Spares engine truth exclude svm (next svm)) : Spares engine truth exclude svm (first.andThen next) := by
  rw [Outcome.andThen]
  cases first.error with
  | some error => exact before
  | none =>
    intro excludes
    obtain ⟨middle, written⟩ := before excludes
    obtain ⟨last, writtenLater⟩ := after first.svm middle
    refine ⟨last, fun entry inside => ?_⟩
    rcases List.mem_append.mp inside with early | late
    · exact written entry early
    · exact writtenLater entry late

theorem ensure_excludes (svm : Svm) (keys : List Address) (excludes : Excludes engine truth exclude svm) :
    Excludes engine truth exclude (ensurePresent engine svm keys).svm := by
  intro after isAfter
  have honest := ensure_honest truth engine svm keys (fun fork enabled => (excludes fork enabled).1) after isAfter
  have guarded := ensure_guarded engine svm keys
  rw [Guarded] at guarded
  cases enabled : svm.fork with
  | none =>
    simp only [enabled] at guarded
    cases guarded.1.symm.trans isAfter
  | some fork =>
    simp only [enabled] at guarded
    obtain ⟨same, isSame, continues, _⟩ := guarded
    cases isSame.symm.trans isAfter
    exact ⟨honest, excluding_continues engine exclude fork after continues (excludes fork enabled).2⟩

include notProgramdata canonical in
theorem ensure_spares (svm : Svm) (keys : List Address) : Spares engine truth exclude svm (ensurePresent engine svm keys) := by
  intro excludes
  refine ⟨ensure_excludes engine truth exclude svm keys excludes, ?_⟩
  cases enabled : svm.fork with
  | none =>
    rw [ensure_disabled engine svm keys enabled]
    simp
  | some fork =>
    obtain ⟨honest, excluding⟩ := excludes fork enabled
    have call := ensured engine svm fork keys enabled
    generalize ensurePresent engine svm keys = outcome at call ⊢
    intro entry inside
    cases call with
    | stopped after error prep => cases inside
    | wrote after inject prep =>
      have planned := (set_all_initial engine svm.accounts inject).subset inside
      have sourced := prepared_sourced truth _ _ _ _ _ honest prep entry planned
      exact ⟨sourced_held truth fork _ entry sourced,
        sourced_spared engine truth exclude notProgramdata canonical fork excluding _ entry sourced⟩

include notProgramdata canonical in
theorem step_spares (svm : Svm) (op : Op) : Spares engine truth exclude svm (step engine svm op) := by
  by_cases running : op = .reset
  · subst running
    intro excludes
    refine ⟨fun fork enabled => ?_, by simp [step, done]⟩
    obtain ⟨before, wasEnabled, rfl⟩ := Option.map_eq_some_iff.mp enabled
    obtain ⟨honest, excluding⟩ := excludes before wasEnabled
    exact ⟨remember_honest truth before [] honest, ⟨excluding.programs, excluding.addrs⟩⟩
  · apply step_composes engine _ _ svm op running
    exact ⟨spares_quiet engine truth exclude, spares_then engine truth exclude,
      ensure_spares engine truth exclude notProgramdata canonical⟩

include notProgramdata canonical in
theorem run_spares (svm : Svm) (excludes : Excludes engine truth exclude svm) (ops : List Op) :
    ∀ written ∈ injections engine svm ops, ∀ entry ∈ written, truth entry.1 (some entry.2) ∧ Spared engine exclude entry := by
  induction ops generalizing svm with
  | nil => simp [injections]
  | cons op rest ih =>
    obtain ⟨after, here⟩ := step_spares engine truth exclude notProgramdata canonical svm op excludes
    intro written inside
    rcases List.mem_cons.mp inside with rfl | later
    · exact here
    · exact ih _ after written later

end Exclusion

theorem fork_excluding (engine : Engine) (svm : Svm) (request : ForkRequest) (forked : Svm)
    (enabled : svm.forkWith engine request = .ok forked) :
    ∀ fork ∈ forked.fork, fork.Excluding engine request.exclude := by
  cases mode : request.offline with
  | true =>
    rw [Svm.forkWith, mode, if_pos rfl] at enabled
    cases enabled
    rintro _ ⟨⟩
    exact ⟨rfl, rfl⟩
  | false =>
    obtain ⟨rpc, slot, _, _, rfl⟩ := fork_online engine svm request mode forked enabled
    rintro _ ⟨⟩
    exact ⟨rfl, rfl⟩

theorem exclusion_sound (engine : Engine) (truth : Address → Option Account → Prop) (base : Svm) (request : ForkRequest)
    (svm : Svm) (enabled : base.forkWith engine request = .ok svm) (honest : ∀ fork ∈ svm.fork, fork.Honest truth)
    (notProgramdata : ∀ program ∈ request.exclude, ∀ other, program ≠ engine.programdataAddressOf other)
    (canonical : Canonical engine truth) (ops : List Op) :
    ∀ written ∈ injections engine svm ops, ∀ entry ∈ written,
      truth entry.1 (some entry.2) ∧ Spared engine request.exclude entry := by
  apply run_spares engine truth request.exclude notProgramdata canonical svm
  intro fork inside
  exact ⟨honest fork inside, fork_excluding engine base request svm enabled fork inside⟩

def loaderEngine : Engine :=
  { plainEngine with programdataAddressOf := fun program => if program = .fill 2 then .fill 3 else .fill 4 }

def program2 : Account := ⟨1, [2, 0, 0, 0] ++ List.replicate 32 3, loaderV3, true, 0⟩

def programdata2 : Account := ⟨1, [3, 0, 0, 0], loaderV3, false, 0⟩

def owned5 : Account := ⟨1, [], .fill 1, false, 0⟩

def programChain : Accounts := fun address =>
  if address = .fill 2 then some program2
  else if address = .fill 3 then some programdata2
  else if address = .fill 5 then some owned5
  else none

theorem program_chain_canonical : Canonical loaderEngine (holds programChain) := by
  intro program account held executable loader
  have cases : account = program2 ∧ program = .fill 2 ∨ account = programdata2 ∨ account = owned5 := by
    rw [holds, programChain] at held
    split at held
    · rename_i same
      exact .inl ⟨Option.some.inj held, same⟩
    · split at held
      · exact .inr (.inl (Option.some.inj held))
      · split at held
        · exact .inr (.inr (Option.some.inj held))
        · cases held
  rcases cases with ⟨rfl, rfl⟩ | rfl | rfl
  · refine ⟨by decide, fun programdata found => ?_⟩
    have same : some programdata = some programdata2 := found
    rw [Option.some.inj same]
    rfl
  · cases executable
  · cases executable

def excludeOne : ForkRequest := ⟨some (nodeOf programChain), [.fill 1], emptyDirectory, false⟩

def excludeOneSession : Svm :=
  { seed (Svm.fresh loaderEngine) (nodeOf programChain) 7 with
    fork := some { Fork.new loaderEngine (some (nodeOf programChain)) emptyDirectory [.fill 1] with minContextSlot := 7 } }

theorem exclusion_sound_program :
    injections loaderEngine excludeOneSession [.touch [.fill 1, .fill 2, .fill 4, .fill 5]] =
      [[(.fill 3, programdata2), (.fill 2, program2)]] ∧
    ∀ entry ∈ [(Address.fill 3, programdata2), (.fill 2, program2)], Spared loaderEngine [.fill 1] entry := by
  have written : injections loaderEngine excludeOneSession [.touch [.fill 1, .fill 2, .fill 4, .fill 5]] =
      [[(.fill 3, programdata2), (.fill 2, program2)]] := by decide +kernel
  have honest : ∀ fork ∈ excludeOneSession.fork, fork.Honest (holds programChain) := by
    rintro _ ⟨⟩
    exact node_honest programChain _ rfl rfl
  have notProgramdata : ∀ program ∈ excludeOne.exclude, ∀ other, program ≠ loaderEngine.programdataAddressOf other := by
    intro program inside other
    rw [List.mem_singleton.mp inside]
    change Address.fill 1 ≠ if other = .fill 2 then .fill 3 else .fill 4
    split <;> decide
  refine ⟨written, fun entry inside => ?_⟩
  have sound := exclusion_sound loaderEngine (holds programChain) (Svm.fresh loaderEngine) excludeOne excludeOneSession rfl
    honest notProgramdata program_chain_canonical [.touch [.fill 1, .fill 2, .fill 4, .fill 5]]
  rw [written] at sound
  exact (sound _ List.mem_cons_self entry inside).2

end WakeSol.Forking
