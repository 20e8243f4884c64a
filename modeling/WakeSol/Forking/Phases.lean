import WakeSol.Forking.Balance

/- A call of the harness in its two phases: it first hydrates what it touches, then
   does its own work, which leaves the fork alone. -/
set_option autoImplicit false

namespace WakeSol.Forking

open TextLib RadixLib CacheLib Trace

inductive Hydration where
  | nothing
  | keys (keys : List Address)
  | message (message : Message)

def hydrationOf : Op → Hydration
  | .touch keys => .keys keys
  | .pin programs => .keys programs
  | .simulate message => .message message
  | .send message _ => .message message
  | .setLamports address _ => .keys [address]
  | .setAccount _ _ => .nothing
  | .addProgram _ _ => .nothing
  | .airdrop _ _ => .nothing
  | .reset => .nothing

def hydrate (engine : Engine) (svm : Svm) : Hydration → Outcome
  | .nothing => done svm
  | .keys keys => ensurePresent engine svm keys
  | .message message => hydrateForMessage engine svm message

def work (engine : Engine) (svm : Svm) : Op → Outcome
  | .touch _ => done svm
  | .pin programs =>
    match svm.fork with
    | none => fail svm .forkDisabled
    | some _ =>
      match unpinned svm.accounts programs with
      | some id => fail svm (.notExecutable id)
      | none => done svm
  | .simulate _ => done svm
  | .send _ effect => done { svm with accounts := effect svm.accounts }
  | .setAccount address account => localWrite engine svm address account
  | .addProgram address elf =>
    match engine.deploy elf with
    | .error text => fail svm (.rejected text)
    | .ok account => localWrite engine svm address account
  | .setLamports address value =>
    localWrite engine svm address { (svm.accounts address).getD defaultAccount with lamports := value }
  | .airdrop address amount => airdrop engine svm address amount
  | .reset => done (reset engine svm)

theorem then_done (outcome : Outcome) : outcome.andThen done = outcome := by
  obtain ⟨svm, injected, error⟩ := outcome
  cases error with
  | some error => rfl
  | none => simp [Outcome.andThen, done]

theorem done_then (svm : Svm) (next : Svm → Outcome) : (done svm).andThen next = next svm := by
  simp [Outcome.andThen, done]

theorem step_phases (engine : Engine) (svm : Svm) (op : Op) :
    step engine svm op = (hydrate engine svm (hydrationOf op)).andThen fun svm => work engine svm op := by
  cases op with
  | touch keys => exact (then_done _).symm
  | simulate message => exact (then_done _).symm
  | send message effect => rfl
  | setLamports address value => rfl
  | setAccount address account => exact (done_then svm fun svm => work engine svm (.setAccount address account)).symm
  | addProgram address elf => exact (done_then svm fun svm => work engine svm (.addProgram address elf)).symm
  | airdrop address amount => exact (done_then svm fun svm => work engine svm (.airdrop address amount)).symm
  | reset => exact (done_then svm fun svm => work engine svm .reset).symm
  | pin programs =>
    rw [step, forkPrograms, hydrationOf, hydrate]
    cases enabled : svm.fork with
    | none => simp [ensure_disabled engine svm programs enabled, Outcome.andThen, work, enabled]
    | some fork =>
      -- The fork is still there after the hydration.
      have guarded := ensure_guarded engine svm programs
      simp only [Guarded, enabled] at guarded
      obtain ⟨after, isAfter, _⟩ := guarded
      dsimp only
      rw [Outcome.andThen, Outcome.andThen]
      cases (ensurePresent engine svm programs).error with
      | some error => rfl
      | none =>
        cases found : unpinned (ensurePresent engine svm programs).svm.accounts programs <;>
          simp [work, isAfter, found]

theorem local_write_fork (engine : Engine) (svm : Svm) (address : Address) (account : Account) :
    (localWrite engine svm address account).svm.fork = svm.fork := by
  rw [localWrite]
  cases engine.rejects svm.accounts address account <;> rfl

theorem work_fork (engine : Engine) (svm : Svm) (op : Op) (running : op ≠ .reset) :
    (work engine svm op).svm.fork = svm.fork := by
  cases op with
  | touch keys => rfl
  | simulate message => rfl
  | send message effect => rfl
  | reset => exact absurd rfl running
  | setAccount address account => exact local_write_fork engine svm address account
  | setLamports address value => exact local_write_fork engine svm address _
  | airdrop address amount =>
    rw [work, airdrop]
    cases svm.accounts address with
    | none => rfl
    | some account =>
      dsimp only
      split <;> rfl
  | addProgram address elf =>
    rw [work]
    cases engine.deploy elf with
    | error text => rfl
    | ok account => exact local_write_fork engine svm address account
  | pin programs =>
    rw [work]
    split
    · rfl
    · split <;> rfl

theorem phases_fork (engine : Engine) (svm : Svm) (op : Op) (running : op ≠ .reset) :
    (step engine svm op).svm.fork = (hydrate engine svm (hydrationOf op)).svm.fork := by
  rw [step_phases, Outcome.andThen]
  cases (hydrate engine svm (hydrationOf op)).error with
  | some error => rfl
  | none => exact work_fork engine _ op running

theorem hydrate_guarded (engine : Engine) (svm : Svm) (hydration : Hydration) : Guarded svm (hydrate engine svm hydration) := by
  cases hydration with
  | nothing => exact guarded_local svm svm none rfl
  | keys keys => exact ensure_guarded engine svm keys
  | message message =>
    exact hydrate_composes engine Guarded ⟨guarded_local, guarded_then, ensure_guarded engine⟩ svm message

theorem hydration_keeps (engine : Engine) (svm : Svm) (hydration : Hydration) : Keeps svm (hydrate engine svm hydration) := by
  cases hydration with
  | nothing => exact keeps_same svm none
  | keys keys => exact ensure_keeps engine svm keys
  | message message => exact hydrate_keeps engine svm message

def Elsewhere (svm : Svm) (outcome : Outcome) : Prop :=
  ∀ address, address ∉ outcome.injected.map Prod.fst → outcome.svm.accounts address = svm.accounts address

theorem elsewhere_then (svm : Svm) (first : Outcome) (next : Svm → Outcome) (before : Elsewhere svm first)
    (after : ∀ svm, Elsewhere svm (next svm)) : Elsewhere svm (first.andThen next) := by
  rw [Outcome.andThen]
  cases first.error with
  | some error => exact before
  | none =>
    intro address unwritten
    rw [List.map_append, List.mem_append, not_or] at unwritten
    exact (after first.svm address unwritten.2).trans (before address unwritten.1)

theorem hydration_elsewhere (engine : Engine) (svm : Svm) (hydration : Hydration) :
    Elsewhere svm (hydrate engine svm hydration) := by
  cases hydration with
  | nothing => exact fun _ _ => rfl
  | keys keys => exact ensure_elsewhere engine svm keys
  | message message =>
    rw [hydrate, hydrateForMessage]
    cases svm.fork with
    | none => exact fun _ _ => rfl
    | some fork =>
      apply elsewhere_then
      · exact ensure_elsewhere engine svm _
      · intro svm
        cases loadedAddresses engine svm.accounts message.addressTableLookups with
        | error text => exact fun _ _ => rfl
        | ok addresses => exact ensure_elsewhere engine svm addresses

end WakeSol.Forking
