import WakeSol.Forking.Exclusion
import WakeSol.Forking.Recorded

/- Replaying a run offline from the directory it left behind, call by call beside
   the run itself. -/
set_option autoImplicit false

namespace WakeSol.Forking

open TextLib RadixLib CacheLib Trace

structure Twin (directory : SnapshotStore) (on off : Svm) : Prop where
  accounts : off.accounts = on.accounts
  fork : off.fork = on.fork.map (Fork.offline directory)

structure Twins (directory : SnapshotStore) (left right : Outcome) : Prop where
  svm : Twin directory left.svm right.svm
  injected : right.injected = left.injected
  error : right.error = left.error

section Replay

variable (engine : Engine) (directory : SnapshotStore)

theorem then_ok (first : Outcome) (next : Svm → Outcome) (ok : (first.andThen next).error = none) :
    first.error = none ∧ (next first.svm).error = none := by
  rw [Outcome.andThen] at ok
  cases failed : first.error with
  | some error => simp [failed] at ok
  | none =>
    simp only [failed] at ok
    exact ⟨rfl, ok⟩

theorem then_svm (first : Outcome) (next : Svm → Outcome) (ok : first.error = none) :
    (first.andThen next).svm = (next first.svm).svm := by
  rw [Outcome.andThen, ok]

theorem then_twins (first replayed : Outcome) (next : Svm → Outcome) (ok : first.error = none)
    (twins : Twins directory first replayed) (later : Twins directory (next first.svm) (next replayed.svm)) :
    Twins directory (first.andThen next) (replayed.andThen next) := by
  rw [Outcome.andThen, Outcome.andThen, twins.error, ok]
  exact ⟨later.svm, by rw [twins.injected, later.injected], later.error⟩

theorem parts_twins (first replayed : Outcome) (next : Svm → Outcome) (grows : ∀ svm, Grows svm (next svm))
    (kept : ∀ fork ∈ (first.andThen next).svm.fork, Extends fork.store.get directory.get)
    (ok : (first.andThen next).error = none)
    (twins : first.error = none → (∀ fork ∈ first.svm.fork, Extends fork.store.get directory.get) →
      Twins directory first replayed)
    (later : Twin directory first.svm replayed.svm → (next first.svm).error = none →
      (∀ fork ∈ (next first.svm).svm.fork, Extends fork.store.get directory.get) →
      Twins directory (next first.svm) (next replayed.svm)) :
    Twins directory (first.andThen next) (replayed.andThen next) := by
  obtain ⟨hydrated, finished⟩ := then_ok first next ok
  rw [then_svm first next hydrated] at kept
  have here := twins hydrated (grows_kept directory _ _ (grows _) kept)
  exact then_twins directory first replayed next hydrated here (later here.svm finished kept)

theorem quiet_twins (on off : Svm) (error : Option HarnessError) (twin : Twin directory on off) :
    Twins directory ⟨on, [], error⟩ ⟨off, [], error⟩ := ⟨twin, rfl, rfl⟩

theorem ensure_twins (on off : Svm) (twin : Twin directory on off) (keys : List Address)
    (complete : ∀ fork ∈ on.fork, ∀ rpc ∈ fork.rpc, rpc.Complete)
    (steady : ∀ fork ∈ on.fork, fork.SteadyOn on.accounts keys)
    (kept : ∀ fork ∈ (ensurePresent engine on keys).svm.fork, Extends fork.store.get directory.get)
    (ok : (ensurePresent engine on keys).error = none) :
    Twins directory (ensurePresent engine on keys) (ensurePresent engine off keys) := by
  cases enabled : on.fork with
  | none =>
    have off' : off.fork = none := by rw [twin.fork, enabled, Option.map_none]
    rw [ensure_disabled engine on keys enabled, ensure_disabled engine off keys off']
    exact quiet_twins directory on off none twin
  | some fork =>
    have offline : off.fork = some (fork.offline directory) := by rw [twin.fork, enabled, Option.map_some]
    have prep := prepared on.accounts fork keys
    cases result : prepare on.accounts fork keys with
    | mk after stage =>
      rw [result] at prep
      cases stage with
      | error error =>
        rw [ensure_stopped engine on fork keys enabled after error result] at ok
        cases ok
      | ok inject =>
        have here := ensure_wrote engine on fork keys enabled after inject result
        have keptHere : Extends after.store.get directory.get := kept after (by rw [here]; rfl)
        have replayed := prepare_offline directory on.accounts fork (complete fork enabled) keys (steady fork enabled)
          after inject prep keptHere
        rw [← twin.accounts] at replayed
        rw [here, ensure_wrote engine off (fork.offline directory) keys offline _ inject replayed, twin.accounts]
        exact ⟨⟨rfl, rfl⟩, rfl, rfl⟩

theorem local_write_twins (on off : Svm) (twin : Twin directory on off) (address : Address) (account : Account) :
    Twins directory (localWrite engine on address account) (localWrite engine off address account) := by
  rw [localWrite, localWrite, twin.accounts]
  cases engine.rejects on.accounts address account with
  | some text => exact quiet_twins directory on off _ twin
  | none => exact ⟨⟨rfl, twin.fork⟩, rfl, rfl⟩

end Replay

def messageKeys (message : Message) : List Address :=
  message.staticAccountKeys ++ message.addressTableLookups.map TableLookup.accountKey

def secondWave (engine : Engine) (message : Message) (svm : Svm) : Outcome :=
  match loadedAddresses engine svm.accounts message.addressTableLookups with
  | .error text => fail svm (.lookupTable text)
  | .ok addresses => ensurePresent engine svm addresses

theorem hydrate_waves (engine : Engine) (svm : Svm) (fork : Fork) (enabled : svm.fork = some fork) (message : Message) :
    hydrateForMessage engine svm message =
      (ensurePresent engine svm (messageKeys message)).andThen (secondWave engine message) := by
  rw [hydrateForMessage, enabled]
  rfl

theorem second_wave_grows (engine : Engine) (message : Message) (svm : Svm) : Grows svm (secondWave engine message svm) := by
  rw [secondWave]
  cases loadedAddresses engine svm.accounts message.addressTableLookups with
  | error text => exact grows_quiet svm svm _ rfl
  | ok addresses => exact ensure_grows engine svm addresses

def messageHydrations (engine : Engine) (svm : Svm) (message : Message) : List (Svm × List Address) :=
  let first := (ensurePresent engine svm (messageKeys message)).svm
  (svm, messageKeys message) ::
    ((loadedAddresses engine first.accounts message.addressTableLookups).toOption.map fun addresses => (first, addresses)).toList

def hydrations (engine : Engine) (svm : Svm) : Op → List (Svm × List Address)
  | .touch keys => [(svm, keys)]
  | .pin programs => [(svm, programs)]
  | .simulate message => messageHydrations engine svm message
  | .send message _ => messageHydrations engine svm message
  | .setLamports address _ => [(svm, [address])]
  | _ => []

def SteadyCalls (calls : List (Svm × List Address)) : Prop :=
  ∀ call ∈ calls, ∀ fork ∈ call.1.fork, fork.SteadyOn call.1.accounts call.2

section Calls

variable (engine : Engine) (directory : SnapshotStore) (on off : Svm) (twin : Twin directory on off)
variable (complete : ∀ fork ∈ on.fork, ∀ rpc ∈ fork.rpc, rpc.Complete)

include twin complete

theorem hydrate_twins (message : Message) (steady : SteadyCalls (messageHydrations engine on message))
    (kept : ∀ fork ∈ (hydrateForMessage engine on message).svm.fork, Extends fork.store.get directory.get)
    (ok : (hydrateForMessage engine on message).error = none) :
    Twins directory (hydrateForMessage engine on message) (hydrateForMessage engine off message) := by
  cases enabled : on.fork with
  | none =>
    have disabled : off.fork = none := by rw [twin.fork, enabled, Option.map_none]
    rw [hydrateForMessage, hydrateForMessage, enabled, disabled]
    exact quiet_twins directory on off none twin
  | some fork =>
    have offline : off.fork = some (fork.offline directory) := by rw [twin.fork, enabled, Option.map_some]
    rw [hydrate_waves engine on fork enabled] at kept ok ⊢
    rw [hydrate_waves engine off _ offline]
    apply parts_twins directory _ _ _ (second_wave_grows engine message) kept ok
    · intro hydrated keptFirst
      exact ensure_twins engine directory on off twin _ complete (steady _ List.mem_cons_self) keptFirst hydrated
    intro twinFirst finished keptSecond
    rw [secondWave] at finished keptSecond
    rw [secondWave, secondWave, twinFirst.accounts]
    cases loaded : loadedAddresses engine (ensurePresent engine on (messageKeys message)).svm.accounts
        message.addressTableLookups with
    | error text =>
      simp only [loaded] at finished
      cases finished
    | ok addresses =>
      simp only [loaded] at finished keptSecond ⊢
      apply ensure_twins engine directory _ _ twinFirst addresses _ _ keptSecond finished
      · exact grows_complete _ _ (ensure_grows engine on _) complete
      · apply steady (_, addresses)
        simp [messageHydrations, loaded, Except.toOption]

theorem pin_twins (programs : List Address) (steady : ∀ fork ∈ on.fork, fork.SteadyOn on.accounts programs)
    (kept : ∀ fork ∈ (forkPrograms engine on programs).svm.fork, Extends fork.store.get directory.get)
    (ok : (forkPrograms engine on programs).error = none) :
    Twins directory (forkPrograms engine on programs) (forkPrograms engine off programs) := by
  cases enabled : on.fork with
  | none =>
    rw [forkPrograms, enabled] at ok
    cases ok
  | some fork =>
    have offline : off.fork = some (fork.offline directory) := by rw [twin.fork, enabled, Option.map_some]
    rw [forkPrograms, enabled] at kept ok ⊢
    rw [forkPrograms, offline]
    apply parts_twins directory _ _ _ _ kept ok
    · intro hydrated keptFirst
      exact ensure_twins engine directory on off twin _ complete steady keptFirst hydrated
    · intro twinFirst _ _
      rw [twinFirst.accounts]
      cases unpinned (ensurePresent engine on programs).svm.accounts programs with
      | some id => exact quiet_twins directory _ _ _ twinFirst
      | none => exact quiet_twins directory _ _ none twinFirst
    · intro svm
      cases unpinned svm.accounts programs with
      | some id => exact grows_quiet svm svm _ rfl
      | none => exact grows_quiet svm svm none rfl

theorem set_lamports_twins (address : Address) (value : UInt64)
    (steady : ∀ fork ∈ on.fork, fork.SteadyOn on.accounts [address])
    (kept : ∀ fork ∈ (setLamports engine on address value).svm.fork, Extends fork.store.get directory.get)
    (ok : (setLamports engine on address value).error = none) :
    Twins directory (setLamports engine on address value) (setLamports engine off address value) := by
  rw [setLamports] at kept ok ⊢
  rw [setLamports]
  apply parts_twins directory _ _ _ _ kept ok
  · intro hydrated keptFirst
    exact ensure_twins engine directory on off twin _ complete steady keptFirst hydrated
  · intro twinFirst _ _
    rw [twinFirst.accounts]
    exact local_write_twins engine directory _ _ twinFirst address _
  · intro svm
    exact local_write_composes engine Grows (grows_composes engine) svm address _

theorem send_twins (message : Message) (effect : Accounts → Accounts)
    (steady : SteadyCalls (messageHydrations engine on message))
    (kept : ∀ fork ∈ (step engine on (.send message effect)).svm.fork, Extends fork.store.get directory.get)
    (ok : (step engine on (.send message effect)).error = none) :
    Twins directory (step engine on (.send message effect)) (step engine off (.send message effect)) := by
  rw [step] at kept ok ⊢
  rw [step]
  apply parts_twins directory _ _ _ _ kept ok
  · intro hydrated keptFirst
    exact hydrate_twins engine directory on off twin complete message steady keptFirst hydrated
  · intro twinFirst _ _
    rw [twinFirst.accounts]
    exact ⟨⟨rfl, twinFirst.fork⟩, rfl, rfl⟩
  · intro svm
    exact grows_quiet svm _ none rfl

omit complete in
theorem airdrop_twins (address : Address) (amount : UInt64) :
    Twins directory (airdrop engine on address amount) (airdrop engine off address amount) := by
  rw [airdrop, airdrop, twin.accounts]
  cases on.accounts address with
  | none => exact ⟨⟨rfl, twin.fork⟩, rfl, rfl⟩
  | some account =>
    by_cases fits : account.lamports.toNat + amount.toNat < 2 ^ 64
    · simp only [if_pos fits]
      exact ⟨⟨rfl, twin.fork⟩, rfl, rfl⟩
    · simp only [if_neg fits]
      exact quiet_twins directory on off _ twin

omit complete in
theorem reset_twins : Twin directory (reset engine on) (reset engine off) := by
  refine ⟨rfl, ?_⟩
  rw [reset, reset, twin.fork, Option.map_map, Option.map_map]
  rfl

theorem step_twins (op : Op) (steady : SteadyCalls (hydrations engine on op))
    (kept : ∀ fork ∈ (step engine on op).svm.fork, Extends fork.store.get directory.get)
    (ok : (step engine on op).error = none) : Twins directory (step engine on op) (step engine off op) := by
  cases op with
  | touch keys => exact ensure_twins engine directory on off twin keys complete (steady _ List.mem_cons_self) kept ok
  | pin programs => exact pin_twins engine directory on off twin complete programs (steady _ List.mem_cons_self) kept ok
  | simulate message => exact hydrate_twins engine directory on off twin complete message steady kept ok
  | send message effect => exact send_twins engine directory on off twin complete message effect steady kept ok
  | setAccount address account => exact local_write_twins engine directory on off twin address account
  | addProgram address elf =>
    rw [step, step]
    cases engine.deploy elf with
    | error text => exact quiet_twins directory on off _ twin
    | ok account => exact local_write_twins engine directory on off twin address account
  | setLamports address value =>
    exact set_lamports_twins engine directory on off twin complete address value (steady _ List.mem_cons_self) kept ok
  | airdrop address amount => exact airdrop_twins engine directory on off twin address amount
  | reset => exact quiet_twins directory _ _ none (reset_twins engine directory on off twin)

end Calls

def Along (engine : Engine) (holdsAt : Svm → Op → Prop) : Svm → List Op → Prop
  | _, [] => True
  | svm, op :: rest => holdsAt svm op ∧ Along engine holdsAt (step engine svm op).svm rest

def Succeeds (engine : Engine) (svm : Svm) (op : Op) : Prop := (step engine svm op).error = none

def SteadyIn (engine : Engine) (svm : Svm) (op : Op) : Prop := SteadyCalls (hydrations engine svm op)

theorem run_kept (engine : Engine) (directory : SnapshotStore) (svm : Svm) (ops : List Op)
    (kept : ∀ fork ∈ (run engine svm ops).fork, Extends fork.store.get directory.get) :
    ∀ fork ∈ svm.fork, Extends fork.store.get directory.get := by
  induction ops generalizing svm with
  | nil => exact kept
  | cons op rest ih => exact grows_kept directory svm _ (step_grows engine svm op) (ih _ kept)

theorem run_twins (engine : Engine) (directory : SnapshotStore) (ops : List Op) (on off : Svm) (twin : Twin directory on off)
    (complete : ∀ fork ∈ on.fork, ∀ rpc ∈ fork.rpc, rpc.Complete) (succeeds : Along engine (Succeeds engine) on ops)
    (steady : Along engine (SteadyIn engine) on ops)
    (kept : ∀ fork ∈ (run engine on ops).fork, Extends fork.store.get directory.get) :
    injections engine off ops = injections engine on ops ∧ Along engine (Succeeds engine) off ops := by
  induction ops generalizing on off with
  | nil => exact ⟨rfl, trivial⟩
  | cons op rest ih =>
    have keptHere := run_kept engine directory (step engine on op).svm rest kept
    have twins := step_twins engine directory on off twin complete op steady.1 keptHere succeeds.1
    obtain ⟨same, completed⟩ := ih _ _ twins.svm (grows_complete on _ (step_grows engine on op) complete) succeeds.2 steady.2
      kept
    exact ⟨by rw [injections, injections, twins.injected, same], twins.error.trans succeeds.1, completed⟩

theorem offline_replay (engine : Engine) (base : Svm) (request : ForkRequest) (online : request.offline = false) (session : Svm)
    (enabled : base.forkWith engine request = .ok session) (complete : ∀ rpc ∈ request.url, rpc.Complete) (ops : List Op)
    (succeeds : Along engine (Succeeds engine) session ops) (steady : Along engine (SteadyIn engine) session ops)
    (left : Fork) (populated : (run engine session ops).fork = some left) (fresh : Svm)
    (sameStart : fresh.accounts = base.accounts) (url : Option Rpc) :
    ∃ replay, fresh.forkWith engine ⟨url, request.exclude, left.store, true⟩ = .ok replay ∧
      Along engine (Succeeds engine) replay ops ∧ injections engine replay ops = injections engine session ops := by
  obtain ⟨rpc, slot, given, _, isSession⟩ := fork_online engine base request online session enabled
  have twin : Twin left.store session { fresh with fork := some (Fork.new engine none left.store request.exclude) } := by
    rw [isSession]
    exact ⟨sameStart, rfl⟩
  have served : ∀ fork ∈ session.fork, ∀ rpc ∈ fork.rpc, rpc.Complete := by
    rw [isSession]
    rintro _ ⟨⟩ node isNode
    cases isNode
    exact complete rpc given
  have kept : ∀ fork ∈ (run engine session ops).fork, Extends fork.store.get left.store.get := by
    intro fork isFork
    cases populated.symm.trans isFork
    exact extends_refl _
  obtain ⟨same, completed⟩ := run_twins engine left.store ops session _ twin served succeeds steady kept
  exact ⟨_, rfl, completed, same⟩

section Still

variable (engine : Engine) (chain : Accounts)

theorem still_steady (fork : Fork) (honest : fork.Honest (holds chain)) (keys : List Address) : fork.Steady keys := by
  intro calls answers asked
  have answered := asked_honest (holds chain) fork honest keys calls answers asked
  intro left inLeft right inRight same
  have leftTrue := List.forall₂_zip answered inLeft
  have rightTrue := List.forall₂_zip answered inRight
  rw [holds] at leftTrue rightTrue
  rw [leftTrue, rightTrue, same]

theorem still_steady_on (fork : Fork) (honest : fork.Honest (holds chain)) (accounts : Accounts) (keys : List Address) :
    fork.SteadyOn accounts keys := by
  constructor
  · exact still_steady chain _ (remember_honest (holds chain) fork _ honest) _
  · intro middle fetched first resolution _
    have half := (fetch_honest (holds chain) _ _ _ _ (remember_honest (holds chain) fork _ honest) first).1
    exact still_steady chain _ (remember_honest (holds chain) middle _ half) _

def StaysHonest (svm : Svm) (outcome : Outcome) : Prop :=
  (∀ fork ∈ svm.fork, fork.Honest (holds chain)) → ∀ fork ∈ outcome.svm.fork, fork.Honest (holds chain)

theorem step_stays_honest (svm : Svm) (op : Op) : StaysHonest chain svm (step engine svm op) := by
  by_cases running : op = .reset
  · subst running
    intro honest fork isFork
    obtain ⟨before, enabled, rfl⟩ := Option.map_eq_some_iff.mp isFork
    exact remember_honest (holds chain) before [] (honest before enabled)
  · apply step_composes engine _ _ svm op running
    refine ⟨?_, ?_, ensure_honest (holds chain) engine⟩
    · intro svm after error same honest fork isFork
      exact honest fork (by rwa [← same])
    · intro svm first next before later honest
      rw [Outcome.andThen]
      cases first.error with
      | some error => exact before honest
      | none => exact later first.svm (before honest)

theorem still_run (svm : Svm) (honest : ∀ fork ∈ svm.fork, fork.Honest (holds chain)) (ops : List Op) :
    Along engine (SteadyIn engine) svm ops := by
  induction ops generalizing svm with
  | nil => trivial
  | cons op rest ih =>
    refine ⟨?_, ih _ (step_stays_honest engine chain svm op honest)⟩
    have waves : ∀ message, SteadyCalls (messageHydrations engine svm message) := by
      intro message call inside fork isFork
      rcases List.mem_cons.mp inside with rfl | second
      · exact still_steady_on chain fork (honest fork isFork) _ _
      · obtain ⟨addresses, _, rfl⟩ := Option.map_eq_some_iff.mp (Option.mem_toList.mp second)
        exact still_steady_on chain fork (ensure_honest (holds chain) engine svm _ honest fork isFork) _ _
    have one : ∀ keys, SteadyCalls [(svm, keys)] := by
      intro keys call inside fork isFork
      rw [List.mem_singleton] at inside
      subst inside
      exact still_steady_on chain fork (honest fork isFork) _ _
    have none : SteadyCalls [] := fun call inside => nomatch inside
    cases op with
    | touch keys => exact one keys
    | pin programs => exact one programs
    | simulate message => exact waves message
    | send message effect => exact waves message
    | setAccount address account => exact none
    | addProgram address elf => exact none
    | setLamports address value => exact one [address]
    | airdrop address amount => exact none
    | reset => exact none

end Still

instance decideAlong (engine : Engine) (holdsAt : Svm → Op → Prop) [∀ svm op, Decidable (holdsAt svm op)] :
    (svm : Svm) → (ops : List Op) → Decidable (Along engine holdsAt svm ops)
  | _, [] => .isTrue trivial
  | svm, op :: rest =>
    have := decideAlong engine holdsAt (step engine svm op).svm rest
    inferInstanceAs (Decidable (holdsAt svm op ∧ Along engine holdsAt (step engine svm op).svm rest))

instance (engine : Engine) (svm : Svm) (op : Op) : Decidable (Succeeds engine svm op) :=
  decidable_of_iff ((step engine svm op).error.isNone = true) Option.isNone_iff_eq_none

-- A program is read, credited and dropped, and after a reset read again with an
-- address the chain has nothing at.
def programScenario : List Op :=
  [.touch [.fill 2], .airdrop (.fill 2) 3, .setLamports (.fill 2) 0, .reset, .touch [.fill 9, .fill 2, .fill 5]]

theorem offline_replay_program :
    ∃ left replay, (run loaderEngine excludeOneSession programScenario).fork = some left ∧
      (Svm.fresh loaderEngine).forkWith loaderEngine ⟨none, [.fill 1], left.store, true⟩ = .ok replay ∧
      injections loaderEngine replay programScenario = injections loaderEngine excludeOneSession programScenario := by
  have succeeds : Along loaderEngine (Succeeds loaderEngine) excludeOneSession programScenario := by decide +kernel
  have honest : ∀ fork ∈ excludeOneSession.fork, fork.Honest (holds programChain) := by
    rintro _ ⟨⟩
    exact node_honest programChain _ rfl rfl
  have complete : ∀ rpc ∈ excludeOne.url, rpc.Complete := by
    rintro _ ⟨⟩ calls keys slot answers answered
    cases answered
    exact List.length_map _
  have enabled : ((run loaderEngine excludeOneSession programScenario).fork).isSome = true := by decide +kernel
  obtain ⟨left, populated⟩ := Option.isSome_iff_exists.mp enabled
  obtain ⟨replay, replayed, _, same⟩ := offline_replay loaderEngine (Svm.fresh loaderEngine) excludeOne rfl excludeOneSession rfl
    complete programScenario succeeds (still_run loaderEngine programChain excludeOneSession honest programScenario) left
    populated (Svm.fresh loaderEngine) rfl none
  exact ⟨left, replay, populated, replayed, same⟩

def closing : Rpc where
  getMultipleAccounts := fun calls keys _ => .ok (keys.map fun _ => if calls = 0 then some (wallet 9) else none)
  getSlot := .ok 7
  getBlockTime := fun _ => none
  getLatestBlockhash := none

def tableEngine : Engine := { plainEngine with readTableAddresses := fun _ => .ok [.fill 1] }

def repeatedLookup : Message := ⟨[], [], [⟨.fill 7, List.replicate 101 0, []⟩], fun _ => false, fun _ => false⟩

def repeatedScenario : List Op := [.setAccount (.fill 7) (wallet 1), .simulate repeatedLookup]

def closingSession : Svm :=
  { seed (Svm.fresh tableEngine) closing 7 with
    fork := some { Fork.new tableEngine (some closing) emptyDirectory [] with minContextSlot := 7 } }

theorem closed_account_not_replayed :
    (Svm.fresh tableEngine).forkWith tableEngine ⟨some closing, [], emptyDirectory, false⟩ = .ok closingSession ∧
    closing.Complete ∧ Along tableEngine (Succeeds tableEngine) closingSession repeatedScenario ∧
    injections tableEngine closingSession repeatedScenario = [[], List.replicate 100 (.fill 1, wallet 9)] ∧
    ∃ left replay, (run tableEngine closingSession repeatedScenario).fork = some left ∧
      (Svm.fresh tableEngine).forkWith tableEngine ⟨none, [], left.store, true⟩ = .ok replay ∧
      injections tableEngine replay repeatedScenario = [[], []] := by
  have complete : closing.Complete := by
    intro calls keys slot answers answered
    cases answered
    exact List.length_map _
  have replayed : ((run tableEngine closingSession repeatedScenario).fork.map fun left =>
      injections tableEngine { Svm.fresh tableEngine with fork := some (Fork.new tableEngine none left.store []) }
        repeatedScenario) = some [[], []] := by decide +kernel
  obtain ⟨left, populated, nothing⟩ := Option.map_eq_some_iff.mp replayed
  exact ⟨rfl, complete, by decide +kernel, by decide +kernel, left, _, populated, rfl, nothing⟩

end WakeSol.Forking
