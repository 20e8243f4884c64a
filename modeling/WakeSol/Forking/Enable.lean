import WakeSol.Forking.Local

/- Enabling the fork. Online it asks the node for the slot, the time and the tip
   blockhash and sets the runtime's clock by them; offline it sets nothing. -/
set_option autoImplicit false

namespace WakeSol.Forking

open TextLib RadixLib CacheLib Trace

def Fork.new (engine : Engine) (rpc : Option Rpc) (store : SnapshotStore) (excludePrograms : List Address) : Fork :=
  ⟨rpc, store, excludePrograms, excludePrograms.map engine.programdataAddressOf, [], 0, 0⟩

-- The node behind the url and the directory behind the path stand for them.
structure ForkRequest where
  url : Option Rpc
  exclude : List Address
  cache : SnapshotStore
  offline : Bool

-- A blockhash is 32 bytes in base 58, as an address is; one that is not is skipped.
def seed (svm : Svm) (rpc : Rpc) (slot : UInt64) : Svm :=
  { svm with
    clock := ⟨slot, (rpc.getBlockTime slot).getD svm.clock.unixTimestamp⟩
    latestBlockhash := ((rpc.getLatestBlockhash.bind Address.ofText).map Address.text).getD svm.latestBlockhash }

def Svm.forkWith (engine : Engine) (svm : Svm) (request : ForkRequest) : Except HarnessError Svm :=
  if request.offline then .ok { svm with fork := some (Fork.new engine none request.cache request.exclude) }
  else
    match request.url with
    | none => .error .urlRequired
    | some rpc =>
      match rpc.getSlot with
      | .error text => .error (.rpc text)
      | .ok slot =>
        .ok { seed svm rpc slot with
          fork := some { Fork.new engine (some rpc) request.cache request.exclude with minContextSlot := slot } }

def Svm.fresh (engine : Engine) : Svm := ⟨engine.genesis, engine.genesisClock, engine.genesisBlockhash, none⟩

theorem fork_online (engine : Engine) (svm : Svm) (request : ForkRequest) (online : request.offline = false) (forked : Svm)
    (enabled : svm.forkWith engine request = .ok forked) :
    ∃ rpc slot, request.url = some rpc ∧ rpc.getSlot = .ok slot ∧
      forked = { seed svm rpc slot with
        fork := some { Fork.new engine (some rpc) request.cache request.exclude with minContextSlot := slot } } := by
  rw [Svm.forkWith, online] at enabled
  cases given : request.url with
  | none => simp [given] at enabled
  | some rpc =>
    cases answered : rpc.getSlot with
    | error text => simp [given, answered] at enabled
    | ok slot =>
      simp only [given, answered, Bool.false_eq_true, if_false] at enabled
      exact ⟨rpc, slot, rfl, answered, (Except.ok.inj enabled).symm⟩

-- The clock of a replay is the one the new runtime came with: the directory has
-- no place for it.
theorem replay_clock_iff (engine : Engine) (base : Svm) (request : ForkRequest) (online : request.offline = false)
    (session : Svm) (enabled : base.forkWith engine request = .ok session) (ops : List Op) (left : Fork)
    (populated : (run engine session ops).fork = some left) (fresh : Svm) (url : Option Rpc) (exclude : List Address) :
    ∃ replay, fresh.forkWith engine ⟨url, exclude, left.store, true⟩ = .ok replay ∧
      (replay.clock = session.clock ↔
        ∃ rpc slot, request.url = some rpc ∧ rpc.getSlot = .ok slot ∧ fresh.clock.slot = slot ∧
          fresh.clock.unixTimestamp = (rpc.getBlockTime slot).getD base.clock.unixTimestamp) := by
  obtain ⟨rpc, slot, given, answered, rfl⟩ := fork_online engine base request online session enabled
  refine ⟨_, rfl, ?_⟩
  constructor
  · intro same
    have clock : fresh.clock = ⟨slot, (rpc.getBlockTime slot).getD base.clock.unixTimestamp⟩ := same
    exact ⟨rpc, slot, given, answered, by rw [clock], by rw [clock]⟩
  · rintro ⟨other, otherSlot, givenOther, answeredOther, sameSlot, sameTime⟩
    rw [given] at givenOther
    cases givenOther
    rw [answered] at answeredOther
    cases answeredOther
    change fresh.clock = ⟨slot, (rpc.getBlockTime slot).getD base.clock.unixTimestamp⟩
    rw [← sameTime, ← sameSlot]

def nodeAt (slot : UInt64) : Rpc := { uniform (wallet 9) with getSlot := .ok slot }

def onlineRequest (slot : UInt64) : ForkRequest := ⟨some (nodeAt slot), [], emptyDirectory, false⟩

def sessionAt (slot : UInt64) : Svm :=
  { seed (Svm.fresh plainEngine) (nodeAt slot) slot with
    fork := some { Fork.new plainEngine (some (nodeAt slot)) emptyDirectory [] with minContextSlot := slot } }

theorem replay_clock_at_genesis :
    (Svm.fresh plainEngine).forkWith plainEngine (onlineRequest 0) = .ok (sessionAt 0) ∧
    ∃ replay, (Svm.fresh plainEngine).forkWith plainEngine ⟨none, [], emptyDirectory, true⟩ = .ok replay ∧
      replay.clock = (sessionAt 0).clock := by
  refine ⟨rfl, ?_⟩
  obtain ⟨replay, replayed, clock⟩ := replay_clock_iff plainEngine (Svm.fresh plainEngine) (onlineRequest 0) rfl (sessionAt 0)
    rfl [] _ rfl (Svm.fresh plainEngine) none []
  exact ⟨replay, replayed, clock.mpr ⟨nodeAt 0, 0, rfl, rfl, rfl, rfl⟩⟩

theorem replay_clock_differs :
    (Svm.fresh plainEngine).forkWith plainEngine (onlineRequest 5) = .ok (sessionAt 5) ∧
    ∃ left replay, (run plainEngine (sessionAt 5) [.touch [.fill 1]]).fork = some left ∧
      left.store.get (.fill 1) = some (some (wallet 9)) ∧
      (Svm.fresh plainEngine).forkWith plainEngine ⟨none, [], left.store, true⟩ = .ok replay ∧
      (sessionAt 5).clock = ⟨5, 0⟩ ∧ replay.clock = ⟨0, 0⟩ := by
  have fetched : ((run plainEngine (sessionAt 5) [.touch [.fill 1]]).fork.map fun left => left.store.get (.fill 1)) =
      some (some (some (wallet 9))) := by decide +kernel
  obtain ⟨left, populated, kept⟩ := Option.map_eq_some_iff.mp fetched
  exact ⟨rfl, left, _, populated, kept, rfl, rfl, rfl⟩

end WakeSol.Forking
