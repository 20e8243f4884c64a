import WakeSol.Forking.Hydrate
import WakeSol.Lib.Tally

/- The state of the harness between tests. The plugin restores the global SVM, the
   labels and the random generator before every test; the keys of the accounts that
   earlier tests created stay in the process. -/
set_option autoImplicit false

namespace WakeSol.Harness

open TextLib TallyLib RadixLib Forking

structure FeeStructure where
  lamportsPerSignature : UInt64
  lamportsPerWriteLock : UInt64
  computeFeeBins : List (UInt64 × UInt64)

abbrev FeatureSet := Address → Bool

structure Runtime where
  accounts : Accounts
  sysvars : Address → Option Bytes
  latestBlockhash : Text
  sigverify : Bool
  blockhashCheck : Bool
  history : List Bytes
  historyCap : Nat
  features : FeatureSet
  fees : FeeStructure

structure Keypair where
  pubkey : Address
  bytes : Bytes

structure Platform (R : Type) where
  newRuntime : Runtime
  withTransactionHistory : Runtime → Nat → Runtime
  applyFeatureSet : Runtime → FeatureSet → Runtime
  randbytes : R → Nat → Bytes × R
  seed : Bytes → R
  sha256 : Bytes → Bytes
  newKeypair : Bytes → Keypair
  readKeypair : Bytes → Except Text Keypair

structure LiteSvm where
  inner : Runtime
  sigverify : Bool
  blockhashCheck : Bool
  transactionHistory : Bool
  fork : Option Fork
  constructionFeatures : Option FeatureSet
  constructionFees : FeeStructure

structure State (R : Type) where
  svm : LiteSvm
  labels : Dict Text Text
  random : R
  keystore : Dict Address Bytes

def State.start {R : Type} (svm : LiteSvm) (random : R) : State R := ⟨svm, .empty, random, .empty⟩

def defaultTxHistoryCap : Nat := 32

section

variable {R : Type} (platform : Platform R)

def baseSvm (sigverify blockhashCheck transactionHistory : Bool) : Runtime :=
  let svm := { platform.newRuntime with sigverify := sigverify, blockhashCheck := blockhashCheck }
  if transactionHistory then svm else platform.withTransactionHistory svm 0

def setSigverify (svm : LiteSvm) (value : Bool) : LiteSvm :=
  { svm with inner := { svm.inner with sigverify := value }, sigverify := value }

def setBlockhashCheck (svm : LiteSvm) (value : Bool) : LiteSvm :=
  { svm with inner := { svm.inner with blockhashCheck := value }, blockhashCheck := value }

def setTransactionHistory (svm : LiteSvm) (value : Bool) : LiteSvm :=
  { svm with
    inner := platform.withTransactionHistory svm.inner (if value then defaultTxHistoryCap else 0)
    transactionHistory := value }

def rebuildWithFeatureSet (svm : LiteSvm) (features : FeatureSet) : LiteSvm :=
  { svm with inner := platform.applyFeatureSet svm.inner features }

def unfork (svm : LiteSvm) : LiteSvm := { svm with fork := none }

-- The toggles and the fork stay; features and fees go back to those of construction.
def reset (svm : LiteSvm) : LiteSvm :=
  let base := baseSvm platform svm.sigverify svm.blockhashCheck svm.transactionHistory
  let inner := match svm.constructionFeatures with
    | some features => platform.applyFeatureSet base features
    | none => base
  { svm with
    inner := { inner with fees := svm.constructionFees }
    fork := svm.fork.map fun fork => { fork with seen := [] } }

def remember (state : State R) (keypair : Keypair) : State R :=
  { state with keystore := state.keystore.set keypair.pubkey keypair.bytes }

-- Account.new draws its seed from the global generator.
def newAccount (state : State R) : Keypair × State R :=
  let drawn := platform.randbytes state.random 32
  (platform.newKeypair drawn.1, { state with random := drawn.2 })

def runtestSetup (baseSeed nodeid : Bytes) (state : State R) : State R :=
  let svm := if state.svm.sigverify then state.svm else setSigverify state.svm true
  let svm := if svm.blockhashCheck then svm else setBlockhashCheck svm true
  let svm := if svm.transactionHistory then svm else setTransactionHistory platform svm true
  { state with
    svm := reset platform (unfork svm)
    labels := .empty
    random := platform.seed (platform.sha256 (baseSeed ++ nodeid)) }

-- What tests do to the process. Transactions, reads under a fork and writes of
-- accounts and sysvars act on the runtime and the fork in any way they like.
inductive Step (R : Type) where
  | newAccount
  | fromSecret (secret : Bytes)
  | setSigverify (value : Bool)
  | setBlockhashCheck (value : Bool)
  | setTransactionHistory (value : Bool)
  | setFees (change : FeeStructure → FeeStructure)
  | changeFeatures (change : FeatureSet → FeatureSet)
  | fork (fork : Fork)
  | unfork
  | reset
  | execute (effect : Runtime × Option Fork → Runtime × Option Fork)
  | setLabel (address name : Text)
  | draw (effect : R → R)
  | setup (nodeid : Bytes)

def created (state : State R) : Step R → Option Keypair
  | .newAccount => some (newAccount platform state).1
  | .fromSecret secret => (platform.readKeypair secret).toOption
  | _ => none

def plainStep (baseSeed : Bytes) (state : State R) : Step R → State R
  | .newAccount => (newAccount platform state).2
  | .fromSecret _ => state
  | .setSigverify value => { state with svm := Harness.setSigverify state.svm value }
  | .setBlockhashCheck value => { state with svm := Harness.setBlockhashCheck state.svm value }
  | .setTransactionHistory value => { state with svm := Harness.setTransactionHistory platform state.svm value }
  | .setFees change =>
    { state with svm := { state.svm with inner := { state.svm.inner with fees := change state.svm.inner.fees } } }
  | .changeFeatures change =>
    { state with svm := rebuildWithFeatureSet platform state.svm (change state.svm.inner.features) }
  | .fork fork => { state with svm := { state.svm with fork := some fork } }
  | .unfork => { state with svm := Harness.unfork state.svm }
  | .reset => { state with svm := Harness.reset platform state.svm }
  | .execute effect =>
    let after := effect (state.svm.inner, state.svm.fork)
    { state with svm := { state.svm with inner := after.1, fork := after.2 } }
  | .setLabel address name => { state with labels := state.labels.set address name }
  | .draw effect => { state with random := effect state.random }
  | .setup nodeid => runtestSetup platform baseSeed nodeid state

def step (baseSeed : Bytes) (state : State R) (action : Step R) : State R :=
  match created platform state action with
  | none => plainStep platform baseSeed state action
  | some keypair => remember (plainStep platform baseSeed state action) keypair

def run (baseSeed : Bytes) (state : State R) (steps : List (Step R)) : State R := steps.foldl (step platform baseSeed) state

def createdKeys (baseSeed : Bytes) (state : State R) : List (Step R) → List Keypair
  | [] => []
  | action :: rest =>
    (created platform state action).toList ++ createdKeys baseSeed (step platform baseSeed state action) rest

def lastKey (keys : List Keypair) (address : Address) : Option Bytes :=
  (keys.reverse.find? fun keypair => keypair.pubkey = address).map Keypair.bytes

structure Handle where
  address : Address
  keypair : Option Bytes

def signingSecret (state : State R) (payer : Handle) (explicit : Dict Address Bytes) (signer : Address) : Option Bytes :=
  if signer = payer.address then payer.keypair
  else match explicit.get signer with
    | some secret => some secret
    | none => state.keystore.get signer

structure SameState (left right : State R) : Prop where
  runtime : left.svm.inner = right.svm.inner
  sigverify : left.svm.sigverify = right.svm.sigverify
  blockhashCheck : left.svm.blockhashCheck = right.svm.blockhashCheck
  transactionHistory : left.svm.transactionHistory = right.svm.transactionHistory
  unforked : left.svm.fork = none ∧ right.svm.fork = none
  labels : left.labels = right.labels
  random : left.random = right.random
  signing : ∀ payer explicit signer, signingSecret left payer explicit signer = signingSecret right payer explicit signer

def pristine (features : Option FeatureSet) (fees : FeeStructure) : LiteSvm :=
  reset platform ⟨platform.newRuntime, true, true, true, none, features, fees⟩

theorem setup_svm (baseSeed nodeid : Bytes) (state : State R) :
    (runtestSetup platform baseSeed nodeid state).svm =
      pristine platform state.svm.constructionFeatures state.svm.constructionFees := by
  obtain ⟨⟨inner, sigverify, blockhashCheck, transactionHistory, fork, features, fees⟩, labels, random, keystore⟩ := state
  cases sigverify <;> cases blockhashCheck <;> cases transactionHistory <;> rfl

variable (baseSeed : Bytes) (state : State R) (action : Step R)

theorem step_construction :
    (step platform baseSeed state action).svm.constructionFeatures = state.svm.constructionFeatures ∧
      (step platform baseSeed state action).svm.constructionFees = state.svm.constructionFees := by
  cases action with
  | fromSecret secret =>
    rw [step]
    cases created platform state (.fromSecret secret) <;> exact ⟨rfl, rfl⟩
  | setup nodeid =>
    change (runtestSetup platform baseSeed nodeid state).svm.constructionFeatures = _ ∧
      (runtestSetup platform baseSeed nodeid state).svm.constructionFees = _
    rw [setup_svm]
    exact ⟨rfl, rfl⟩
  | newAccount => exact ⟨rfl, rfl⟩
  | setSigverify value => exact ⟨rfl, rfl⟩
  | setBlockhashCheck value => exact ⟨rfl, rfl⟩
  | setTransactionHistory value => exact ⟨rfl, rfl⟩
  | setFees change => exact ⟨rfl, rfl⟩
  | changeFeatures change => exact ⟨rfl, rfl⟩
  | fork fork => exact ⟨rfl, rfl⟩
  | unfork => exact ⟨rfl, rfl⟩
  | reset => exact ⟨rfl, rfl⟩
  | execute effect => exact ⟨rfl, rfl⟩
  | setLabel address name => exact ⟨rfl, rfl⟩
  | draw effect => exact ⟨rfl, rfl⟩

theorem run_construction (steps : List (Step R)) :
    (run platform baseSeed state steps).svm.constructionFeatures = state.svm.constructionFeatures ∧
      (run platform baseSeed state steps).svm.constructionFees = state.svm.constructionFees := by
  induction steps generalizing state with
  | nil => exact ⟨rfl, rfl⟩
  | cons action rest ih =>
    have first := step_construction platform baseSeed state action
    have later := ih (step platform baseSeed state action)
    exact ⟨later.1.trans first.1, later.2.trans first.2⟩

theorem plain_step_keystore : (plainStep platform baseSeed state action).keystore = state.keystore := by
  cases action <;> rfl

theorem step_keystore (address : Address) : (step platform baseSeed state action).keystore.get address =
      (lastKey (created platform state action).toList address).or (state.keystore.get address) := by
  rw [step]
  cases created platform state action with
  | none =>
    rw [plain_step_keystore]
    exact Option.none_or.symm
  | some keypair =>
    dsimp only [remember]
    rw [get_set, plain_step_keystore, lastKey, Option.toList_some, List.reverse_singleton, List.find?_singleton]
    by_cases same : keypair.pubkey = address
    · simp [same]
    · have apart : ¬ address = keypair.pubkey := fun other => same other.symm
      simp [same, apart]

theorem last_key_append (early late : List Keypair) (address : Address) :
    lastKey (early ++ late) address = (lastKey late address).or (lastKey early address) := by
  rw [lastKey, List.reverse_append, List.find?_append, lastKey, lastKey]
  cases List.find? (fun keypair => decide (keypair.pubkey = address)) late.reverse <;> rfl

theorem run_keystore (steps : List (Step R)) (address : Address) :
    (run platform baseSeed state steps).keystore.get address =
      (lastKey (createdKeys platform baseSeed state steps) address).or (state.keystore.get address) := by
  induction steps generalizing state with
  | nil => exact Option.none_or.symm
  | cons action rest ih =>
    have later := ih (step platform baseSeed state action)
    rw [step_keystore, ← Option.or_assoc, ← last_key_append] at later
    exact later

theorem signing_iff (left right : State R) :
    (∀ payer explicit signer, signingSecret left payer explicit signer = signingSecret right payer explicit signer) ↔
      ∀ address, left.keystore.get address = right.keystore.get address := by
  refine ⟨fun same address => ?_, fun same payer explicit signer => ?_⟩
  · -- Some other account pays.
    obtain ⟨payer, apart⟩ : ∃ payer : Address, address ≠ payer := by
      by_cases zero : address = .fill 0
      · exact ⟨.fill 1, by rw [zero]; decide⟩
      · exact ⟨.fill 0, zero⟩
    have equal := same ⟨payer, none⟩ .empty address
    simpa only [signingSecret, if_neg apart, get_empty] using equal
  · rw [signingSecret, signingSecret, same]

theorem isolation_iff (baseSeed nodeid : Bytes) (svm : LiteSvm) (random : R) (left right : List (Step R)) :
    SameState (runtestSetup platform baseSeed nodeid (run platform baseSeed (.start svm random) left))
        (runtestSetup platform baseSeed nodeid (run platform baseSeed (.start svm random) right)) ↔
      ∀ address, lastKey (createdKeys platform baseSeed (.start svm random) left) address =
        lastKey (createdKeys platform baseSeed (.start svm random) right) address := by
  have keys : ∀ (steps : List (Step R)) (address : Address),
      (runtestSetup platform baseSeed nodeid (run platform baseSeed (.start svm random) steps)).keystore.get address =
        lastKey (createdKeys platform baseSeed (.start svm random) steps) address := by
    intro steps address
    have after := run_keystore platform baseSeed (.start svm random) steps address
    rw [State.start, get_empty, Option.or_none] at after
    exact after
  have restored : ∀ steps : List (Step R),
      (runtestSetup platform baseSeed nodeid (run platform baseSeed (.start svm random) steps)).svm =
        pristine platform svm.constructionFeatures svm.constructionFees := by
    intro steps
    have kept := run_construction platform baseSeed (.start svm random) steps
    rw [setup_svm, kept.1, kept.2]
    rfl
  refine ⟨fun same address => ?_, fun same => ?_⟩
  · rw [← keys left, ← keys right]
    exact (signing_iff _ _).mp same.signing address
  · have svms := (restored left).trans (restored right).symm
    refine ⟨by rw [svms], by rw [svms], by rw [svms], by rw [svms], ?_, rfl, rfl, ?_⟩
    · rw [restored left, restored right]
      exact ⟨rfl, rfl⟩
    · rw [signing_iff]
      intro address
      rw [keys left, keys right, same]

end

def plainRuntime : Runtime :=
  ⟨fun _ => none, fun _ => none, [], true, true, [], 32, fun _ => true, ⟨0, 0, []⟩⟩

def countingPlatform : Platform Nat where
  newRuntime := plainRuntime
  withTransactionHistory runtime cap := { runtime with historyCap := cap }
  applyFeatureSet runtime features := { runtime with features := features }
  randbytes drawn n := (List.replicate n 7, drawn + 1)
  seed _ := 0
  sha256 bytes := bytes
  newKeypair seed := ⟨.fill 7, seed ++ seed⟩
  readKeypair secret := .ok ⟨.fill 8, secret⟩

def plainSvm : LiteSvm := ⟨plainRuntime, true, true, true, none, none, ⟨0, 0, []⟩⟩

theorem earlier_account_signs :
    signingSecret (runtestSetup countingPlatform [1] [2] (run countingPlatform [1] (.start plainSvm 0) []))
        ⟨.fill 9, none⟩ .empty (.fill 7) = none ∧
      signingSecret (runtestSetup countingPlatform [1] [2] (run countingPlatform [1] (.start plainSvm 0) [.newAccount]))
        ⟨.fill 9, none⟩ .empty (.fill 7) = some (List.replicate 64 7) := by
  decide

end WakeSol.Harness
