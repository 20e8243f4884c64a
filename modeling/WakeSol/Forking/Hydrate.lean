import WakeSol.Forking.Store
import WakeSol.Trace.Tree

/- Accounts are fetched into the runtime when they are first touched. The fork
   remembers the addresses it has resolved; an address that is resident or
   remembered is left alone. -/
set_option autoImplicit false

namespace WakeSol.Forking

open TextLib RadixLib CacheLib Trace

abbrev Accounts := Address → Option Account

structure Clock where
  slot : UInt64
  unixTimestamp : Int
deriving DecidableEq

-- What the harness takes from the runtime and its libraries: the check of a
-- stored account, the reading of a lookup table, the account a deployed program
-- gets, the rent epoch of a new account, the derivation of a programdata address
-- and the state at genesis.
structure Engine where
  rejects : Accounts → Address → Account → Option Text
  readTableAddresses : Bytes → Except Text (List Address)
  deploy : Bytes → Except Text Account
  newRentEpoch : UInt64
  programdataAddressOf : Address → Address
  genesis : Accounts
  genesisClock : Clock
  genesisBlockhash : Text

-- The runtime drops an account without lamports.
def storeAccount (accounts : Accounts) (address : Address) (account : Account) : Accounts :=
  fun other => if other = address then (if account.lamports = 0 then none else some account) else accounts other

structure Svm where
  accounts : Accounts
  clock : Clock
  latestBlockhash : Text
  fork : Option Fork

def loaderV3 : Address :=
  ⟨[2, 168, 246, 145, 78, 136, 161, 176, 226, 16, 21, 62, 247, 99, 174, 43, 0, 194, 185, 61, 22, 193, 36, 210, 192, 83, 122,
    16, 4, 128, 0, 0], rfl⟩

example : loaderV3.text = "BPFLoaderUpgradeab1e11111111111111111111111".toList := by decide +kernel

-- The loader's Program state: the discriminant, then the address.
def programdataAddress (data : Bytes) : Option Address :=
  if data.take 4 = [2, 0, 0, 0] then
    if size : ((data.drop 4).take 32).length = 32 then some ⟨(data.drop 4).take 32, size⟩ else none
  else none

def Fork.excludes (fork : Fork) (address : Address) : Prop :=
  address ∈ fork.excludePrograms ∨ address ∈ fork.excludeAddrs

instance (fork : Fork) (address : Address) : Decidable (fork.excludes address) :=
  inferInstanceAs (Decidable (address ∈ fork.excludePrograms ∨ address ∈ fork.excludeAddrs))

structure Selection where
  seen : List Address
  candidates : List Address

def selectKey (accounts : Accounts) (fork : Fork) (state : Selection) (k : Address) : Selection :=
  if k ∈ state.seen then state
  else if fork.excludes k then { state with seen := k :: state.seen }
  else if (accounts k).isSome then state
  else { state with candidates := state.candidates ++ [k] }

def select (accounts : Accounts) (fork : Fork) (keys : List Address) : Selection :=
  keys.foldl (selectKey accounts fork) ⟨fork.seen, []⟩

structure Resolution where
  seen : List Address
  inject : List (Address × Account)
  followups : List Address

def followup (accounts : Accounts) (fork : Fork) (seen : List Address) (account : Account) : Option Address :=
  if account.executable ∧ account.owner = loaderV3 then
    (programdataAddress account.data).bind fun pd =>
      if pd ∉ seen ∧ pd ∉ fork.excludeAddrs ∧ accounts pd = none then some pd else none
  else none

def resolveCandidate (accounts : Accounts) (fork : Fork) (state : Resolution) (pair : Address × Option Account) : Resolution :=
  match pair.2 with
  | none => { state with seen := pair.1 :: state.seen }
  | some account =>
    if account.owner ∈ fork.excludePrograms then { state with seen := pair.1 :: state.seen }
    else
      { seen := pair.1 :: state.seen
        inject := state.inject ++ [(pair.1, account)]
        followups := state.followups ++ (followup accounts fork (pair.1 :: state.seen) account).toList }

def resolveCandidates (accounts : Accounts) (fork : Fork) (pairs : List (Address × Option Account)) : Resolution :=
  pairs.foldl (resolveCandidate accounts fork) ⟨fork.seen, [], []⟩

def present (pair : Address × Option Account) : Option (Address × Account) := pair.2.map fun account => (pair.1, account)

-- A stable sort by the flag: programs come last.
def programsLast (inject : List (Address × Account)) : List (Address × Account) :=
  (inject.filter fun entry => !entry.2.executable) ++ inject.filter fun entry => entry.2.executable

-- Everything before the first write: what is now remembered, and what to write.
-- A request for no keys changes nothing, so the early exits need no case.
def prepare (accounts : Accounts) (fork : Fork) (keys : List Address) :
    Fork × Except HarnessError (List (Address × Account)) :=
  let selection := select accounts fork keys
  match ({ fork with seen := selection.seen } : Fork).fetch selection.candidates with
  | (fork, .error error) => (fork, .error error)
  | (fork, .ok fetched) =>
    let resolution := resolveCandidates accounts fork (selection.candidates.zip fetched)
    match ({ fork with seen := resolution.seen } : Fork).fetch resolution.followups with
    | (fork, .error error) => (fork, .error error)
    | (fork, .ok programdata) =>
      let pairs := resolution.followups.zip programdata
      ({ fork with seen := (pairs.map Prod.fst).reverse ++ fork.seen },
        .ok (programsLast (resolution.inject ++ pairs.filterMap present)))

structure Writes where
  accounts : Accounts
  injected : List (Address × Account)
  error : Option Text

def setAll (engine : Engine) : Accounts → List (Address × Account) → Writes
  | accounts, [] => ⟨accounts, [], none⟩
  | accounts, (address, account) :: rest =>
    match engine.rejects accounts address account with
    | some error => ⟨accounts, [], some error⟩
    | none =>
      let writes := setAll engine (storeAccount accounts address account) rest
      { writes with injected := (address, account) :: writes.injected }

structure Outcome where
  svm : Svm
  injected : List (Address × Account)
  error : Option HarnessError

def ensurePresent (engine : Engine) (svm : Svm) (keys : List Address) : Outcome :=
  match svm.fork with
  | none => ⟨svm, [], none⟩
  | some fork =>
    match prepare svm.accounts fork keys with
    | (fork, .error error) => ⟨{ svm with fork := some fork }, [], some error⟩
    | (fork, .ok inject) =>
      let writes := setAll engine svm.accounts inject
      ⟨{ svm with accounts := writes.accounts, fork := some fork }, writes.injected,
        writes.error.map HarnessError.rejected⟩

def Outcome.andThen (first : Outcome) (next : Svm → Outcome) : Outcome :=
  match first.error with
  | some _ => first
  | none => { next first.svm with injected := first.injected ++ (next first.svm).injected }

def fail (svm : Svm) (error : HarnessError) : Outcome := ⟨svm, [], some error⟩

def loadedAddresses (engine : Engine) (accounts : Accounts) : List TableLookup → Except Text (List Address)
  | [] => .ok []
  | lookup :: rest =>
    match accounts lookup.accountKey with
    | none => loadedAddresses engine accounts rest
    | some account =>
      match engine.readTableAddresses account.data with
      | .error text => .error text
      | .ok addresses =>
        (loadedAddresses engine accounts rest).map fun more =>
          ((lookup.writableIndexes ++ lookup.readonlyIndexes).filterMap fun index => addresses[index.toNat]?) ++ more

def hydrateForMessage (engine : Engine) (svm : Svm) (message : Message) : Outcome :=
  match svm.fork with
  | none => ⟨svm, [], none⟩
  | some _ =>
    let tables := message.addressTableLookups.map TableLookup.accountKey
    (ensurePresent engine svm (message.staticAccountKeys ++ tables)).andThen fun svm =>
      match loadedAddresses engine svm.accounts message.addressTableLookups with
      | .error text => fail svm (.lookupTable text)
      | .ok addresses => ensurePresent engine svm addresses

end WakeSol.Forking
