import WakeSol.Address
import WakeSol.Lib.Cache

/- Where forked accounts come from: one snapshot file per address on disk, and
   behind it the chain's node. What the node answers is kept in the files. -/
set_option autoImplicit false

namespace WakeSol.Forking

open TextLib RadixLib CacheLib

-- FetchedAccount and the runtime's own account have the same fields.
structure Account where
  lamports : UInt64
  data : Bytes
  owner : Address
  executable : Bool
  rentEpoch : UInt64
deriving DecidableEq

-- A number is a natural one, or one that as_u64 refuses.
inductive Json where
  | null
  | bool (b : Bool)
  | num (n : Nat)
  | otherNum
  | str (text : Text)
  | arr (items : List Json)
  | obj (entries : List (Text × Json))

def Json.get (key : Text) : Json → Option Json
  | .obj entries => entries.lookup key
  | _ => none

def Json.asBool : Json → Option Bool
  | .bool b => some b
  | _ => none

def Json.asU64 : Json → Option UInt64
  | .num n => if n < 2 ^ 64 then some (UInt64.ofNat n) else none
  | _ => none

def Json.asStr : Json → Option Text
  | .str text => some text
  | _ => none

def absentKey : Text := ['a', 'b', 's', 'e', 'n', 't']
def lamportsKey : Text := ['l', 'a', 'm', 'p', 'o', 'r', 't', 's']
def ownerKey : Text := ['o', 'w', 'n', 'e', 'r']
def executableKey : Text := ['e', 'x', 'e', 'c', 'u', 't', 'a', 'b', 'l', 'e']
def rentEpochKey : Text := ['r', 'e', 'n', 't', '_', 'e', 'p', 'o', 'c', 'h']
def accountDataKey : Text := ['d', 'a', 't', 'a']

-- The only caller drops the text of the error.
def parseStored (v : Json) : Option Account :=
  ((v.get lamportsKey).bind Json.asU64).bind fun lamports =>
    (((v.get ownerKey).bind Json.asStr).bind Address.ofText).bind fun owner =>
      (((v.get accountDataKey).bind Json.asStr).bind decode64).map fun data =>
        { lamports := lamports
          data := data
          owner := owner
          executable := ((v.get executableKey).bind Json.asBool).getD false
          rentEpoch := ((v.get rentEpochKey).bind Json.asU64).getD 0 }

def storedJson : Option Account → Json
  | none => .obj [(absentKey, .bool true)]
  | some account =>
    .obj [(lamportsKey, .num account.lamports.toNat), (ownerKey, .str account.owner.text),
      (executableKey, .bool account.executable), (rentEpochKey, .num account.rentEpoch.toNat),
      (accountDataKey, .str (encode64 account.data))]

def readStored (v : Json) : Option (Option Account) :=
  if (v.get absentKey).bind Json.asBool = some true then some none else (parseStored v).map some

-- The directory, by file name. A file that cannot be read, or is not JSON, is as
-- good as none.
structure SnapshotStore where
  files : Text → Option Json

def snapshotPath (address : Address) : Text := address.text ++ ['.', 'j', 's', 'o', 'n']

def SnapshotStore.get (store : SnapshotStore) (address : Address) : Option (Option Account) :=
  (store.files (snapshotPath address)).bind readStored

def SnapshotStore.put (store : SnapshotStore) (address : Address) (account : Option Account) : SnapshotStore :=
  ⟨fun path => if path = snapshotPath address then some (storedJson account) else store.files path⟩

theorem as_u64_to_nat (n : UInt64) : (Json.num n.toNat).asU64 = some n := by
  simp only [Json.asU64, if_pos n.toNat_lt, UInt64.ofNat_toNat]

theorem read_stored_json (account : Option Account) : readStored (storedJson account) = some account := by
  cases account with
  | none => rfl
  | some account =>
    have notAbsent : (storedJson (some account)).get absentKey = none := rfl
    have lamports : (storedJson (some account)).get lamportsKey = some (.num account.lamports.toNat) := rfl
    have owner : (storedJson (some account)).get ownerKey = some (.str account.owner.text) := rfl
    have executable : (storedJson (some account)).get executableKey = some (.bool account.executable) := rfl
    have rentEpoch : (storedJson (some account)).get rentEpochKey = some (.num account.rentEpoch.toNat) := rfl
    have data : (storedJson (some account)).get accountDataKey = some (.str (encode64 account.data)) := rfl
    simp only [readStored, parseStored, notAbsent, lamports, owner, executable, rentEpoch, data, Option.bind_some,
      Option.bind_none, reduceCtorEq, if_false, as_u64_to_nat, Json.asStr, Json.asBool, address_of_text, decode_encode64,
      Option.map_some, Option.getD_some]

theorem snapshot_path_injective (left right : Address) (same : snapshotPath left = snapshotPath right) : left = right :=
  address_text_injective left right (List.append_cancel_right same)

theorem get_put (store : SnapshotStore) (address : Address) (account : Option Account) :
    (store.put address account).get = CacheLib.put store.get address account := by
  funext other
  rw [SnapshotStore.get, SnapshotStore.put, CacheLib.put]
  by_cases same : other = address
  · subst same
    simp only [if_true, Option.bind_some, read_stored_json]
  · have elsewhere : snapshotPath other ≠ snapshotPath address := fun equal => same (snapshot_path_injective other address equal)
    simp only [if_neg elsewhere, if_neg same]
    rfl

def SnapshotStore.putAll (store : SnapshotStore) (pairs : List (Address × Option Account)) : SnapshotStore :=
  pairs.foldl (fun store pair => store.put pair.1 pair.2) store

theorem get_put_all (store : SnapshotStore) (pairs : List (Address × Option Account)) :
    (store.putAll pairs).get = CacheLib.putAll store.get pairs := by
  induction pairs generalizing store with
  | nil => rfl
  | cons pair rest ih =>
    have later := ih (store.put pair.1 pair.2)
    rw [get_put] at later
    exact later

-- The node as the harness meets it. The chain moves on between requests, so each
-- request has its own answer.
structure Rpc where
  getMultipleAccounts : Nat → List Address → UInt64 → Except Text (List (Option Account))
  getSlot : Except Text UInt64
  getBlockTime : UInt64 → Option Int
  getLatestBlockhash : Option Text

inductive HarnessError where
  | offlineMiss (count : Nat) (first : Address)
  | rpc (text : Text)
  | rejected (text : Text)
  | lookupTable (text : Text)
  | notExecutable (id : Address)
  | forkDisabled
  | transactionFailed
  | urlRequired

def HarnessError.text : HarnessError → Text
  | .offlineMiss count first =>
    "offline fork: ".toList ++ decimal count ++ " account(s) not in snapshot cache (first: ".toList ++ first.text ++
      "); run online (svm.fork(url=...)) or pre-populate with svm.fork_programs(...)".toList
  | .rpc text => text
  | .rejected text => text
  | .lookupTable text => "invalid address lookup table: ".toList ++ text
  | .notExecutable id =>
    "fork_programs: ".toList ++ id.text ++
      " is not an executable program on chain (absent, or a non-program account) — check the id".toList
  | .forkDisabled =>
    "fork_programs requires forking to be enabled; call svm.fork(url=...) or svm.fork(offline=True) first".toList
  | .transactionFailed => "TransactionFailed".toList
  | .urlRequired => "fork(url=...) is required unless offline=True".toList

-- The sets are lists read by membership. The number of requests made so far
-- picks the node's answers.
structure Fork where
  rpc : Option Rpc
  store : SnapshotStore
  excludePrograms : List Address
  excludeAddrs : List Address
  seen : List Address
  minContextSlot : UInt64
  calls : Nat

def chunks {α : Type} : List α → List (List α)
  | [] => []
  | item :: rest => (item :: rest).take 100 :: chunks ((item :: rest).drop 100)
termination_by items => items.length
decreasing_by
  rw [List.length_drop, List.length_cons]
  omega

def requestAll (rpc : Rpc) (minContextSlot : UInt64) : Nat → List (List Address) → Nat × Except Text (List (Option Account))
  | calls, [] => (calls, .ok [])
  | calls, chunk :: rest =>
    match rpc.getMultipleAccounts calls chunk minContextSlot with
    | .error text => (calls + 1, .error text)
    | .ok answers =>
      match requestAll rpc minContextSlot (calls + 1) rest with
      | (after, .error text) => (after, .error text)
      | (after, .ok more) => (after, .ok (answers ++ more))

def Fork.fetch (fork : Fork) (keys : List Address) : Fork × Except HarnessError (List (Option Account)) :=
  match misses fork.store.get keys with
  | [] => (fork, .ok (fill none (keys.map fork.store.get) []))
  | first :: rest =>
    match fork.rpc with
    | none => (fork, .error (.offlineMiss (rest.length + 1) first))
    | some rpc =>
      match requestAll rpc fork.minContextSlot fork.calls (chunks (first :: rest)) with
      | (calls, .error text) => ({ fork with calls := calls }, .error (.rpc text))
      | (calls, .ok fetched) =>
        ({ fork with store := fork.store.putAll ((first :: rest).zip fetched), calls := calls },
          .ok (fill none (keys.map fork.store.get) fetched))

inductive Fork.Asked (fork : Fork) (keys : List Address) : Nat → List (Option Account) → Prop where
  | cached (known : misses fork.store.get keys = []) : fork.Asked keys fork.calls []
  | asked (rpc : Rpc) (online : fork.rpc = some rpc) (calls : Nat) (fetched : List (Option Account))
      (answered : requestAll rpc fork.minContextSlot fork.calls (chunks (misses fork.store.get keys)) = (calls, .ok fetched)) :
      fork.Asked keys calls fetched

theorem fetch_ok (fork : Fork) (keys : List Address) (after : Fork) (out : List (Option Account))
    (fetched : fork.fetch keys = (after, .ok out)) :
    ∃ calls answers, fork.Asked keys calls answers ∧
      after = { fork with store := fork.store.putAll ((misses fork.store.get keys).zip answers), calls := calls } ∧
      out = fill none (keys.map fork.store.get) answers := by
  unfold Fork.fetch at fetched
  split at fetched
  · rename_i known
    obtain ⟨rfl, same⟩ := Prod.mk.inj fetched
    refine ⟨fork.calls, [], .cached known, ?_, (Except.ok.inj same).symm⟩
    rw [known]
    rfl
  · rename_i first rest missing
    split at fetched
    · cases (Prod.mk.inj fetched).2
    · rename_i rpc online
      split at fetched
      · cases (Prod.mk.inj fetched).2
      · rename_i calls answers answered
        obtain ⟨rfl, same⟩ := Prod.mk.inj fetched
        exact ⟨calls, answers, .asked rpc online calls answers (by rw [missing]; exact answered), by rw [missing],
          (Except.ok.inj same).symm⟩

theorem fetch_error (fork : Fork) (keys : List Address) (after : Fork) (error : HarnessError)
    (failed : fork.fetch keys = (after, .error error)) : ∃ calls, after = { fork with calls := calls } := by
  unfold Fork.fetch at failed
  split at failed
  · cases (Prod.mk.inj failed).2
  · split at failed
    · exact ⟨fork.calls, (Prod.mk.inj failed).1.symm⟩
    · split at failed
      · exact ⟨_, (Prod.mk.inj failed).1.symm⟩
      · cases (Prod.mk.inj failed).2

end WakeSol.Forking
