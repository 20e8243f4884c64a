import WakeSol.Forking.Run

/- Whether local state wins over the chain. A resident account is never written
   over; an account that was dropped again is protected by the fork's memory, and
   only by it. -/
set_option autoImplicit false

namespace WakeSol.Forking

open TextLib RadixLib CacheLib Trace

def Op.target : Op → Option Address
  | .setAccount address _ => some address
  | .addProgram address _ => some address
  | .setLamports address _ => some address
  | .airdrop address _ => some address
  | _ => none

def heldAfter (engine : Engine) (svm : Svm) (held : List Address) (op : Op) : List Address :=
  match op with
  | .reset => []
  | op =>
    match op.target with
    | none => held
    | some address =>
      if (step engine svm op).error.isNone ∧ ((step engine svm op).svm.accounts address).isSome then address :: held else held

def LocalWins (engine : Engine) : Svm → List Address → List Op → Prop
  | _, _, [] => True
  | svm, held, op :: rest =>
    (∀ address ∈ held, address ∉ (step engine svm op).injected.map Prod.fst) ∧
      LocalWins engine (step engine svm op).svm (heldAfter engine svm held op) rest

def Svm.shields (svm : Svm) (address : Address) : Prop :=
  svm.accounts address ≠ none ∨ ∀ fork ∈ svm.fork, address ∈ fork.seen ∨ address ∈ fork.excludeAddrs

instance (svm : Svm) (address : Address) : Decidable (svm.shields address) :=
  inferInstanceAs (Decidable (svm.accounts address ≠ none ∨ ∀ fork ∈ svm.fork, address ∈ fork.seen ∨ address ∈ fork.excludeAddrs))

def Shielded (engine : Engine) : Svm → List Address → List Op → Prop
  | _, _, [] => True
  | svm, held, op :: rest =>
    (∀ address ∈ held, svm.shields address) ∧ Shielded engine (step engine svm op).svm (heldAfter engine svm held op) rest

instance decideWins (engine : Engine) : (svm : Svm) → (held : List Address) → (ops : List Op) →
    Decidable (LocalWins engine svm held ops)
  | _, _, [] => .isTrue trivial
  | svm, held, op :: rest =>
    have := decideWins engine (step engine svm op).svm (heldAfter engine svm held op) rest
    inferInstanceAs (Decidable ((∀ address ∈ held, address ∉ (step engine svm op).injected.map Prod.fst) ∧
      LocalWins engine (step engine svm op).svm (heldAfter engine svm held op) rest))

instance decideShielded (engine : Engine) : (svm : Svm) → (held : List Address) → (ops : List Op) →
    Decidable (Shielded engine svm held ops)
  | _, _, [] => .isTrue trivial
  | svm, held, op :: rest =>
    have := decideShielded engine (step engine svm op).svm (heldAfter engine svm held op) rest
    inferInstanceAs (Decidable ((∀ address ∈ held, svm.shields address) ∧
      Shielded engine (step engine svm op).svm (heldAfter engine svm held op) rest))

theorem step_spares_shielded (engine : Engine) (svm : Svm) (op : Op) (address : Address) (shielded : svm.shields address) :
    address ∉ (step engine svm op).injected.map Prod.fst := by
  rcases shielded with resident | remembered
  · exact step_spares_resident engine svm op address resident
  · by_cases running : op = .reset
    · subst running
      simp [step, done]
    · have guarded := step_guarded engine svm op running
      rw [Guarded] at guarded
      cases enabled : svm.fork with
      | none =>
        simp only [enabled] at guarded
        simp [guarded.2]
      | some fork =>
        simp only [enabled] at guarded
        obtain ⟨after, _, _, spared⟩ := guarded
        intro hit
        obtain ⟨entry, isEntry, rfl⟩ := List.mem_map.mp hit
        obtain ⟨unseen, notExcluded, _⟩ := spared entry isEntry
        rcases remembered fork enabled with seen | excluded
        · exact unseen seen
        · exact notExcluded excluded

theorem shielded_wins (engine : Engine) (svm : Svm) (held : List Address) (ops : List Op)
    (shielded : Shielded engine svm held ops) : LocalWins engine svm held ops := by
  induction ops generalizing svm held with
  | nil => trivial
  | cons op rest ih =>
    refine ⟨fun address inside => ?_, ih _ _ shielded.2⟩
    exact step_spares_shielded engine svm op address (shielded.1 address inside)

section SingleTouch

variable (engine : Engine) (svm : Svm) (fork : Fork) (address : Address) (account : Account)
variable (wanted : fork.wants svm.accounts address) (dataAccount : account.executable = false)
variable (allowed : account.owner ∉ fork.excludePrograms)

include wanted in
theorem select_single : select svm.accounts fork [address] = ⟨fork.seen, [address]⟩ := by
  have resident : ¬ (svm.accounts address).isSome = true := by simp [wanted.2.2]
  rw [select, List.foldl_cons, List.foldl_nil, selectKey, if_neg wanted.1, if_neg wanted.2.1, if_neg resident]
  rfl

include dataAccount allowed in
theorem resolve_single (middle : Fork) (same : middle.excludePrograms = fork.excludePrograms) :
    resolveCandidates svm.accounts middle [(address, some account)] =
      ⟨address :: middle.seen, [(address, account)], []⟩ := by
  have notProgram : ¬ (account.executable = true ∧ account.owner = loaderV3) := by simp [dataAccount]
  rw [resolveCandidates, List.foldl_cons, List.foldl_nil, resolveCandidate]
  simp only [same, if_neg allowed, followup, if_neg notProgram]
  rfl

end SingleTouch

theorem fetch_nothing (fork : Fork) : fork.fetch [] = (fork, .ok []) := rfl

theorem chunks_single (address : Address) : chunks [address] = [[address]] := by
  rw [chunks, List.take_of_length_le (by simp), List.drop_of_length_le (by simp), chunks]

theorem fetch_single (fork : Fork) (rpc : Rpc) (online : fork.rpc = some rpc) (address : Address) (account : Account)
    (unknown : fork.store.get address = none)
    (answer : rpc.getMultipleAccounts fork.calls [address] fork.minContextSlot = .ok [some account]) :
    fork.fetch [address] =
      ({ fork with store := fork.store.putAll [(address, some account)], calls := fork.calls + 1 }, .ok [some account]) := by
  have missing : misses fork.store.get [address] = [address] := by simp [misses, unknown]
  rw [Fork.fetch, missing]
  simp only [online, chunks_single, requestAll, answer, List.map_cons, unknown, List.map_nil]
  rfl

theorem touch_writes (engine : Engine) (svm : Svm) (fork : Fork) (enabled : svm.fork = some fork) (rpc : Rpc)
    (online : fork.rpc = some rpc) (address : Address) (account : Account) (wanted : fork.wants svm.accounts address)
    (unknown : fork.store.get address = none)
    (answer : rpc.getMultipleAccounts fork.calls [address] fork.minContextSlot = .ok [some account])
    (dataAccount : account.executable = false) (allowed : account.owner ∉ fork.excludePrograms)
    (accepted : engine.rejects svm.accounts address account = none) :
    (ensurePresent engine svm [address]).injected = [(address, account)] := by
  have selected := select_single svm fork address wanted
  have planned : (prepare svm.accounts fork [address]).2 = .ok [(address, account)] := by
    rw [prepare]
    simp only [selected, fetch_single fork rpc online address account unknown answer, List.zip_cons_cons, List.zip_nil_right,
      resolve_single svm fork address account dataAccount allowed
        { fork with store := fork.store.putAll [(address, some account)], calls := fork.calls + 1 } rfl, fetch_nothing]
    simp [programsLast, dataAccount]
  rw [ensurePresent, enabled]
  cases result : prepare svm.accounts fork [address] with
  | mk after stage =>
    rw [result] at planned
    have isStage : stage = .ok [(address, account)] := planned
    subst isStage
    simp only [result, setAll, accepted]

def Fork.facing (fork : Fork) (rpc : Rpc) : Fork := { fork with rpc := some rpc, store := ⟨fun _ => none⟩ }

def uniform (account : Account) : Rpc where
  getMultipleAccounts := fun _ keys _ => .ok (keys.map fun _ => some account)
  getSlot := .ok 0
  getBlockTime := fun _ => none
  getLatestBlockhash := none

theorem unshielded_written (engine : Engine) (svm : Svm) (fork : Fork) (enabled : svm.fork = some fork) (address : Address)
    (open_ : ¬ svm.shields address) (notProgram : address ∉ fork.excludePrograms) (account : Account)
    (dataAccount : account.executable = false) (allowed : account.owner ∉ fork.excludePrograms)
    (accepted : engine.rejects svm.accounts address account = none) :
    (step engine { svm with fork := some (fork.facing (uniform account)) } (.touch [address])).injected = [(address, account)] := by
  rw [Svm.shields, not_or, not_not] at open_
  have forgotten : address ∉ fork.seen ∧ address ∉ fork.excludeAddrs := by
    constructor
    · exact fun seen => open_.2 fun other same => .inl (by rw [Option.mem_def, enabled] at same; cases same; exact seen)
    · exact fun out => open_.2 fun other same => .inr (by rw [Option.mem_def, enabled] at same; cases same; exact out)
  have wanted : (fork.facing (uniform account)).wants svm.accounts address := by
    refine ⟨forgotten.1, ?_, open_.1⟩
    rintro (program | out)
    · exact notProgram program
    · exact forgotten.2 out
  exact touch_writes engine { svm with fork := some (fork.facing (uniform account)) } (fork.facing (uniform account)) rfl
    (uniform account) rfl address account wanted rfl rfl dataAccount allowed accepted

theorem local_wins (engine : Engine) (svm : Svm) (held : List Address) (ops : List Op) :
    (Shielded engine svm held ops → LocalWins engine svm held ops) ∧
    (∀ fork address account, svm.fork = some fork → ¬ svm.shields address → address ∉ fork.excludePrograms →
      account.executable = false → account.owner ∉ fork.excludePrograms → engine.rejects svm.accounts address account = none →
      address ∈ held →
        ¬ LocalWins engine { svm with fork := some (fork.facing (uniform account)) } held [.touch [address]]) := by
  refine ⟨shielded_wins engine svm held ops, ?_⟩
  intro fork address account enabled unshielded notProgram dataAccount allowed accepted inside wins
  have written := unshielded_written engine svm fork enabled address unshielded notProgram account dataAccount allowed accepted
  have spared := wins.1 address inside
  rw [written] at spared
  simp at spared

def plainEngine : Engine where
  rejects := fun _ _ _ => none
  readTableAddresses := fun _ => .ok []
  deploy := fun elf => .ok ⟨1, elf, Address.zero, true, 0⟩
  newRentEpoch := 0
  programdataAddressOf := fun _ => Address.zero
  genesis := fun _ => none
  genesisClock := ⟨0, 0⟩
  genesisBlockhash := []

def wallet (lamports : UInt64) : Account := ⟨lamports, [], Address.zero, false, 0⟩

def emptyDirectory : SnapshotStore := ⟨fun _ => none⟩

def freshFork (rpc : Option Rpc) (store : SnapshotStore) : Fork := ⟨rpc, store, [], [], [], 0, 0⟩

def forkedSvm (fork : Fork) : Svm := ⟨fun _ => none, ⟨0, 0⟩, [], some fork⟩

-- The address is read before it is written, so the fork remembers that the chain
-- has nothing there; it may then be emptied and read again.
def readFirst : List Op :=
  [.touch [.fill 1], .setAccount (.fill 1) (wallet 5), .setLamports (.fill 1) 0, .touch [.fill 1]]

def absentEverywhere : Svm := forkedSvm (freshFork none ⟨fun _ => some (storedJson none)⟩)

theorem read_first_wins : Shielded plainEngine absentEverywhere [] readFirst ∧
    LocalWins plainEngine absentEverywhere [] readFirst := by
  have shielded : Shielded plainEngine absentEverywhere [] readFirst := by decide
  exact ⟨shielded, (local_wins plainEngine absentEverywhere [] readFirst).1 shielded⟩

def writtenAndEmptied : List Op := [.setAccount (.fill 1) (wallet 5), .setLamports (.fill 1) 0, .touch [.fill 1]]

def chainWallet : Svm := forkedSvm (freshFork (some (uniform (wallet 9))) emptyDirectory)

theorem emptied_account_returns :
    injections plainEngine chainWallet writtenAndEmptied = [[], [], [(.fill 1, wallet 9)]] ∧
    ¬ LocalWins plainEngine chainWallet [] writtenAndEmptied := by
  have returns : injections plainEngine chainWallet writtenAndEmptied = [[], [], [(.fill 1, wallet 9)]] := by decide +kernel
  refine ⟨returns, fun wins => ?_⟩
  have written : (step plainEngine (step plainEngine (step plainEngine chainWallet (.setAccount (.fill 1) (wallet 5))).svm
      (.setLamports (.fill 1) 0)).svm (.touch [.fill 1])).injected = [(.fill 1, wallet 9)] :=
    (List.cons.inj (List.cons.inj (List.cons.inj returns).2).2).1
  have spared := wins.2.2.1 (.fill 1) (by decide)
  rw [written] at spared
  simp at spared

theorem remembered_unwritten (engine : Engine) (svm : Svm) (fork : Fork) (enabled : svm.fork = some fork) (address : Address)
    (remembered : address ∈ fork.seen) (ops : List Op) (running : .reset ∉ ops) :
    ∀ written ∈ injections engine svm ops, address ∉ written.map Prod.fst := by
  induction ops generalizing svm fork with
  | nil => simp [injections]
  | cons op rest ih =>
    rw [List.mem_cons, not_or] at running
    have guarded := step_guarded engine svm op (Ne.symm running.1)
    rw [Guarded, enabled] at guarded
    obtain ⟨after, isAfter, continues, unseen⟩ := guarded
    rw [injections, List.forall_mem_cons]
    refine ⟨fun written => ?_, ih _ after isAfter (continues.seen address remembered) running.2⟩
    obtain ⟨entry, listed, rfl⟩ := List.mem_map.mp written
    exact (unseen entry listed).1 remembered

-- Between two resets at most one call of the harness takes an address from the chain,
-- whatever transactions and writes come in between.
theorem hydrated_once (engine : Engine) (svm : Svm) (ops : List Op) (running : .reset ∉ ops) :
    (injections engine svm ops).Pairwise fun earlier later => ∀ entry ∈ earlier, entry.1 ∉ later.map Prod.fst := by
  induction ops generalizing svm with
  | nil => exact .nil
  | cons op rest ih =>
    rw [List.mem_cons, not_or] at running
    refine .cons (fun later isLater entry listed => ?_) (ih _ running.2)
    have guarded := step_guarded engine svm op (Ne.symm running.1)
    rw [Guarded] at guarded
    cases enabled : svm.fork with
    | none =>
      rw [enabled] at guarded
      rw [guarded.2] at listed
      cases listed
    | some fork =>
      rw [enabled] at guarded
      obtain ⟨after, isAfter, _, fresh⟩ := guarded
      exact remembered_unwritten engine _ after isAfter entry.1 (fresh entry listed).2.2 rest running.2 later isLater

theorem wallet_hydrated_once : let ops : List Op := [.touch [.fill 1], .setLamports (.fill 1) 0, .touch [.fill 1, .fill 2]]
    injections plainEngine chainWallet ops = [[(.fill 1, wallet 9)], [], [(.fill 2, wallet 9)]] ∧
    (injections plainEngine chainWallet ops).Pairwise fun earlier later => ∀ entry ∈ earlier, entry.1 ∉ later.map Prod.fst :=
  ⟨by decide +kernel, hydrated_once plainEngine chainWallet _ (by simp)⟩

end WakeSol.Forking
