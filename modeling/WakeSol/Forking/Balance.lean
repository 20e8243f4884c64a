import WakeSol.Forking.Chain

/- Changing a balance under a fork. An assignment touches the address first; the
   runtime's airdrop does not, and takes an address without an account for new. -/
set_option autoImplicit false

namespace WakeSol.Forking

open TextLib RadixLib CacheLib Trace

def Account.SameState (left right : Account) : Prop :=
  left.data = right.data ∧ left.owner = right.owner ∧ left.executable = right.executable

instance (left right : Account) : Decidable (left.SameState right) :=
  inferInstanceAs (Decidable (left.data = right.data ∧ left.owner = right.owner ∧ left.executable = right.executable))

def KeptWith (account : Account) (lamports : UInt64) (now : Option Account) : Prop :=
  ∃ after ∈ now, after.lamports = lamports ∧ after.SameState account

theorem ensure_elsewhere (engine : Engine) (svm : Svm) (keys : List Address) (address : Address)
    (elsewhere : address ∉ (ensurePresent engine svm keys).injected.map Prod.fst) :
    (ensurePresent engine svm keys).svm.accounts address = svm.accounts address := by
  cases enabled : svm.fork with
  | none => rw [ensure_disabled engine svm keys enabled]
  | some fork =>
    have call := ensured engine svm fork keys enabled
    generalize ensurePresent engine svm keys = outcome at call elsewhere ⊢
    cases call with
    | stopped after error prep => rfl
    | wrote after inject prep => exact set_all_elsewhere engine svm.accounts inject address elsewhere

theorem ensure_seen (engine : Engine) (svm : Svm) (fork : Fork) (enabled : svm.fork = some fork) (keys : List Address)
    (address : Address) (seen : address ∈ fork.seen) :
    (ensurePresent engine svm keys).svm.accounts address = svm.accounts address := by
  apply ensure_elsewhere
  intro written
  obtain ⟨entry, inside, rfl⟩ := List.mem_map.mp written
  have guarded := ensure_guarded engine svm keys
  simp only [Guarded, enabled] at guarded
  obtain ⟨after, _, _, spared⟩ := guarded
  exact (spared entry inside).1 seen

theorem set_lamports_ok (engine : Engine) (svm : Svm) (address : Address) (value : UInt64) (nonzero : value ≠ 0)
    (ok : (setLamports engine svm address value).error = none) :
    (ensurePresent engine svm [address]).error = none ∧
    (setLamports engine svm address value).svm.accounts address =
      some { ((ensurePresent engine svm [address]).svm.accounts address).getD defaultAccount with lamports := value } := by
  rw [setLamports, Outcome.andThen] at ok ⊢
  cases hydrated : (ensurePresent engine svm [address]).error with
  | some error => simp [hydrated] at ok
  | none =>
    simp only [hydrated] at ok ⊢
    refine ⟨trivial, ?_⟩
    rw [localWrite] at ok ⊢
    split at ok
    · cases ok
    · simp only [done, storeAccount, if_true, if_neg nonzero]

theorem airdrop_ok (engine : Engine) (svm : Svm) (address : Address) (amount : UInt64) (here : Account)
    (resident : svm.accounts address = some here) (ok : (airdrop engine svm address amount).error = none) :
    here.lamports.toNat + amount.toNat < 2 ^ 64 ∧
    (airdrop engine svm address amount).svm.accounts address =
      if here.lamports + amount = 0 then none else some { here with lamports := here.lamports + amount } := by
  rw [airdrop, resident] at ok ⊢
  by_cases fits : here.lamports.toNat + amount.toNat < 2 ^ 64
  · simp only [if_pos fits, done, storeAccount, if_true]
    exact ⟨fits, trivial⟩
  · simp only [if_neg fits] at ok
    cases ok

theorem airdrop_new (engine : Engine) (svm : Svm) (address : Address) (amount : UInt64)
    (missing : svm.accounts address = none) (after : Account)
    (made : (airdrop engine svm address amount).svm.accounts address = some after) : after.lamports = amount := by
  rw [airdrop, missing] at made
  simp only [done, storeAccount, if_true] at made
  split at made
  · cases made
  · cases made
    rfl

section Balance

variable (engine : Engine) (chain : Accounts) (svm : Svm) (fork : Fork) (enabled : svm.fork = some fork)
variable (honest : fork.Honest (holds chain)) (address : Address) (account : Account)
variable (taken : fork.Takes (holds chain) (address, account)) (living : account.lamports ≠ 0)

def AssignmentSafe : Prop :=
  match svm.accounts address with
  | some here => here.SameState account
  | none => address ∉ fork.seen ∨ defaultAccount.SameState account

def AirdropSafe : Prop := ∃ here ∈ svm.accounts address, here.lamports = account.lamports ∧ here.SameState account

include enabled honest taken living in
theorem hydrated_for_write (ok : (ensurePresent engine svm [address]).error = none) :
    (((ensurePresent engine svm [address]).svm.accounts address).getD defaultAccount).SameState account ↔
      AssignmentSafe svm fork address account := by
  rw [AssignmentSafe]
  cases resident : svm.accounts address with
  | some here =>
    have kept := (ensure_keeps engine svm [address] address (by simp [resident])).2
    rw [kept, resident]
    exact Iff.rfl
  | none =>
    by_cases seen : address ∈ fork.seen
    · rw [ensure_seen engine svm fork enabled [address] address seen, resident]
      exact ⟨.inr, fun safe => safe.resolve_left (not_not_intro seen)⟩
    · have wanted : fork.wants svm.accounts address := ⟨seen, taken.notExcluded, resident⟩
      rw [ensure_reads engine chain svm fork enabled honest [address] address account (by simp) wanted taken living ok]
      exact ⟨fun _ => .inl seen, fun _ => ⟨rfl, rfl, rfl⟩⟩

include enabled honest taken living in
theorem set_lamports_kept_iff (value : UInt64) (nonzero : value ≠ 0)
    (ok : (setLamports engine svm address value).error = none) :
    KeptWith account value ((setLamports engine svm address value).svm.accounts address) ↔
      AssignmentSafe svm fork address account := by
  obtain ⟨hydrated, stored⟩ := set_lamports_ok engine svm address value nonzero ok
  rw [← hydrated_for_write engine chain svm fork enabled honest address account taken living hydrated, stored]
  constructor
  · rintro ⟨after, isAfter, _, same⟩
    cases isAfter
    exact same
  · intro same
    exact ⟨_, rfl, rfl, same⟩

include living in
theorem airdrop_kept_iff (amount : UInt64) (ok : (airdrop engine svm address amount).error = none) :
    KeptWith account (account.lamports + amount) ((airdrop engine svm address amount).svm.accounts address) ↔
      AirdropSafe svm address account := by
  cases resident : svm.accounts address with
  | none =>
    constructor
    · rintro ⟨after, isAfter, balance, _⟩
      have fresh := airdrop_new engine svm address amount resident after isAfter
      rw [fresh] at balance
      exact absurd (UInt64.add_eq_right.mp balance.symm) living
    · rintro ⟨here, isHere, _⟩
      rw [resident] at isHere
      cases isHere
  | some here =>
    obtain ⟨fits, stored⟩ := airdrop_ok engine svm address amount here resident ok
    rw [stored]
    constructor
    · rintro ⟨after, isAfter, balance, same⟩
      split at isAfter
      · cases isAfter
      · cases isAfter
        exact ⟨here, resident, (UInt64.add_left_inj amount).mp balance, same⟩
    · rintro ⟨other, isOther, balance, same⟩
      rw [resident] at isOther
      cases isOther
      have sum : (here.lamports + amount).toNat = here.lamports.toNat + amount.toNat := by
        rw [UInt64.toNat_add, Nat.mod_eq_of_lt fits]
      have positive : here.lamports.toNat ≠ 0 := by
        intro zero
        apply living
        rw [← balance]
        exact UInt64.toNat_inj.mp zero
      have nonzero : here.lamports + amount ≠ 0 := by
        intro zero
        rw [zero] at sum
        have : (0 : UInt64).toNat = 0 := rfl
        omega
      rw [if_neg nonzero]
      exact ⟨_, rfl, by rw [balance], same⟩

end Balance

theorem balance_kept_iff (engine : Engine) (chain : Accounts) (svm : Svm) (fork : Fork) (enabled : svm.fork = some fork)
    (honest : fork.Honest (holds chain)) (address : Address) (account : Account)
    (taken : fork.Takes (holds chain) (address, account)) (living : account.lamports ≠ 0) :
    (∀ value, value ≠ 0 → (setLamports engine svm address value).error = none →
      (KeptWith account value ((setLamports engine svm address value).svm.accounts address) ↔
        AssignmentSafe svm fork address account)) ∧
    (∀ amount, (airdrop engine svm address amount).error = none →
      (KeptWith account (account.lamports + amount) ((airdrop engine svm address amount).svm.accounts address) ↔
        AirdropSafe svm address account)) :=
  ⟨fun value => set_lamports_kept_iff engine chain svm fork enabled honest address account taken living value,
    fun amount => airdrop_kept_iff engine svm address account living amount⟩

def vault (lamports : UInt64) : Account := ⟨lamports, [7], .fill 8, false, 0⟩

def vaultChain : Accounts := fun address => if address = .fill 1 then some (vault 9) else none

def vaultFork : Fork := freshFork (some (nodeOf vaultChain)) emptyDirectory

theorem vault_taken : vaultFork.Takes (holds vaultChain) (.fill 1, vault 9) := by
  refine ⟨rfl, ?_, ?_⟩
  · simp [Fork.excludes, vaultFork, freshFork]
  · simp [vaultFork, freshFork]

def residentVault : Svm := { forkedSvm vaultFork with accounts := vaultChain }

theorem balance_kept_vault :
    KeptWith (vault 9) 4 ((setLamports plainEngine (forkedSvm vaultFork) (.fill 1) 4).svm.accounts (.fill 1)) ∧
    KeptWith (vault 9) (9 + 5) ((airdrop plainEngine residentVault (.fill 1) 5).svm.accounts (.fill 1)) := by
  have honest := node_honest vaultChain vaultFork rfl rfl
  constructor
  · have kept := (balance_kept_iff plainEngine vaultChain (forkedSvm vaultFork) vaultFork rfl honest (.fill 1) (vault 9)
      vault_taken (by decide)).1 4 (by decide) (by decide +kernel)
    exact kept.mpr (.inl (by decide))
  · have kept := (balance_kept_iff plainEngine vaultChain residentVault vaultFork rfl honest (.fill 1) (vault 9)
      vault_taken (by decide)).2 5 (by decide)
    exact kept.mpr ⟨vault 9, rfl, rfl, rfl, rfl, rfl⟩

theorem airdrop_drops_vault :
    vaultChain (.fill 1) = some (vault 9) ∧
    (airdrop plainEngine (forkedSvm vaultFork) (.fill 1) 5).svm.accounts (.fill 1) = some (wallet 5) ∧
    ¬ KeptWith (vault 9) (9 + 5) ((airdrop plainEngine (forkedSvm vaultFork) (.fill 1) 5).svm.accounts (.fill 1)) := by
  have made : (airdrop plainEngine (forkedSvm vaultFork) (.fill 1) 5).svm.accounts (.fill 1) = some (wallet 5) := by decide
  refine ⟨by decide, made, ?_⟩
  rw [made]
  rintro ⟨after, isAfter, balance, _⟩
  cases isAfter
  exact absurd balance (by decide)

end WakeSol.Forking
