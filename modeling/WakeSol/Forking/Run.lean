import WakeSol.Forking.Stages

/- The calls of the harness that touch, write or drop accounts under a fork, and
   what every one of them respects. -/
set_option autoImplicit false

namespace WakeSol.Forking

open TextLib RadixLib CacheLib Trace

-- A read of an account touches its address, a message built with lookup tables
-- touches the tables. What a transaction does to the accounts comes with it.
inductive Op where
  | touch (keys : List Address)
  | pin (programs : List Address)
  | simulate (message : Message)
  | send (message : Message) (effect : Accounts → Accounts)
  | setAccount (address : Address) (account : Account)
  | addProgram (address : Address) (elf : Bytes)
  | setLamports (address : Address) (value : UInt64)
  | airdrop (address : Address) (amount : UInt64)
  | reset

def done (svm : Svm) : Outcome := ⟨svm, [], none⟩

def localWrite (engine : Engine) (svm : Svm) (address : Address) (account : Account) : Outcome :=
  match engine.rejects svm.accounts address account with
  | some text => fail svm (.rejected text)
  | none => done { svm with accounts := storeAccount svm.accounts address account }

def unpinned (accounts : Accounts) (programs : List Address) : Option Address :=
  programs.find? fun id => !((accounts id).map Account.executable).getD false

def forkPrograms (engine : Engine) (svm : Svm) (programs : List Address) : Outcome :=
  match svm.fork with
  | none => fail svm .forkDisabled
  | some _ =>
    (ensurePresent engine svm programs).andThen fun svm =>
      match unpinned svm.accounts programs with
      | some id => fail svm (.notExecutable id)
      | none => done svm

def defaultAccount : Account := ⟨0, [], Address.zero, false, 0⟩

def setLamports (engine : Engine) (svm : Svm) (address : Address) (value : UInt64) : Outcome :=
  (ensurePresent engine svm [address]).andThen fun svm =>
    localWrite engine svm address { (svm.accounts address).getD defaultAccount with lamports := value }

-- The runtime's own airdrop is a transfer: it credits the stored account, or a
-- new System account, and the harness does not hydrate first.
def airdrop (engine : Engine) (svm : Svm) (address : Address) (amount : UInt64) : Outcome :=
  match svm.accounts address with
  | some account =>
    if account.lamports.toNat + amount.toNat < 2 ^ 64 then
      done { svm with accounts := storeAccount svm.accounts address { account with lamports := account.lamports + amount } }
    else fail svm .transactionFailed
  | none =>
    done { svm with
      accounts := storeAccount svm.accounts address ⟨amount, [], Address.zero, false, engine.newRentEpoch⟩ }

def reset (engine : Engine) (svm : Svm) : Svm :=
  ⟨engine.genesis, engine.genesisClock, engine.genesisBlockhash, svm.fork.map fun fork => fork.remember []⟩

def step (engine : Engine) (svm : Svm) : Op → Outcome
  | .touch keys => ensurePresent engine svm keys
  | .pin programs => forkPrograms engine svm programs
  | .simulate message => hydrateForMessage engine svm message
  | .send message effect =>
    (hydrateForMessage engine svm message).andThen fun svm => done { svm with accounts := effect svm.accounts }
  | .setAccount address account => localWrite engine svm address account
  | .addProgram address elf =>
    match engine.deploy elf with
    | .error text => fail svm (.rejected text)
    | .ok account => localWrite engine svm address account
  | .setLamports address value => setLamports engine svm address value
  | .airdrop address amount => airdrop engine svm address amount
  | .reset => done (reset engine svm)

structure Composes (engine : Engine) (rel : Svm → Outcome → Prop) : Prop where
  quiet : ∀ (svm after : Svm) (error : Option HarnessError), after.fork = svm.fork → rel svm ⟨after, [], error⟩
  andThen : ∀ (svm : Svm) (first : Outcome) (next : Svm → Outcome), rel svm first → (∀ svm, rel svm (next svm)) →
    rel svm (first.andThen next)
  ensure : ∀ (svm : Svm) (keys : List Address), rel svm (ensurePresent engine svm keys)

section Composition

variable (engine : Engine) (rel : Svm → Outcome → Prop) (rule : Composes engine rel)

include rule

variable (svm : Svm)

theorem local_write_composes (address : Address) (account : Account) :
    rel svm (localWrite engine svm address account) := by
  rw [localWrite]
  cases engine.rejects svm.accounts address account with
  | some text => exact rule.quiet svm svm _ rfl
  | none => exact rule.quiet svm _ none rfl

theorem hydrate_composes (message : Message) : rel svm (hydrateForMessage engine svm message) := by
  rw [hydrateForMessage]
  cases svm.fork with
  | none => exact rule.quiet svm svm none rfl
  | some fork =>
    apply rule.andThen
    · exact rule.ensure svm _
    · intro svm
      cases loadedAddresses engine svm.accounts message.addressTableLookups with
      | error text => exact rule.quiet svm svm _ rfl
      | ok addresses => exact rule.ensure svm addresses

theorem step_composes (op : Op) (running : op ≠ .reset) : rel svm (step engine svm op) := by
  cases op with
  | touch keys => exact rule.ensure svm keys
  | pin programs =>
    rw [step, forkPrograms]
    cases svm.fork with
    | none => exact rule.quiet svm svm _ rfl
    | some fork =>
      apply rule.andThen
      · exact rule.ensure svm programs
      · intro svm
        cases unpinned svm.accounts programs with
        | some id => exact rule.quiet svm svm _ rfl
        | none => exact rule.quiet svm svm none rfl
  | simulate message => exact hydrate_composes engine rel rule svm message
  | send message effect =>
    rw [step]
    apply rule.andThen
    · exact hydrate_composes engine rel rule svm message
    · intro svm
      exact rule.quiet svm _ none rfl
  | setAccount address account => exact local_write_composes engine rel rule svm address account
  | addProgram address elf =>
    rw [step]
    cases engine.deploy elf with
    | error text => exact rule.quiet svm svm _ rfl
    | ok account => exact local_write_composes engine rel rule svm address account
  | setLamports address value =>
    rw [step, setLamports]
    apply rule.andThen
    · exact rule.ensure svm [address]
    · intro svm
      exact local_write_composes engine rel rule svm address _
  | airdrop address amount =>
    rw [step, airdrop]
    cases svm.accounts address with
    | none => exact rule.quiet svm _ none rfl
    | some account =>
      by_cases fits : account.lamports.toNat + amount.toNat < 2 ^ 64
      · simp only [if_pos fits]
        exact rule.quiet svm _ none rfl
      · simp only [if_neg fits]
        exact rule.quiet svm svm _ rfl
  | reset => exact absurd rfl running

end Composition

def Guarded (svm : Svm) (outcome : Outcome) : Prop :=
  match svm.fork with
  | none => outcome.svm.fork = none ∧ outcome.injected = []
  | some fork => ∃ after, outcome.svm.fork = some after ∧ fork.Continues after ∧
      ∀ entry ∈ outcome.injected, entry.1 ∉ fork.seen ∧ entry.1 ∉ fork.excludeAddrs ∧ entry.1 ∈ after.seen

theorem guarded_local (svm after : Svm) (error : Option HarnessError) (same : after.fork = svm.fork) :
    Guarded svm ⟨after, [], error⟩ := by
  rw [Guarded]
  cases enabled : svm.fork with
  | none => exact ⟨by rw [same, enabled], rfl⟩
  | some fork => exact ⟨fork, by rw [same, enabled], continues_refl fork, by simp⟩

variable (svm : Svm) (first : Outcome) (next : Svm → Outcome)

theorem guarded_then (before : Guarded svm first)
    (after : ∀ svm, Guarded svm (next svm)) : Guarded svm (first.andThen next) := by
  rw [Outcome.andThen]
  cases first.error with
  | some error => exact before
  | none =>
    have later := after first.svm
    rw [Guarded] at before later ⊢
    cases enabled : svm.fork with
    | none =>
      rw [enabled] at before
      simp only [before.1] at later
      exact ⟨later.1, by simp [before.2, later.2]⟩
    | some fork =>
      rw [enabled] at before
      obtain ⟨middle, isMiddle, continues, guarded⟩ := before
      simp only [isMiddle] at later
      obtain ⟨last, isLast, further, guardedLater⟩ := later
      refine ⟨last, isLast, continues_trans _ _ _ continues further, fun entry inside => ?_⟩
      rcases List.mem_append.mp inside with early | late
      · obtain ⟨unseen, notExcluded, remembered⟩ := guarded entry early
        exact ⟨unseen, notExcluded, further.seen _ remembered⟩
      · obtain ⟨unseen, notExcluded, remembered⟩ := guardedLater entry late
        rw [continues.excludeAddrs] at notExcluded
        exact ⟨fun early => unseen (continues.seen _ early), notExcluded, remembered⟩

variable (engine : Engine)

theorem ensure_guarded (svm : Svm) (keys : List Address) : Guarded svm (ensurePresent engine svm keys) := by
  cases enabled : svm.fork with
  | none =>
    rw [ensure_disabled engine svm keys enabled]
    exact guarded_local svm svm none rfl
  | some fork =>
    have call := ensured engine svm fork keys enabled
    rw [Guarded, enabled]
    generalize ensurePresent engine svm keys = outcome at call ⊢
    cases call with
    | stopped after error prep => exact ⟨after, rfl, prepared_continues _ _ _ _ _ prep, by simp⟩
    | wrote after inject prep =>
      refine ⟨after, rfl, prepared_continues _ _ _ _ _ prep, fun entry inside => ?_⟩
      have planned := (set_all_initial engine svm.accounts inject).subset inside
      obtain ⟨free, remembered⟩ := prepared_free _ _ _ _ _ prep entry planned
      exact ⟨free.unseen, free.notExcluded, remembered⟩

theorem step_guarded (svm : Svm) (op : Op) (running : op ≠ .reset) : Guarded svm (step engine svm op) :=
  step_composes engine Guarded ⟨guarded_local, guarded_then, ensure_guarded engine⟩ svm op running

def Keeps (svm : Svm) (outcome : Outcome) : Prop :=
  ∀ address, svm.accounts address ≠ none →
    address ∉ outcome.injected.map Prod.fst ∧ outcome.svm.accounts address = svm.accounts address

theorem keeps_same (error : Option HarnessError) : Keeps svm ⟨svm, [], error⟩ :=
  fun _ _ => ⟨by simp, rfl⟩

theorem keeps_then (before : Keeps svm first) (after : ∀ svm, Keeps svm (next svm)) : Keeps svm (first.andThen next) := by
  rw [Outcome.andThen]
  cases first.error with
  | some error => exact before
  | none =>
    intro address resident
    obtain ⟨unwritten, same⟩ := before address resident
    obtain ⟨unwrittenLater, sameLater⟩ := after first.svm address (by rwa [same])
    refine ⟨?_, sameLater.trans same⟩
    rw [List.map_append, List.mem_append, not_or]
    exact ⟨unwritten, unwrittenLater⟩

theorem ensure_keeps (svm : Svm) (keys : List Address) : Keeps svm (ensurePresent engine svm keys) := by
  cases enabled : svm.fork with
  | none =>
    rw [ensure_disabled engine svm keys enabled]
    exact keeps_same svm none
  | some fork =>
    have call := ensured engine svm fork keys enabled
    generalize ensurePresent engine svm keys = outcome at call ⊢
    intro address resident
    cases call with
    | stopped after error prep => exact ⟨by simp, rfl⟩
    | wrote after inject prep =>
      have unwritten : address ∉ (setAll engine svm.accounts inject).injected.map Prod.fst := by
        intro written
        obtain ⟨entry, inside, rfl⟩ := List.mem_map.mp written
        have planned := (set_all_initial engine svm.accounts inject).subset inside
        exact resident (prepared_free _ _ _ _ _ prep entry planned).1.missing
      exact ⟨unwritten, set_all_elsewhere engine svm.accounts inject address unwritten⟩

theorem hydrate_keeps (svm : Svm) (message : Message) : Keeps svm (hydrateForMessage engine svm message) := by
  rw [hydrateForMessage]
  cases svm.fork with
  | none => exact keeps_same svm none
  | some fork =>
    apply keeps_then
    · exact ensure_keeps engine svm _
    · intro svm
      cases loadedAddresses engine svm.accounts message.addressTableLookups with
      | error text => exact keeps_same svm _
      | ok addresses => exact ensure_keeps engine svm addresses

theorem written_then (before : Keeps svm first)
    (quiet : ∀ svm, (next svm).injected = []) (address : Address) (resident : svm.accounts address ≠ none) :
    address ∉ (first.andThen next).injected.map Prod.fst := by
  rw [Outcome.andThen]
  cases first.error with
  | some error => exact (before address resident).1
  | none =>
    rw [quiet, List.append_nil]
    exact (before address resident).1

theorem local_write_quiet (svm : Svm) (address : Address) (account : Account) :
    (localWrite engine svm address account).injected = [] := by
  rw [localWrite]
  cases engine.rejects svm.accounts address account <;> rfl

theorem airdrop_quiet (svm : Svm) (address : Address) (amount : UInt64) :
    (airdrop engine svm address amount).injected = [] := by
  rw [airdrop]
  cases svm.accounts address with
  | none => rfl
  | some account =>
    by_cases fits : account.lamports.toNat + amount.toNat < 2 ^ 64
    · simp only [if_pos fits]
      rfl
    · simp only [if_neg fits]
      rfl

theorem step_spares_resident (svm : Svm) (op : Op) (address : Address)
    (resident : svm.accounts address ≠ none) : address ∉ (step engine svm op).injected.map Prod.fst := by
  cases op with
  | touch keys => exact (ensure_keeps engine svm keys address resident).1
  | pin programs =>
    rw [step, forkPrograms]
    cases svm.fork with
    | none => simp [fail]
    | some fork =>
      apply written_then svm _ _ (ensure_keeps engine svm programs) _ address resident
      intro svm
      cases unpinned svm.accounts programs <;> rfl
  | simulate message => exact (hydrate_keeps engine svm message address resident).1
  | send message effect =>
    exact written_then svm _ _ (hydrate_keeps engine svm message) (fun _ => rfl) address resident
  | setAccount target account => simp [step, local_write_quiet]
  | addProgram target elf =>
    rw [step]
    cases engine.deploy elf with
    | error text => simp [fail]
    | ok account => simp [local_write_quiet]
  | setLamports target value =>
    exact written_then svm _ _ (ensure_keeps engine svm [target]) (fun svm => local_write_quiet engine svm target _) address
      resident
  | airdrop target amount => simp [step, airdrop_quiet]
  | reset => simp [step, done]

def run (engine : Engine) (svm : Svm) (ops : List Op) : Svm := ops.foldl (fun svm op => (step engine svm op).svm) svm

def injections (engine : Engine) : Svm → List Op → List (List (Address × Account))
  | _, [] => []
  | svm, op :: rest => (step engine svm op).injected :: injections engine (step engine svm op).svm rest

end WakeSol.Forking
