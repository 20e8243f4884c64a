import WakeSol.Forking.Chain

/- What one call of ensure_present leaves behind when it succeeds: whatever it was
   asked for, and the data of every program it wrote, is resident if the chain has
   it and it is not excluded. -/
set_option autoImplicit false

namespace WakeSol.Forking

open TextLib RadixLib CacheLib Trace

structure Upgradeable (account : Account) (pd : Address) : Prop where
  executable : account.executable = true
  loader : account.owner = loaderV3
  address : programdataAddress account.data = some pd

-- The chain keeps no account without lamports, and what a program of the loader
-- points to is its data, which is no program itself.
structure Ledger where
  accounts : Accounts
  living : ∀ address account, accounts address = some account → account.lamports ≠ 0
  programdata : ∀ address program pd account, accounts address = some program → Upgradeable program pd →
    accounts pd = some account → account.executable = false

def Fork.Due (fork : Fork) (ledger : Ledger) (address : Address) : Prop :=
  ∃ account, fork.Takes (holds ledger.accounts) (address, account)

theorem due_of_settings (fork other : Fork) (ledger : Ledger) (programs : other.excludePrograms = fork.excludePrograms)
    (addrs : other.excludeAddrs = fork.excludeAddrs) (address : Address) (due : fork.Due ledger address) :
    other.Due ledger address := by
  obtain ⟨account, held, notExcluded, allowed⟩ := due
  refine ⟨account, held, ?_, ?_⟩
  · rwa [Fork.excludes, programs, addrs]
  · rwa [programs]

theorem due_continues (fork after : Fork) (ledger : Ledger) (continues : fork.Continues after) (address : Address) :
    after.Due ledger address ↔ fork.Due ledger address := by
  constructor
  · exact due_of_settings after fork ledger continues.excludePrograms.symm continues.excludeAddrs.symm address
  · exact due_of_settings fork after ledger continues.excludePrograms continues.excludeAddrs address

theorem followup_or_known (accounts : Accounts) (fork : Fork) (seen : List Address) (account : Account) (pd : Address)
    (program : Upgradeable account pd) :
    followup accounts fork seen account = some pd ∨ pd ∈ seen ∨ pd ∈ fork.excludeAddrs ∨ accounts pd ≠ none := by
  rw [followup, if_pos ⟨program.executable, program.loader⟩, program.address, Option.bind_some]
  by_cases asked : pd ∉ seen ∧ pd ∉ fork.excludeAddrs ∧ accounts pd = none
  · exact .inl (if_pos asked)
  · rw [not_and_or, not_and_or, not_not, not_not] at asked
    exact .inr asked

def Resolution.Knows (state : Resolution) (pd : Address) : Prop := pd ∈ state.followups ∨ pd ∈ state.seen

theorem resolve_step_knows (accounts : Accounts) (fork : Fork) (state : Resolution) (pair : Address × Option Account)
    (pd : Address) (known : state.Knows pd) : (resolveCandidate accounts fork state pair).Knows pd := by
  obtain ⟨seen, _, followups⟩ := resolve_step accounts fork state pair
  rw [Resolution.Knows, seen, followups]
  rcases known with asked | before
  · exact .inl (List.mem_append_left _ asked)
  · exact .inr (List.mem_cons_of_mem _ before)

theorem resolve_loop_knows (accounts : Accounts) (fork : Fork) (pairs : List (Address × Option Account)) (state : Resolution)
    (pd : Address) (known : state.Knows pd) : (pairs.foldl (resolveCandidate accounts fork) state).Knows pd := by
  induction pairs generalizing state with
  | nil => exact known
  | cons pair rest ih => exact ih _ (resolve_step_knows accounts fork state pair pd known)

-- Induction on the answers: the program's own step asks for its data, the later
-- steps keep what was asked.
theorem resolve_loop_programdata (accounts : Accounts) (fork : Fork) (pairs : List (Address × Option Account))
    (state : Resolution) (entry : Address × Account) (pd : Address) (admitted : entry ∈ pairs.filterMap fork.admits)
    (program : Upgradeable entry.2 pd) :
    (pairs.foldl (resolveCandidate accounts fork) state).Knows pd ∨ pd ∈ fork.excludeAddrs ∨ accounts pd ≠ none := by
  induction pairs generalizing state with
  | nil => cases admitted
  | cons pair rest ih =>
    rw [List.foldl_cons]
    obtain ⟨candidate, inside, admits⟩ := List.mem_filterMap.mp admitted
    rcases List.mem_cons.mp inside with rfl | later
    · obtain ⟨seen, _, followups⟩ := resolve_step accounts fork state candidate
      rw [admits, Option.bind_some] at followups
      rcases followup_or_known accounts fork (candidate.1 :: state.seen) entry.2 pd program with asked | before | rest
      · refine .inl (resolve_loop_knows accounts fork _ _ pd (.inl ?_))
        rw [followups, asked]
        exact List.mem_append_right _ (List.mem_singleton_self pd)
      · refine .inl (resolve_loop_knows accounts fork _ _ pd (.inr ?_))
        rwa [seen]
      · exact .inr rest
    · exact ih _ (List.mem_filterMap.mpr ⟨candidate, later, admits⟩)

theorem prepared_programdata (ledger : Ledger) (accounts : Accounts) (fork : Fork) (keys : List Address) (after : Fork)
    (inject : List (Address × Account)) (honest : fork.Honest (holds ledger.accounts))
    (prep : Prepared accounts fork keys after (.ok inject)) (entry : Address × Account) (inside : entry ∈ inject)
    (pd : Address) (program : Upgradeable entry.2 pd) : pd ∈ after.seen ∨ pd ∈ fork.excludeAddrs ∨ accounts pd ≠ none := by
  have genuine := prepared_genuine ledger.accounts _ _ _ _ _ honest prep entry inside
  cases prep with
  | fetched middle fetched last programdata first resolution resolved second =>
    obtain ⟨half, _⟩ := fetch_honest (holds ledger.accounts) _ _ _ _ (remember_honest _ fork _ honest) first
    have answered := (fetch_honest (holds ledger.accounts) _ _ _ _ (remember_honest _ _ _ half) second).2
    have settings := (fetch_continues _ _ _ _ first).1.excludeAddrs
    rw [programs_last_mem, List.mem_append] at inside
    rcases inside with direct | followed
    · rw [← resolved, resolve_inject] at direct
      have known := resolve_loop_programdata accounts middle _ ⟨middle.seen, [], []⟩ entry pd direct program
      rw [← resolveCandidates, resolved, settings] at known
      rcases known with (asked | before) | rest
      · refine .inl (List.mem_append_left _ (List.mem_reverse.mpr ?_))
        rwa [List.map_fst_zip (Nat.le_of_eq answered.length_eq)]
      · refine .inl (List.mem_append_right _ ?_)
        rwa [(fetch_continues _ _ _ _ second).2]
      · exact .inr rest
    · -- What was fetched as the data of a program is no program.
      obtain ⟨pair, isPair, found⟩ := List.mem_filterMap.mp followed
      obtain rfl := present_some pair entry found
      have isFollowup := (List.of_mem_zip isPair).1
      rw [← resolved] at isFollowup
      obtain ⟨parent, written, points⟩ := resolve_followups accounts middle _ entry.1 isFollowup
      have taken := (admitted_taken (holds ledger.accounts) accounts fork keys middle fetched honest first parent written).1
      have isData := ledger.programdata parent.1 parent.2 entry.1 entry.2 taken.held.symm
        ⟨points.executable, points.loader, points.address⟩ genuine
      rw [program.executable] at isData
      cases isData

theorem prepared_known (truth : Address → Option Account → Prop) (accounts : Accounts) (fork : Fork) (keys : List Address)
    (after : Fork) (inject : List (Address × Account)) (honest : fork.Honest truth)
    (prep : Prepared accounts fork keys after (.ok inject)) (address : Address) (asked : address ∈ keys) :
    address ∈ after.seen ∨ accounts address ≠ none := by
  by_cases wanted : fork.wants accounts address
  · exact .inl (prepared_asked truth _ _ _ _ _ honest prep address asked wanted)
  · rw [Fork.wants, not_and_or, not_and_or, not_not, not_not] at wanted
    rcases wanted with seen | out | resident
    · exact .inl ((prepared_continues _ _ _ _ _ prep).seen address seen)
    · cases prep with
      | fetched middle fetched last programdata first resolution resolved second =>
        have selected : address ∈ middle.seen := by
          rw [(fetch_continues _ _ _ _ first).2]
          exact (select_seen accounts fork keys address).mpr (.inr ⟨asked, out⟩)
        refine .inl (List.mem_append_right _ ?_)
        rw [(fetch_continues _ _ _ _ second).2, ← resolved]
        exact (resolved_continues accounts middle _).seen address selected
    · exact .inr resident

def Covered (ledger : Ledger) (svm : Svm) (address : Address) : Prop :=
  ∀ fork ∈ svm.fork, fork.Due ledger address → svm.accounts address ≠ none

structure Complete (ledger : Ledger) (svm : Svm) : Prop where
  honest : ∀ fork ∈ svm.fork, fork.Honest (holds ledger.accounts)
  resolved : ∀ fork ∈ svm.fork, ∀ address ∈ fork.seen, Covered ledger svm address

theorem covered_off (ledger : Ledger) (svm : Svm) (off : svm.fork = none) (address : Address) : Covered ledger svm address := by
  intro fork isFork
  rw [off] at isFork
  cases isFork

section Completeness

variable (engine : Engine) (ledger : Ledger)

theorem covered_kept (svm : Svm) (outcome : Outcome) (guarded : Guarded svm outcome)
    (kept : ∀ address, svm.accounts address ≠ none → outcome.svm.accounts address ≠ none) (address : Address)
    (covered : Covered ledger svm address) : Covered ledger outcome.svm address := by
  intro after isAfter due
  rw [Guarded] at guarded
  cases enabled : svm.fork with
  | none =>
    simp only [enabled] at guarded
    rw [Option.mem_def, guarded.1] at isAfter
    cases isAfter
  | some fork =>
    simp only [enabled] at guarded
    obtain ⟨last, isLast, continues, _⟩ := guarded
    rw [Option.mem_def, isLast] at isAfter
    cases isAfter
    exact kept address (covered fork enabled ((due_continues fork after ledger continues address).mp due))

theorem keeps_resident (svm : Svm) (outcome : Outcome) (keeps : Keeps svm outcome) (address : Address)
    (resident : svm.accounts address ≠ none) : outcome.svm.accounts address ≠ none := by
  rw [(keeps address resident).2]
  exact resident

structure Ensures (keys : List Address) (outcome : Outcome) : Prop where
  complete : Complete ledger outcome.svm
  asked : ∀ address ∈ keys, Covered ledger outcome.svm address
  known : ∀ address ∈ keys, outcome.svm.accounts address ≠ none ∨ ∀ fork ∈ outcome.svm.fork, address ∈ fork.seen
  programdata : ∀ program ∈ outcome.injected, ∀ pd, Upgradeable program.2 pd → Covered ledger outcome.svm pd

theorem ensure_resolved (svm : Svm) (fork : Fork) (enabled : svm.fork = some fork) (complete : Complete ledger svm)
    (after : Fork) (keys : List Address) (inject : List (Address × Account))
    (prep : Prepared svm.accounts fork keys after (.ok inject)) (ok : (setAll engine svm.accounts inject).error = none)
    (address : Address) (inside : address ∈ after.seen) (due : fork.Due ledger address) : (setAll engine svm.accounts inject).accounts address ≠ none := by
  obtain ⟨account, taken⟩ := due
  have honest := complete.honest fork enabled
  have genuine := prepared_genuine ledger.accounts _ _ _ _ _ honest prep
  have held := taken.held.symm
  by_cases written : address ∈ inject.map Prod.fst
  · rw [← set_all_done engine svm.accounts inject ok] at written
    have living := ledger.living address account held
    rw [written_resident engine ledger.accounts svm.accounts inject genuine address account held living written]
    exact Option.some_ne_none account
  · rcases prepared_settled (holds ledger.accounts) _ _ _ _ _ honest prep address inside with before | settled | planned
    · rw [set_all_elsewhere engine svm.accounts inject address]
      · exact complete.resolved fork enabled address before fork enabled ⟨account, taken⟩
      · rwa [set_all_done engine svm.accounts inject ok]
    · exact absurd settled (taken_unsettled fork ledger.accounts (address, account) taken)
    · exact absurd planned written

theorem ensure_covers (svm : Svm) (fork : Fork) (enabled : svm.fork = some fork) (complete : Complete ledger svm)
    (after : Fork) (keys : List Address) (inject : List (Address × Account))
    (prep : Prepared svm.accounts fork keys after (.ok inject)) (ok : (setAll engine svm.accounts inject).error = none)
    (kept : ∀ address, svm.accounts address ≠ none → (setAll engine svm.accounts inject).accounts address ≠ none)
    (address : Address) (known : address ∈ after.seen ∨ fork.excludes address ∨ svm.accounts address ≠ none) :
    Covered ledger { svm with accounts := (setAll engine svm.accounts inject).accounts, fork := some after } address := by
  rintro _ ⟨⟩ due
  have continues := prepared_continues _ _ _ _ _ prep
  have dueBefore := (due_continues fork after ledger continues address).mp due
  rcases known with seen | out | resident
  · exact ensure_resolved engine ledger svm fork enabled complete after keys inject prep ok address seen dueBefore
  · obtain ⟨account, taken⟩ := dueBefore
    exact absurd out taken.notExcluded
  · exact kept address resident

theorem ensure_ensures (svm : Svm) (keys : List Address) (complete : Complete ledger svm)
    (ok : (ensurePresent engine svm keys).error = none) : Ensures ledger keys (ensurePresent engine svm keys) := by
  have keeps := keeps_resident svm _ (ensure_keeps engine svm keys)
  have honest := ensure_honest (holds ledger.accounts) engine svm keys complete.honest
  cases enabled : svm.fork with
  | none =>
    rw [ensure_disabled engine svm keys enabled]
    have covered := covered_off ledger svm enabled
    have off : ∀ address, ∀ fork ∈ svm.fork, address ∈ fork.seen := by
      intro address fork isFork
      rw [enabled] at isFork
      cases isFork
    exact ⟨complete, fun address _ => covered address, fun address _ => .inr (off address), fun _ _ pd _ => covered pd⟩
  | some fork =>
    have call := ensured engine svm fork keys enabled
    generalize ensurePresent engine svm keys = outcome at call ok keeps honest ⊢
    cases call with
    | stopped after error prep => cases ok
    | wrote after inject prep =>
      have done := Option.map_eq_none_iff.mp ok
      have before := complete.honest fork enabled
      have remembered := ensure_covers engine ledger svm fork enabled complete after keys inject prep done keeps
      have known := prepared_known (holds ledger.accounts) _ _ _ _ _ before prep
      refine ⟨⟨honest, ?_⟩, ?_, ?_, ?_⟩
      · rintro _ ⟨⟩ address seen
        exact remembered address (.inl seen)
      · intro address asked
        apply remembered
        rcases known address asked with seen | resident
        · exact .inl seen
        · exact .inr (.inr resident)
      · intro address asked
        rcases known address asked with seen | resident
        · refine .inr ?_
          rintro _ ⟨⟩
          exact seen
        · exact .inl (keeps address resident)
      · intro program written pd upgradeable
        apply remembered
        have planned := (set_all_initial engine svm.accounts inject).subset written
        rcases prepared_programdata ledger _ _ _ _ _ before prep program planned pd upgradeable with seen | out | resident
        · exact .inl seen
        · exact .inr (.inl (.inr out))
        · exact .inr (.inr resident)

end Completeness

end WakeSol.Forking
