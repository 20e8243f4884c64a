import WakeSol.Forking.Exclusion

/- What the fork's memory stands for. An address it remembers is never fetched
   again, so it had better be settled or written; a call that stops after its
   first fetch remembers addresses that are neither. -/
set_option autoImplicit false

namespace WakeSol.Forking

open TextLib RadixLib CacheLib Trace

inductive Call where
  | ensure (keys : List Address)
  | reset

structure Session where
  svm : Svm
  injected : List Address

def Session.call (engine : Engine) (session : Session) : Call → Session
  | .ensure keys =>
    ⟨(ensurePresent engine session.svm keys).svm,
      (ensurePresent engine session.svm keys).injected.map Prod.fst ++ session.injected⟩
  | .reset => ⟨reset engine session.svm, []⟩

def Session.calls (engine : Engine) (session : Session) (calls : List Call) : Session :=
  calls.foldl (Session.call engine) session

def Throughout (engine : Engine) (holdsAt : Session → Prop) : Session → List Call → Prop
  | session, [] => holdsAt session
  | session, call :: rest => holdsAt session ∧ Throughout engine holdsAt (session.call engine call) rest

def Session.Resolved (chain : Accounts) (session : Session) : Prop :=
  ∀ fork ∈ session.svm.fork, ∀ address ∈ fork.seen, fork.Settled (holds chain) address ∨ address ∈ session.injected

def firstFetch (accounts : Accounts) (fork : Fork) (keys : List Address) : Fork × Except HarnessError (List (Option Account)) :=
  (fork.remember (select accounts fork keys).seen).fetch (select accounts fork keys).candidates

def Finishes (engine : Engine) (chain : Accounts) (svm : Svm) (keys : List Address) : Prop :=
  ∀ fork ∈ svm.fork,
    ((firstFetch svm.accounts fork keys).2.isOk = true → (prepare svm.accounts fork keys).2.isOk = true) ∧
    ∀ inject ∈ (prepare svm.accounts fork keys).2.toOption, ∀ entry ∈ inject,
      fork.Settled (holds chain) entry.1 ∨ entry.1 ∈ (setAll engine svm.accounts inject).injected.map Prod.fst

instance (engine : Engine) (chain : Accounts) (svm : Svm) (keys : List Address) : Decidable (Finishes engine chain svm keys) :=
  inferInstanceAs (Decidable (∀ fork ∈ svm.fork,
    ((firstFetch svm.accounts fork keys).2.isOk = true → (prepare svm.accounts fork keys).2.isOk = true) ∧
    ∀ inject ∈ (prepare svm.accounts fork keys).2.toOption, ∀ entry ∈ inject,
      fork.Settled (holds chain) entry.1 ∨ entry.1 ∈ (setAll engine svm.accounts inject).injected.map Prod.fst))

def AllFinish (engine : Engine) (chain : Accounts) : Session → List Call → Prop
  | _, [] => True
  | session, .ensure keys :: rest =>
    Finishes engine chain session.svm keys ∧ AllFinish engine chain (session.call engine (.ensure keys)) rest
  | session, .reset :: rest => AllFinish engine chain (session.call engine .reset) rest

structure Session.Sound (chain : Accounts) (session : Session) : Prop where
  honest : ∀ fork ∈ session.svm.fork, fork.Honest (holds chain)
  remembered : ∀ fork ∈ session.svm.fork, ∀ address ∈ session.injected, address ∈ fork.seen
  resident : (∀ address account, chain address = some account → account.lamports ≠ 0) →
    ∀ address ∈ session.injected, session.svm.accounts address ≠ none

section Steps

variable (engine : Engine) (chain : Accounts) (session : Session) (sound : session.Sound chain)

include sound

theorem ensure_written_resident (living : ∀ address account, chain address = some account → account.lamports ≠ 0)
    (keys : List Address) (address : Address)
    (written : address ∈ (ensurePresent engine session.svm keys).injected.map Prod.fst) :
    (ensurePresent engine session.svm keys).svm.accounts address ≠ none := by
  cases enabled : session.svm.fork with
  | none =>
    rw [ensure_disabled engine session.svm keys enabled] at written
    cases written
  | some fork =>
    have honest := sound.honest fork enabled
    have call := ensured engine session.svm fork keys enabled
    generalize ensurePresent engine session.svm keys = outcome at call written ⊢
    cases call with
    | stopped after error prep => cases written
    | wrote after inject prep =>
      have genuine := prepared_genuine chain _ _ _ _ _ honest prep
      obtain ⟨entry, inside, same⟩ := List.mem_map.mp written
      have held := genuine entry ((set_all_initial engine session.svm.accounts inject).subset inside)
      rw [same] at held
      have kept := written_resident engine chain session.svm.accounts inject genuine address entry.2 held
        (living _ _ held) written
      simp only [kept]
      exact Option.some_ne_none _

theorem ensure_sound (keys : List Address) : (session.call engine (.ensure keys)).Sound chain := by
  constructor
  · exact ensure_honest (holds chain) engine session.svm keys sound.honest
  · intro fork isFork address inside
    have guarded := ensure_guarded engine session.svm keys
    rw [Guarded] at guarded
    cases enabled : session.svm.fork with
    | none =>
      simp only [enabled] at guarded
      cases guarded.1.symm.trans isFork
    | some before =>
      simp only [enabled] at guarded
      obtain ⟨after, isAfter, continues, written⟩ := guarded
      cases isAfter.symm.trans isFork
      rcases List.mem_append.mp inside with new | old
      · obtain ⟨entry, isEntry, rfl⟩ := List.mem_map.mp new
        exact (written entry isEntry).2.2
      · exact continues.seen _ (sound.remembered before enabled address old)
  · intro living address inside
    rcases List.mem_append.mp inside with new | old
    · exact ensure_written_resident engine chain session sound living keys address new
    · have before := sound.resident living address old
      have kept := (ensure_keeps engine session.svm keys address before).2
      change (ensurePresent engine session.svm keys).svm.accounts address ≠ none
      rwa [kept]

theorem reset_sound : (session.call engine .reset).Sound chain := by
  constructor
  · intro fork isFork
    obtain ⟨before, enabled, rfl⟩ := Option.map_eq_some_iff.mp isFork
    exact remember_honest (holds chain) before [] (sound.honest before enabled)
  · intro fork isFork address inside
    cases inside
  · intro living address inside
    cases inside

omit sound in
theorem reset_resolved : (session.call engine .reset).Resolved chain := by
  intro fork isFork address inside
  obtain ⟨before, enabled, rfl⟩ := Option.map_eq_some_iff.mp isFork
  cases inside

omit sound in
theorem resolved_after (fork after : Fork) (continues : fork.Continues after) (svm : Svm) (isAfter : svm.fork = some after)
    (injected : List Address) : (⟨svm, injected⟩ : Session).Resolved chain ↔
      ∀ address ∈ after.seen, fork.Settled (holds chain) address ∨ address ∈ injected := by
  constructor
  · intro resolved address inside
    rcases resolved after isAfter address inside with settled | written
    · exact .inl ((settled_continues (holds chain) fork after continues address).mp settled)
    · exact .inr written
  · intro resolved other isOther address inside
    cases isAfter.symm.trans isOther
    rcases resolved address inside with settled | written
    · exact .inl ((settled_continues (holds chain) fork after continues address).mpr settled)
    · exact .inr written

theorem stopped_resolved_iff (resolved : session.Resolved chain) (keys : List Address) (fork : Fork)
    (enabled : session.svm.fork = some fork) (after : Fork) (error : HarnessError)
    (prep : Prepared session.svm.accounts fork keys after (.error error)) :
    (∀ address ∈ after.seen, fork.Settled (holds chain) address ∨ address ∈ session.injected) ↔
      (firstFetch session.svm.accounts fork keys).2.isOk = false := by
  have honest := sound.honest fork enabled
  cases prep with
  | unfetched after error first =>
    have failed : (firstFetch session.svm.accounts fork keys).2.isOk = false := by
      rw [firstFetch, first]
      rfl
    refine ⟨fun _ => failed, fun _ address inside => ?_⟩
    rw [(fetch_continues _ _ _ _ first).2] at inside
    rcases selected_settled (holds chain) session.svm.accounts fork keys address inside with before | settled
    · exact resolved fork enabled address before
    · exact .inl settled
  | halfFetched middle fetched after error first resolution same second =>
    have answered : (firstFetch session.svm.accounts fork keys).2.isOk = true := by
      rw [firstFetch, first]
      rfl
    obtain ⟨program, taken, unseen, remembered⟩ := half_fetched_forgets (holds chain) session.svm.accounts fork keys middle
      fetched after error honest first resolution same second
    constructor
    · intro settled
      rcases settled program.1 remembered with left | written
      · exact absurd left (taken_unsettled fork chain program taken)
      · exact absurd (sound.remembered fork enabled _ written) unseen
    · intro failed
      rw [answered] at failed
      cases failed

theorem wrote_resolved_iff (resolved : session.Resolved chain) (keys : List Address) (fork : Fork)
    (enabled : session.svm.fork = some fork) (after : Fork) (inject : List (Address × Account))
    (prep : Prepared session.svm.accounts fork keys after (.ok inject)) (written : List Address) :
    (∀ address ∈ after.seen, fork.Settled (holds chain) address ∨ address ∈ written ++ session.injected) ↔
      ∀ entry ∈ inject, fork.Settled (holds chain) entry.1 ∨ entry.1 ∈ written := by
  have honest := sound.honest fork enabled
  constructor
  · intro settled entry inside
    obtain ⟨free, remembered⟩ := prepared_free _ _ _ _ _ prep entry inside
    rcases settled entry.1 remembered with left | new
    · exact .inl left
    · rcases List.mem_append.mp new with here | before
      · exact .inr here
      · exact absurd (sound.remembered fork enabled _ before) free.unseen
  · intro complete address inside
    rcases prepared_settled (holds chain) _ _ _ _ _ honest prep address inside with before | settled | planned
    · rcases resolved fork enabled address before with settled | earlier
      · exact .inl settled
      · exact .inr (List.mem_append_right _ earlier)
    · exact .inl settled
    · obtain ⟨entry, isEntry, rfl⟩ := List.mem_map.mp planned
      rcases complete entry isEntry with settled | here
      · exact .inl settled
      · exact .inr (List.mem_append_left _ here)

theorem ensure_resolved_iff (resolved : session.Resolved chain) (keys : List Address) :
    (session.call engine (.ensure keys)).Resolved chain ↔ Finishes engine chain session.svm keys := by
  cases enabled : session.svm.fork with
  | none =>
    have off := ensure_disabled engine session.svm keys enabled
    constructor
    · intro _ fork isFork
      rw [enabled] at isFork
      cases isFork
    · intro _ fork isFork
      rw [Session.call, off, enabled] at isFork
      cases isFork
  | some fork =>
    have prep := prepared session.svm.accounts fork keys
    have finishes : Finishes engine chain session.svm keys ↔
        ((firstFetch session.svm.accounts fork keys).2.isOk = true →
            (prepare session.svm.accounts fork keys).2.isOk = true) ∧
          ∀ inject ∈ (prepare session.svm.accounts fork keys).2.toOption, ∀ entry ∈ inject,
            fork.Settled (holds chain) entry.1 ∨
              entry.1 ∈ (setAll engine session.svm.accounts inject).injected.map Prod.fst := by
      rw [Finishes, enabled]
      simp only [Option.mem_def, Option.some.injEq, forall_eq']
    rw [finishes, Session.call]
    cases result : prepare session.svm.accounts fork keys with
    | mk after stage =>
      rw [result] at prep
      have continues := prepared_continues _ _ _ _ _ prep
      cases stage with
      | error error =>
        rw [ensure_stopped engine session.svm fork keys enabled after error result,
          resolved_after chain fork after continues _ rfl, List.map_nil, List.nil_append,
          stopped_resolved_iff chain session sound resolved keys fork enabled after error prep]
        simp [Except.isOk, Except.toBool, Except.toOption]
      | ok inject =>
        rw [ensure_wrote engine session.svm fork keys enabled after inject result,
          resolved_after chain fork after continues _ rfl,
          wrote_resolved_iff chain session sound resolved keys fork enabled after inject prep]
        simp [Except.isOk, Except.toBool, Except.toOption]

end Steps

theorem throughout_here (engine : Engine) (holdsAt : Session → Prop) (session : Session) (calls : List Call)
    (always : Throughout engine holdsAt session calls) : holdsAt session := by
  cases calls with
  | nil => exact always
  | cons call rest => exact always.1

theorem throughout_last (engine : Engine) (holdsAt : Session → Prop) (session : Session) (calls : List Call)
    (always : Throughout engine holdsAt session calls) : holdsAt (session.calls engine calls) := by
  induction calls generalizing session with
  | nil => exact always
  | cons call rest ih => exact ih _ always.2

theorem calls_sound (engine : Engine) (chain : Accounts) (session : Session) (sound : session.Sound chain) (calls : List Call) :
    (session.calls engine calls).Sound chain := by
  induction calls generalizing session with
  | nil => exact sound
  | cons call rest ih =>
    cases call with
    | ensure keys => exact ih _ (ensure_sound engine chain session sound keys)
    | reset => exact ih _ (reset_sound engine chain session sound)

theorem resolved_iff (engine : Engine) (chain : Accounts) (session : Session) (sound : session.Sound chain)
    (resolved : session.Resolved chain) (calls : List Call) :
    Throughout engine (Session.Resolved chain) session calls ↔ AllFinish engine chain session calls := by
  induction calls generalizing session with
  | nil => exact ⟨fun _ => trivial, fun _ => resolved⟩
  | cons call rest ih =>
    cases call with
    | ensure keys =>
      have next := ensure_resolved_iff engine chain session sound resolved keys
      have later := ih _ (ensure_sound engine chain session sound keys)
      rw [Throughout, AllFinish, ← next]
      constructor
      · intro always
        have here := throughout_here engine _ _ _ always.2
        exact ⟨here, (later here).mp always.2⟩
      · intro finish
        exact ⟨resolved, (later finish.1).mpr finish.2⟩
    | reset =>
      have later := ih _ (reset_sound engine chain session sound) (reset_resolved engine chain session)
      rw [Throughout, AllFinish, later]
      exact ⟨fun both => both.2, fun finish => ⟨resolved, finish⟩⟩

theorem resolved_reads (engine : Engine) (chain : Accounts) (session : Session) (sound : session.Sound chain)
    (resolved : session.Resolved chain)
    (living : ∀ address account, chain address = some account → account.lamports ≠ 0) (fork : Fork)
    (enabled : session.svm.fork = some fork) (keys : List Address) (address : Address) (account : Account)
    (asked : address ∈ keys) (taken : fork.Takes (holds chain) (address, account))
    (done : (ensurePresent engine session.svm keys).error = none) :
    (ensurePresent engine session.svm keys).svm.accounts address ≠ none := by
  by_cases resident : session.svm.accounts address = none
  · have unseen : address ∉ fork.seen := by
      intro seen
      rcases resolved fork enabled address seen with settled | written
      · exact taken_unsettled fork chain (address, account) taken settled
      · exact sound.resident living address written resident
    have wanted : fork.wants session.svm.accounts address := ⟨unseen, taken.notExcluded, resident⟩
    rw [ensure_reads engine chain session.svm fork enabled (sound.honest fork enabled) keys address account asked wanted taken
      (living address account taken.held.symm) done]
    exact Option.some_ne_none _
  · rwa [(ensure_keeps engine session.svm keys address resident).2]

theorem start_sound (chain : Accounts) (svm : Svm)
    (fresh : ∀ fork ∈ svm.fork, fork.seen = [] ∧ fork.Honest (holds chain)) :
    (⟨svm, []⟩ : Session).Sound chain ∧ (⟨svm, []⟩ : Session).Resolved chain := by
  constructor
  · constructor
    · exact fun fork enabled => (fresh fork enabled).2
    · intro fork enabled address inside
      cases inside
    · intro living address inside
      cases inside
  · intro fork enabled address inside
    rw [(fresh fork enabled).1] at inside
    cases inside

instance decideFinish (engine : Engine) (chain : Accounts) : (session : Session) → (calls : List Call) →
    Decidable (AllFinish engine chain session calls)
  | _, [] => .isTrue trivial
  | session, .ensure keys :: rest =>
    have := decideFinish engine chain (session.call engine (.ensure keys)) rest
    inferInstanceAs (Decidable (Finishes engine chain session.svm keys ∧
      AllFinish engine chain (session.call engine (.ensure keys)) rest))
  | session, .reset :: rest => decideFinish engine chain (session.call engine .reset) rest

def recorded (addresses : List Address) : Svm :=
  forkedSvm (freshFork none (emptyDirectory.putAll (addresses.map fun address => (address, programChain address))))

theorem recorded_honest (addresses : List Address) :
    ∀ fork ∈ (recorded addresses).fork, fork.seen = [] ∧ fork.Honest (holds programChain) := by
  rintro _ ⟨⟩
  refine ⟨rfl, ?_, fun rpc isRpc => nomatch isRpc⟩
  change Agrees (holds programChain) (emptyDirectory.putAll _).get
  rw [get_put_all]
  intro address answer found
  by_cases asked : address ∈ (addresses.map fun address => (address, programChain address)).map Prod.fst
  · obtain ⟨stored, inside, same⟩ := put_all_present emptyDirectory.get _ address asked
    obtain ⟨source, _, equal⟩ := List.mem_map.mp inside
    cases equal
    rw [found] at same
    exact Option.some.inj same
  · rw [put_all_absent emptyDirectory.get _ address asked] at found
    cases found

def missThenProgram : List Call := [.ensure [.fill 9], .ensure [.fill 2], .reset, .ensure [.fill 2, .fill 1]]

-- The program is in the directory and its programdata is not: the touch fails,
-- the next one succeeds and the program is not there.
def afterMiss : Outcome := ensurePresent plainEngine (recorded [.fill 2]) [.fill 2]

end WakeSol.Forking
