import WakeSol.Forking.Hydrate

/- What one call of ensure_present can do, said once: which keys are asked for,
   what is remembered, what is written and where. -/
set_option autoImplicit false

namespace WakeSol.Forking

open TextLib RadixLib CacheLib Trace

def Fork.wants (fork : Fork) (accounts : Accounts) (address : Address) : Prop :=
  address ∉ fork.seen ∧ ¬ fork.excludes address ∧ accounts address = none

instance (fork : Fork) (accounts : Accounts) (address : Address) : Decidable (fork.wants accounts address) :=
  inferInstanceAs (Decidable (address ∉ fork.seen ∧ ¬ fork.excludes address ∧ accounts address = none))

structure Selection.Aligned (fork : Fork) (state : Selection) : Prop where
  excluded : ∀ address ∈ state.seen, address ∈ fork.seen ∨ fork.excludes address
  kept : ∀ address ∈ fork.seen, address ∈ state.seen

variable (accounts : Accounts) (fork : Fork)

theorem select_step (state : Selection) (key : Address) (aligned : state.Aligned fork) :
    (selectKey accounts fork state key).candidates =
        state.candidates ++ [key].filter (fun key => fork.wants accounts key) ∧
      (∀ address, address ∈ (selectKey accounts fork state key).seen ↔
        address ∈ state.seen ∨ address = key ∧ fork.excludes address) := by
  rw [selectKey]
  by_cases known : key ∈ state.seen
  · have unwanted : ¬ fork.wants accounts key := by
      intro wanted
      rcases aligned.excluded key known with before | out
      · exact wanted.1 before
      · exact wanted.2.1 out
    rw [if_pos known]
    refine ⟨by simp [unwanted], fun address => ⟨.inl, ?_⟩⟩
    rintro (here | ⟨rfl, _⟩)
    · exact here
    · exact known
  · have unseen : key ∉ fork.seen := fun before => known (aligned.kept key before)
    rw [if_neg known]
    by_cases out : fork.excludes key
    · have unwanted : ¬ fork.wants accounts key := fun wanted => wanted.2.1 out
      rw [if_pos out]
      refine ⟨by simp [unwanted], fun address => ?_⟩
      rw [List.mem_cons, or_comm]
      exact or_congr_right ⟨fun same => ⟨same, same ▸ out⟩, And.left⟩
    · have nothing : ∀ address, address ∈ state.seen ↔ address ∈ state.seen ∨ address = key ∧ fork.excludes address := by
        intro address
        refine ⟨.inl, ?_⟩
        rintro (here | ⟨rfl, isOut⟩)
        · exact here
        · exact absurd isOut out
      rw [if_neg out]
      by_cases resident : (accounts key).isSome = true
      · have unwanted : ¬ fork.wants accounts key := by
          intro wanted
          simp [wanted.2.2] at resident
        rw [if_pos resident]
        exact ⟨by simp [unwanted], nothing⟩
      · have wanted : fork.wants accounts key := ⟨unseen, out, by simpa using resident⟩
        rw [if_neg resident]
        exact ⟨by simp [wanted], nothing⟩

theorem select_step_aligned (state : Selection) (key : Address)
    (aligned : state.Aligned fork) : (selectKey accounts fork state key).Aligned fork := by
  have seen := (select_step accounts fork state key aligned).2
  constructor
  · intro address inside
    rcases (seen address).mp inside with before | ⟨_, out⟩
    · exact aligned.excluded address before
    · exact .inr out
  · intro address before
    exact (seen address).mpr (.inl (aligned.kept address before))

theorem select_loop (keys : List Address) (state : Selection) (aligned : state.Aligned fork) :
    (keys.foldl (selectKey accounts fork) state).candidates =
        state.candidates ++ keys.filter (fun key => fork.wants accounts key) ∧
      ∀ address, address ∈ (keys.foldl (selectKey accounts fork) state).seen ↔
        address ∈ state.seen ∨ address ∈ keys ∧ fork.excludes address := by
  induction keys generalizing state with
  | nil => simp
  | cons key rest ih =>
    obtain ⟨stepCandidates, stepSeen⟩ := select_step accounts fork state key aligned
    obtain ⟨candidates, seen⟩ := ih (selectKey accounts fork state key) (select_step_aligned accounts fork state key aligned)
    rw [List.foldl_cons]
    constructor
    · rw [candidates, stepCandidates, List.append_assoc, ← List.filter_append, List.singleton_append]
    · intro address
      rw [seen, stepSeen, List.mem_cons, or_and_right, or_assoc]

theorem select_start : (⟨fork.seen, []⟩ : Selection).Aligned fork :=
  ⟨fun _ inside => .inl inside, fun _ inside => inside⟩

theorem select_candidates (keys : List Address) :
    (select accounts fork keys).candidates = keys.filter fun key => fork.wants accounts key :=
  (select_loop accounts fork keys ⟨fork.seen, []⟩ (select_start fork)).1

theorem select_seen (keys : List Address) (address : Address) :
    address ∈ (select accounts fork keys).seen ↔ address ∈ fork.seen ∨ address ∈ keys ∧ fork.excludes address :=
  (select_loop accounts fork keys ⟨fork.seen, []⟩ (select_start fork)).2 address

structure Fork.Continues (fork after : Fork) : Prop where
  rpc : after.rpc = fork.rpc
  excludePrograms : after.excludePrograms = fork.excludePrograms
  excludeAddrs : after.excludeAddrs = fork.excludeAddrs
  minContextSlot : after.minContextSlot = fork.minContextSlot
  seen : ∀ address ∈ fork.seen, address ∈ after.seen

theorem continues_refl : fork.Continues fork := ⟨rfl, rfl, rfl, rfl, fun _ inside => inside⟩

theorem continues_trans (first second third : Fork) (left : first.Continues second) (right : second.Continues third) :
    first.Continues third :=
  ⟨right.rpc.trans left.rpc, right.excludePrograms.trans left.excludePrograms, right.excludeAddrs.trans left.excludeAddrs,
    right.minContextSlot.trans left.minContextSlot, fun address inside => right.seen address (left.seen address inside)⟩

theorem fetch_continues (keys : List Address) (after : Fork)
    (result : Except HarnessError (List (Option Account))) (fetched : fork.fetch keys = (after, result)) :
    fork.Continues after ∧ after.seen = fork.seen := by
  cases result with
  | error error =>
    obtain ⟨calls, rfl⟩ := fetch_error fork keys after error fetched
    exact ⟨⟨rfl, rfl, rfl, rfl, fun _ inside => inside⟩, rfl⟩
  | ok out =>
    obtain ⟨calls, answers, _, rfl, _⟩ := fetch_ok fork keys after out fetched
    exact ⟨⟨rfl, rfl, rfl, rfl, fun _ inside => inside⟩, rfl⟩

def Fork.admits (fork : Fork) (pair : Address × Option Account) : Option (Address × Account) :=
  pair.2.bind fun account => if account.owner ∈ fork.excludePrograms then none else some (pair.1, account)

structure Fork.Points (fork : Fork) (accounts : Accounts) (entry : Address × Account) (pd : Address) : Prop where
  executable : entry.2.executable = true
  loader : entry.2.owner = loaderV3
  address : programdataAddress entry.2.data = some pd
  unseen : pd ∉ fork.seen
  notExcluded : pd ∉ fork.excludeAddrs
  missing : accounts pd = none

theorem followup_points (seen : List Address) (entry : Address × Account) (pd : Address)
    (kept : ∀ address ∈ fork.seen, address ∈ seen) (isFollowup : followup accounts fork seen entry.2 = some pd) :
    fork.Points accounts entry pd := by
  rw [followup] at isFollowup
  split at isFollowup
  · rename_i isProgram
    obtain ⟨address, found, guard⟩ := Option.bind_eq_some_iff.mp isFollowup
    split at guard
    · rename_i free
      cases guard
      exact ⟨isProgram.1, isProgram.2, found, fun before => free.1 (kept pd before), free.2.1, free.2.2⟩
    · cases guard
  · cases isFollowup

theorem resolve_step (state : Resolution) (pair : Address × Option Account) :
    (resolveCandidate accounts fork state pair).seen = pair.1 :: state.seen ∧
      (resolveCandidate accounts fork state pair).inject = state.inject ++ (fork.admits pair).toList ∧
      (resolveCandidate accounts fork state pair).followups = state.followups ++
        ((fork.admits pair).bind fun entry => followup accounts fork (pair.1 :: state.seen) entry.2).toList := by
  obtain ⟨address, answer⟩ := pair
  rw [resolveCandidate]
  cases answer with
  | none => simp [Fork.admits]
  | some account =>
    by_cases blanked : account.owner ∈ fork.excludePrograms
    · simp [Fork.admits, blanked]
    · simp [Fork.admits, blanked]

variable (pairs : List (Address × Option Account))

theorem resolve_loop (state : Resolution) (kept : ∀ address ∈ fork.seen, address ∈ state.seen) :
    (pairs.foldl (resolveCandidate accounts fork) state).seen = (pairs.map Prod.fst).reverse ++ state.seen ∧
      (pairs.foldl (resolveCandidate accounts fork) state).inject = state.inject ++ pairs.filterMap fork.admits ∧
      ∀ pd ∈ (pairs.foldl (resolveCandidate accounts fork) state).followups,
        pd ∈ state.followups ∨ ∃ entry ∈ pairs.filterMap fork.admits, fork.Points accounts entry pd := by
  induction pairs generalizing state with
  | nil => exact ⟨rfl, by simp, fun pd inside => .inl inside⟩
  | cons pair rest ih =>
    obtain ⟨stepSeen, stepInject, stepFollowups⟩ := resolve_step accounts fork state pair
    obtain ⟨seen, inject, followups⟩ := ih (resolveCandidate accounts fork state pair) (by
      intro address before
      rw [stepSeen]
      exact List.mem_cons_of_mem _ (kept address before))
    rw [List.foldl_cons]
    refine ⟨by rw [seen, stepSeen]; simp, ?_, ?_⟩
    · rw [inject, stepInject, List.append_assoc, List.filterMap_cons]
      cases fork.admits pair <;> rfl
    · intro pd inside
      rcases followups pd inside with here | ⟨entry, later, points⟩
      · rw [stepFollowups, List.mem_append, Option.mem_toList] at here
        rcases here with before | asked
        · exact .inl before
        · obtain ⟨entry, admitted, isFollowup⟩ := Option.bind_eq_some_iff.mp asked
          refine .inr ⟨entry, ?_, ?_⟩
          · exact List.mem_filterMap.mpr ⟨pair, List.mem_cons_self, admitted⟩
          · exact followup_points accounts fork (pair.1 :: state.seen) entry pd
              (fun address before => List.mem_cons_of_mem _ (kept address before)) isFollowup
      · refine .inr ⟨entry, ?_, points⟩
        obtain ⟨source, inRest, admitted⟩ := List.mem_filterMap.mp later
        exact List.mem_filterMap.mpr ⟨source, List.mem_cons_of_mem _ inRest, admitted⟩

theorem resolve_seen : (resolveCandidates accounts fork pairs).seen = (pairs.map Prod.fst).reverse ++ fork.seen :=
  (resolve_loop accounts fork pairs ⟨fork.seen, [], []⟩ fun _ inside => inside).1

theorem resolve_inject : (resolveCandidates accounts fork pairs).inject = pairs.filterMap fork.admits := by
  have loop := (resolve_loop accounts fork pairs ⟨fork.seen, [], []⟩ fun _ inside => inside).2.1
  rwa [List.nil_append] at loop

theorem resolve_followups (pd : Address) (asked : pd ∈ (resolveCandidates accounts fork pairs).followups) :
    ∃ entry ∈ pairs.filterMap fork.admits, fork.Points accounts entry pd := by
  rcases (resolve_loop accounts fork pairs ⟨fork.seen, [], []⟩ fun _ inside => inside).2.2 pd asked with none | found
  · simp at none
  · exact found

def Fork.remember (fork : Fork) (seen : List Address) : Fork := { fork with seen := seen }

inductive Prepared (accounts : Accounts) (fork : Fork) (keys : List Address) :
    Fork → Except HarnessError (List (Address × Account)) → Prop where
  | unfetched (after : Fork) (error : HarnessError)
      (first : (fork.remember (select accounts fork keys).seen).fetch (select accounts fork keys).candidates =
        (after, .error error)) :
      Prepared accounts fork keys after (.error error)
  | halfFetched (middle : Fork) (fetched : List (Option Account)) (after : Fork) (error : HarnessError)
      (first : (fork.remember (select accounts fork keys).seen).fetch (select accounts fork keys).candidates =
        (middle, .ok fetched))
      (resolution : Resolution)
      (resolved : resolveCandidates accounts middle ((select accounts fork keys).candidates.zip fetched) = resolution)
      (second : (middle.remember resolution.seen).fetch resolution.followups = (after, .error error)) :
      Prepared accounts fork keys after (.error error)
  | fetched (middle : Fork) (fetched : List (Option Account)) (last : Fork) (programdata : List (Option Account))
      (first : (fork.remember (select accounts fork keys).seen).fetch (select accounts fork keys).candidates =
        (middle, .ok fetched))
      (resolution : Resolution)
      (resolved : resolveCandidates accounts middle ((select accounts fork keys).candidates.zip fetched) = resolution)
      (second : (middle.remember resolution.seen).fetch resolution.followups = (last, .ok programdata)) :
      Prepared accounts fork keys
        (last.remember (((resolution.followups.zip programdata).map Prod.fst).reverse ++ last.seen))
        (.ok (programsLast (resolution.inject ++ (resolution.followups.zip programdata).filterMap present)))

theorem prepared (keys : List Address) :
    Prepared accounts fork keys (prepare accounts fork keys).1 (prepare accounts fork keys).2 := by
  rw [prepare]
  simp only
  split
  · rename_i after error first
    exact .unfetched after error first
  · rename_i middle fetched first
    split
    · rename_i after error second
      exact .halfFetched middle fetched after error first _ rfl second
    · rename_i last programdata second
      exact .fetched middle fetched last programdata first _ rfl second

theorem selected_continues (keys : List Address) : fork.Continues (fork.remember (select accounts fork keys).seen) :=
  ⟨rfl, rfl, rfl, rfl, fun address inside => (select_seen accounts fork keys address).mpr (.inl inside)⟩

theorem resolved_continues : fork.Continues (fork.remember (resolveCandidates accounts fork pairs).seen) := by
  refine ⟨rfl, rfl, rfl, rfl, fun address inside => ?_⟩
  rw [Fork.remember, resolve_seen]
  exact List.mem_append_right _ inside

theorem half_continues (keys : List Address) (middle : Fork) (fetched : List (Option Account))
    (first : (fork.remember (select accounts fork keys).seen).fetch (select accounts fork keys).candidates =
      (middle, .ok fetched)) (resolution : Resolution)
    (resolved : resolveCandidates accounts middle ((select accounts fork keys).candidates.zip fetched) = resolution) :
    fork.Continues (middle.remember resolution.seen) := by
  have start := continues_trans _ _ _ (selected_continues accounts fork keys) (fetch_continues _ _ _ _ first).1
  rw [← resolved]
  exact continues_trans _ _ _ start (resolved_continues accounts middle _)

theorem prepared_continues (keys : List Address) (after : Fork)
    (result : Except HarnessError (List (Address × Account))) (prep : Prepared accounts fork keys after result) :
    fork.Continues after := by
  cases prep with
  | unfetched after error first =>
    exact continues_trans _ _ _ (selected_continues accounts fork keys) (fetch_continues _ _ _ _ first).1
  | halfFetched middle fetched after error first resolution resolved second =>
    have half := half_continues accounts fork keys middle fetched first resolution resolved
    exact continues_trans _ _ _ half (fetch_continues _ _ _ _ second).1
  | fetched middle fetched last programdata first resolution resolved second =>
    have half := half_continues accounts fork keys middle fetched first resolution resolved
    have whole := continues_trans _ _ _ half (fetch_continues _ _ _ _ second).1
    exact continues_trans _ _ _ whole ⟨rfl, rfl, rfl, rfl, fun _ inside => List.mem_append_right _ inside⟩

theorem programs_last_mem (inject : List (Address × Account)) (entry : Address × Account) :
    entry ∈ programsLast inject ↔ entry ∈ inject := by
  rw [programsLast, List.mem_append, List.mem_filter, List.mem_filter]
  cases entry.2.executable <;> simp

structure Fork.Free (fork : Fork) (accounts : Accounts) (address : Address) : Prop where
  unseen : address ∉ fork.seen
  missing : accounts address = none
  notExcluded : address ∉ fork.excludeAddrs

theorem wants_free (accounts : Accounts) (address : Address) (wanted : fork.wants accounts address) :
    fork.Free accounts address := ⟨wanted.1, wanted.2.2, fun out => wanted.2.1 (.inr out)⟩

theorem candidate_wanted (keys : List Address) (address : Address)
    (inside : address ∈ (select accounts fork keys).candidates) : address ∈ keys ∧ fork.wants accounts address := by
  rw [select_candidates] at inside
  obtain ⟨asked, wanted⟩ := List.mem_filter.mp inside
  exact ⟨asked, by simpa using wanted⟩

theorem admits_some (pair : Address × Option Account) (entry : Address × Account)
    (admitted : fork.admits pair = some entry) : pair = (entry.1, some entry.2) ∧ entry.2.owner ∉ fork.excludePrograms := by
  obtain ⟨address, answer⟩ := pair
  cases answer with
  | none => cases admitted
  | some account =>
    rw [Fork.admits, Option.bind_some] at admitted
    split at admitted
    · cases admitted
    · rename_i allowed
      cases admitted
      exact ⟨rfl, allowed⟩

theorem present_some (pair : Address × Option Account) (entry : Address × Account) (found : present pair = some entry) :
    pair = (entry.1, some entry.2) := by
  obtain ⟨address, answer⟩ := pair
  obtain ⟨account, isSome, rfl⟩ := Option.map_eq_some_iff.mp found
  have same : answer = some account := isSome
  rw [same]

theorem prepared_free (keys : List Address) (after : Fork)
    (inject : List (Address × Account)) (prep : Prepared accounts fork keys after (.ok inject)) (entry : Address × Account)
    (inside : entry ∈ inject) : fork.Free accounts entry.1 ∧ entry.1 ∈ after.seen := by
  cases prep with
  | fetched middle fetched last programdata first resolution resolved second =>
    have start := continues_trans _ _ _ (selected_continues accounts fork keys) (fetch_continues _ _ _ _ first).1
    have lastSeen := (fetch_continues _ _ _ _ second).2
    rw [programs_last_mem, List.mem_append] at inside
    rcases inside with direct | followed
    · rw [← resolved, resolve_inject] at direct
      obtain ⟨pair, asked, admitted⟩ := List.mem_filterMap.mp direct
      have key : entry.1 ∈ (((select accounts fork keys).candidates.zip fetched).map Prod.fst) :=
        List.mem_map.mpr ⟨pair, asked, by rw [(admits_some middle pair entry admitted).1]⟩
      obtain ⟨source, inZip, same⟩ := List.mem_map.mp key
      have candidate : entry.1 ∈ (select accounts fork keys).candidates := same ▸ (List.of_mem_zip inZip).1
      refine ⟨wants_free fork accounts _ (candidate_wanted accounts fork keys _ candidate).2, List.mem_append_right _ ?_⟩
      rw [lastSeen, Fork.remember, ← resolved, resolve_seen]
      exact List.mem_append_left _ (List.mem_reverse.mpr key)
    · obtain ⟨pair, asked, found⟩ := List.mem_filterMap.mp followed
      have same := present_some pair entry found
      have isFollowup : entry.1 ∈ resolution.followups := by
        have member := (List.of_mem_zip (same ▸ asked)).1
        exact member
      rw [← resolved] at isFollowup
      obtain ⟨program, _, points⟩ := resolve_followups accounts middle _ entry.1 isFollowup
      refine ⟨⟨fun before => points.unseen (start.seen _ before), points.missing, ?_⟩, List.mem_append_left _ ?_⟩
      · rw [← start.excludeAddrs]
        exact points.notExcluded
      · exact List.mem_reverse.mpr (List.mem_map.mpr ⟨pair, asked, by rw [same]⟩)

variable (engine : Engine)

theorem set_all_initial (accounts : Accounts) (inject : List (Address × Account)) :
    (setAll engine accounts inject).injected <+: inject := by
  induction inject generalizing accounts with
  | nil => exact List.prefix_rfl
  | cons entry rest ih =>
    rw [setAll]
    cases engine.rejects accounts entry.1 entry.2 with
    | some error => exact List.nil_prefix
    | none => exact List.cons_prefix_cons.mpr ⟨rfl, ih _⟩

theorem set_all_done (accounts : Accounts) (inject : List (Address × Account))
    (done : (setAll engine accounts inject).error = none) : (setAll engine accounts inject).injected = inject := by
  induction inject generalizing accounts with
  | nil => rfl
  | cons entry rest ih =>
    rw [setAll] at done ⊢
    cases rejected : engine.rejects accounts entry.1 entry.2 with
    | some error => simp [rejected] at done
    | none =>
      simp only [rejected] at done
      simp only [ih _ done]

theorem set_all_accounts (accounts : Accounts) (inject : List (Address × Account)) :
    (setAll engine accounts inject).accounts =
      (setAll engine accounts inject).injected.foldl (fun accounts entry => storeAccount accounts entry.1 entry.2) accounts := by
  induction inject generalizing accounts with
  | nil => rfl
  | cons entry rest ih =>
    rw [setAll]
    cases engine.rejects accounts entry.1 entry.2 with
    | some error => rfl
    | none => exact ih _

theorem stored_elsewhere (writes : List (Address × Account)) (accounts : Accounts) (address : Address)
    (elsewhere : address ∉ writes.map Prod.fst) :
    writes.foldl (fun accounts entry => storeAccount accounts entry.1 entry.2) accounts address = accounts address := by
  induction writes generalizing accounts with
  | nil => rfl
  | cons entry rest ih =>
    rw [List.map_cons, List.mem_cons, not_or] at elsewhere
    rw [List.foldl_cons, ih _ elsewhere.2, storeAccount, if_neg elsewhere.1]

theorem set_all_elsewhere (accounts : Accounts) (inject : List (Address × Account)) (address : Address)
    (elsewhere : address ∉ (setAll engine accounts inject).injected.map Prod.fst) :
    (setAll engine accounts inject).accounts address = accounts address := by
  rw [set_all_accounts]
  exact stored_elsewhere _ accounts address elsewhere

inductive Ensured (engine : Engine) (svm : Svm) (fork : Fork) (keys : List Address) : Outcome → Prop where
  | stopped (after : Fork) (error : HarnessError) (prep : Prepared svm.accounts fork keys after (.error error)) :
      Ensured engine svm fork keys ⟨{ svm with fork := some after }, [], some error⟩
  | wrote (after : Fork) (inject : List (Address × Account)) (prep : Prepared svm.accounts fork keys after (.ok inject)) :
      Ensured engine svm fork keys
        ⟨{ svm with accounts := (setAll engine svm.accounts inject).accounts, fork := some after },
          (setAll engine svm.accounts inject).injected, (setAll engine svm.accounts inject).error.map .rejected⟩

variable (svm : Svm)

theorem ensure_stopped (fork : Fork) (keys : List Address) (enabled : svm.fork = some fork)
    (after : Fork) (error : HarnessError) (stage : prepare svm.accounts fork keys = (after, .error error)) :
    ensurePresent engine svm keys = ⟨{ svm with fork := some after }, [], some error⟩ := by
  rw [ensurePresent, enabled]
  simp only [stage]

theorem ensure_wrote (fork : Fork) (keys : List Address) (enabled : svm.fork = some fork)
    (after : Fork) (inject : List (Address × Account)) (stage : prepare svm.accounts fork keys = (after, .ok inject)) :
    ensurePresent engine svm keys =
      ⟨{ svm with accounts := (setAll engine svm.accounts inject).accounts, fork := some after },
        (setAll engine svm.accounts inject).injected, (setAll engine svm.accounts inject).error.map .rejected⟩ := by
  rw [ensurePresent, enabled]
  simp only [stage]

theorem ensured (fork : Fork) (keys : List Address) (enabled : svm.fork = some fork) :
    Ensured engine svm fork keys (ensurePresent engine svm keys) := by
  have prep := prepared svm.accounts fork keys
  cases result : prepare svm.accounts fork keys with
  | mk after stage =>
    rw [result] at prep
    cases stage with
    | error error =>
      rw [ensure_stopped engine svm fork keys enabled after error result]
      exact .stopped after error prep
    | ok inject =>
      rw [ensure_wrote engine svm fork keys enabled after inject result]
      exact .wrote after inject prep

theorem ensure_disabled (keys : List Address) (off : svm.fork = none) :
    ensurePresent engine svm keys = ⟨svm, [], none⟩ := by
  rw [ensurePresent, off]

end WakeSol.Forking
