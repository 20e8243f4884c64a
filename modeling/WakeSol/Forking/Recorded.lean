import WakeSol.Forking.Chain

/- What a run leaves in the snapshot directory. Every answer of the node is stored
   where it was missing and never replaced, so the directory has what the run was
   told, unless the node told two things in one fetch. -/
set_option autoImplicit false

namespace WakeSol.Forking

open TextLib RadixLib CacheLib Trace

def Rpc.Complete (rpc : Rpc) : Prop :=
  ∀ calls keys slot answers, rpc.getMultipleAccounts calls keys slot = .ok answers → answers.length = keys.length

theorem request_all_length (rpc : Rpc) (complete : rpc.Complete) (slot : UInt64) (requests : List (List Address)) (calls after : Nat)
    (answers : List (Option Account)) (answered : requestAll rpc slot calls requests = (after, .ok answers)) :
    answers.length = requests.flatten.length := by
  have related := request_all_honest (fun _ _ => True) rpc slot requests calls
    (fun calls keys slot answers served => List.forall₂_iff_get.mpr ⟨(complete calls keys slot answers served).symm, by simp⟩)
    after answers answered
  exact related.length_eq.symm

def Fork.Steady (fork : Fork) (keys : List Address) : Prop :=
  ∀ calls answers, fork.Asked keys calls answers → Consistent ((misses fork.store.get keys).zip answers)

def Fork.offline (directory : SnapshotStore) (fork : Fork) : Fork :=
  ⟨none, directory, fork.excludePrograms, fork.excludeAddrs, fork.seen, 0, 0⟩

theorem asked_length (fork : Fork) (complete : ∀ rpc ∈ fork.rpc, rpc.Complete) (keys : List Address) (calls : Nat)
    (answers : List (Option Account)) (asked : fork.Asked keys calls answers) :
    answers.length = (misses fork.store.get keys).length := by
  cases asked with
  | cached known =>
    rw [known]
    rfl
  | asked rpc online calls answers answered =>
    have length := request_all_length rpc (complete rpc online) _ _ _ _ _ answered
    rwa [chunks_flatten] at length

theorem fetch_extends (fork : Fork) (keys : List Address) (after : Fork) (result : Except HarnessError (List (Option Account)))
    (fetched : fork.fetch keys = (after, result)) : Extends fork.store.get after.store.get := by
  cases result with
  | error error =>
    obtain ⟨calls, rfl⟩ := fetch_error fork keys after error fetched
    exact extends_refl _
  | ok out =>
    obtain ⟨calls, answers, _, rfl, _⟩ := fetch_ok fork keys after out fetched
    change Extends fork.store.get (fork.store.putAll _).get
    rw [get_put_all]
    apply put_all_extends
    intro pair inside
    have missing := (List.mem_filter.mp (List.of_mem_zip inside).1).2
    exact Option.isNone_iff_eq_none.mp missing

theorem fetch_offline (directory : SnapshotStore) (fork : Fork) (complete : ∀ rpc ∈ fork.rpc, rpc.Complete)
    (keys : List Address) (steady : fork.Steady keys) (after : Fork) (out : List (Option Account))
    (fetched : fork.fetch keys = (after, .ok out)) (kept : Extends after.store.get directory.get) :
    (fork.offline directory).fetch keys = (fork.offline directory, .ok out) := by
  have grows := extends_trans _ _ _ (fetch_extends fork keys after _ fetched) kept
  obtain ⟨calls, answers, asked, rfl, rfl⟩ := fetch_ok fork keys after out fetched
  have stored : ∀ pair ∈ (misses fork.store.get keys).zip answers, directory.get pair.1 = some pair.2 := by
    intro pair inside
    apply kept
    change (fork.store.putAll _).get pair.1 = some pair.2
    rw [get_put_all]
    exact put_all_consistent _ _ (steady calls answers asked) pair inside
  have known := fill_answers none fork.store.get directory.get keys answers (asked_length fork complete keys calls answers asked)
    grows stored
  have found : misses (fork.offline directory).store.get keys = [] := misses_known _ _ _ known
  have served : fill none (keys.map (fork.offline directory).store.get) [] = fill none (keys.map fork.store.get) answers := by
    change fill none (keys.map directory.get) [] = _
    rw [known, fill_known]
  rw [Fork.fetch, found]
  simp only [served]

structure Fork.SteadyOn (fork : Fork) (accounts : Accounts) (keys : List Address) : Prop where
  first : (fork.remember (select accounts fork keys).seen).Steady (select accounts fork keys).candidates
  second : ∀ middle fetched,
    (fork.remember (select accounts fork keys).seen).fetch (select accounts fork keys).candidates = (middle, .ok fetched) →
    ∀ resolution, resolveCandidates accounts middle ((select accounts fork keys).candidates.zip fetched) = resolution →
      (middle.remember resolution.seen).Steady resolution.followups

theorem fetched_offline (directory : SnapshotStore) (fork : Fork) (keys : List Address) (after : Fork)
    (out : List (Option Account)) (fetched : fork.fetch keys = (after, .ok out)) :
    after.offline directory = fork.offline directory := by
  obtain ⟨calls, answers, _, rfl, _⟩ := fetch_ok fork keys after out fetched
  rfl

theorem prepare_extends (accounts : Accounts) (fork : Fork) (keys : List Address) (after : Fork)
    (result : Except HarnessError (List (Address × Account))) (prep : Prepared accounts fork keys after result) :
    Extends fork.store.get after.store.get := by
  cases prep with
  | unfetched after error first =>
    have asked := fetch_extends _ _ _ _ first
    exact asked
  | halfFetched middle fetched after error first resolution resolved second =>
    have asked := fetch_extends _ _ _ _ first
    have followed := fetch_extends _ _ _ _ second
    exact extends_trans _ middle.store.get _ asked followed
  | fetched middle fetched last programdata first resolution resolved second =>
    have asked := fetch_extends _ _ _ _ first
    have followed := fetch_extends _ _ _ _ second
    exact extends_trans _ middle.store.get _ asked followed

theorem prepare_fetched (accounts : Accounts) (fork : Fork) (keys : List Address) (middle : Fork)
    (fetched : List (Option Account)) (last : Fork) (programdata : List (Option Account))
    (first : (fork.remember (select accounts fork keys).seen).fetch (select accounts fork keys).candidates =
      (middle, .ok fetched))
    (second : (middle.remember (resolveCandidates accounts middle ((select accounts fork keys).candidates.zip fetched)).seen).fetch
      (resolveCandidates accounts middle ((select accounts fork keys).candidates.zip fetched)).followups =
        (last, .ok programdata)) :
    prepare accounts fork keys =
      let resolution := resolveCandidates accounts middle ((select accounts fork keys).candidates.zip fetched)
      (last.remember (((resolution.followups.zip programdata).map Prod.fst).reverse ++ last.seen),
        .ok (programsLast (resolution.inject ++ (resolution.followups.zip programdata).filterMap present))) := by
  rw [Fork.remember] at first second
  rw [prepare]
  simp only [first, second]
  rfl

theorem prepare_offline (directory : SnapshotStore) (accounts : Accounts) (fork : Fork)
    (complete : ∀ rpc ∈ fork.rpc, rpc.Complete) (keys : List Address) (steady : fork.SteadyOn accounts keys) (after : Fork)
    (inject : List (Address × Account)) (prep : Prepared accounts fork keys after (.ok inject))
    (kept : Extends after.store.get directory.get) :
    prepare accounts (fork.offline directory) keys = (after.offline directory, .ok inject) := by
  cases prep with
  | fetched middle fetched last programdata first resolution resolved second =>
    have keptMiddle := extends_trans _ last.store.get _ (fetch_extends _ _ _ _ second) kept
    have completeMiddle : ∀ rpc ∈ (middle.remember resolution.seen).rpc, rpc.Complete := by
      change ∀ rpc ∈ middle.rpc, rpc.Complete
      rw [(fetch_continues _ _ _ _ first).1.rpc]
      exact complete
    have replayFirst := fetch_offline directory (fork.remember (select accounts fork keys).seen) complete _ steady.first middle
      fetched first keptMiddle
    have replaySecond := fetch_offline directory (middle.remember resolution.seen) completeMiddle _
      (steady.second middle fetched first resolution resolved) last programdata second kept
    have same := fetched_offline directory _ _ _ _ first
    have sameLast := fetched_offline directory _ _ _ _ second
    subst resolved
    exact prepare_fetched accounts (fork.offline directory) keys (middle.offline directory) fetched (last.offline directory)
      programdata (replayFirst.trans (by rw [same])) (replaySecond.trans (by rw [sameLast]))

def Grows (svm : Svm) (outcome : Outcome) : Prop :=
  match svm.fork with
  | none => outcome.svm.fork = none
  | some fork => ∃ after, outcome.svm.fork = some after ∧ after.rpc = fork.rpc ∧ Extends fork.store.get after.store.get

theorem grows_quiet (svm after : Svm) (error : Option HarnessError) (same : after.fork = svm.fork) :
    Grows svm ⟨after, [], error⟩ := by
  rw [Grows]
  cases enabled : svm.fork with
  | none => exact same.trans enabled
  | some fork => exact ⟨fork, same.trans enabled, rfl, extends_refl _⟩

theorem grows_then (svm : Svm) (first : Outcome) (next : Svm → Outcome) (before : Grows svm first)
    (after : ∀ svm, Grows svm (next svm)) : Grows svm (first.andThen next) := by
  rw [Outcome.andThen]
  cases first.error with
  | some error => exact before
  | none =>
    have later := after first.svm
    rw [Grows] at before later ⊢
    cases enabled : svm.fork with
    | none =>
      simp only [enabled] at before
      simp only [before] at later
      exact later
    | some fork =>
      simp only [enabled] at before
      obtain ⟨middle, isMiddle, node, grown⟩ := before
      simp only [isMiddle] at later
      obtain ⟨last, isLast, nodeLater, grownLater⟩ := later
      exact ⟨last, isLast, nodeLater.trans node, extends_trans _ _ _ grown grownLater⟩

theorem ensure_grows (engine : Engine) (svm : Svm) (keys : List Address) : Grows svm (ensurePresent engine svm keys) := by
  cases enabled : svm.fork with
  | none =>
    rw [ensure_disabled engine svm keys enabled]
    exact grows_quiet svm svm none rfl
  | some fork =>
    have call := ensured engine svm fork keys enabled
    rw [Grows, enabled]
    generalize ensurePresent engine svm keys = outcome at call ⊢
    cases call with
    | stopped after error prep =>
      exact ⟨after, rfl, (prepared_continues _ _ _ _ _ prep).rpc, prepare_extends _ _ _ _ _ prep⟩
    | wrote after inject prep =>
      exact ⟨after, rfl, (prepared_continues _ _ _ _ _ prep).rpc, prepare_extends _ _ _ _ _ prep⟩

theorem grows_composes (engine : Engine) : Composes engine Grows := ⟨grows_quiet, grows_then, ensure_grows engine⟩

theorem step_grows (engine : Engine) (svm : Svm) (op : Op) : Grows svm (step engine svm op) := by
  by_cases running : op = .reset
  · subst running
    rw [Grows, step, done, reset]
    cases svm.fork with
    | none => rfl
    | some fork => exact ⟨_, rfl, rfl, extends_refl _⟩
  · exact step_composes engine Grows (grows_composes engine) svm op running

theorem grows_kept (directory : SnapshotStore) (svm : Svm) (outcome : Outcome) (grows : Grows svm outcome)
    (kept : ∀ fork ∈ outcome.svm.fork, Extends fork.store.get directory.get) :
    ∀ fork ∈ svm.fork, Extends fork.store.get directory.get := by
  intro fork enabled
  rw [Option.mem_def] at enabled
  rw [Grows, enabled] at grows
  obtain ⟨after, isAfter, _, grown⟩ := grows
  exact extends_trans _ _ _ grown (kept after isAfter)

theorem grows_complete (svm : Svm) (outcome : Outcome) (grows : Grows svm outcome)
    (complete : ∀ fork ∈ svm.fork, ∀ rpc ∈ fork.rpc, rpc.Complete) :
    ∀ fork ∈ outcome.svm.fork, ∀ rpc ∈ fork.rpc, rpc.Complete := by
  intro after isAfter
  cases enabled : svm.fork with
  | none =>
    rw [Grows, enabled] at grows
    cases grows.symm.trans isAfter
  | some fork =>
    rw [Grows, enabled] at grows
    obtain ⟨same, isSame, node, _⟩ := grows
    cases isSame.symm.trans isAfter
    rw [node]
    exact complete fork enabled

end WakeSol.Forking
