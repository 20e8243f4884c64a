import WakeSol.Forking.Local

/- Hydration against what the chain holds. The node and the snapshot directory
   say nothing untrue of the chain, so whatever is written is the chain's. -/
set_option autoImplicit false

namespace WakeSol.Forking

open TextLib RadixLib CacheLib Trace

-- What the chain may hold at an address. A chain that stands still is a
-- function; one that moves between requests has several answers.
structure Fork.Honest (truth : Address → Option Account → Prop) (fork : Fork) : Prop where
  stored : Agrees truth fork.store.get
  served : ∀ rpc ∈ fork.rpc, ∀ calls keys slot answers, rpc.getMultipleAccounts calls keys slot = .ok answers →
    List.Forall₂ truth keys answers

theorem chunks_flatten {α : Type} (items : List α) : (chunks items).flatten = items := by
  fun_induction chunks items with
  | case1 => rfl
  | case2 item rest ih => rw [List.flatten_cons, ih, List.take_append_drop]

section Honesty

variable (truth : Address → Option Account → Prop)

theorem request_all_honest (rpc : Rpc) (slot : UInt64) (requests : List (List Address)) (calls : Nat)
    (served : ∀ calls keys slot answers, rpc.getMultipleAccounts calls keys slot = .ok answers → List.Forall₂ truth keys answers)
    (after : Nat) (answers : List (Option Account)) (answered : requestAll rpc slot calls requests = (after, .ok answers)) :
    List.Forall₂ truth requests.flatten answers := by
  induction requests generalizing calls answers with
  | nil =>
    cases answered
    exact .nil
  | cons request rest ih =>
    rw [requestAll] at answered
    cases first : rpc.getMultipleAccounts calls request slot with
    | error text => simp [first] at answered
    | ok here =>
      simp only [first] at answered
      split at answered
      · cases (Prod.mk.inj answered).2
      · rename_i last more others
        obtain ⟨rfl, same⟩ := Prod.mk.inj answered
        cases same
        rw [List.flatten_cons]
        exact List.rel_append (served calls request slot here first) (ih (calls + 1) more others)

variable (fork : Fork)

theorem asked_honest (honest : fork.Honest truth) (keys : List Address) (calls : Nat)
    (answers : List (Option Account)) (asked : fork.Asked keys calls answers) :
    List.Forall₂ truth (misses fork.store.get keys) answers := by
  cases asked with
  | cached known =>
    rw [known]
    exact .nil
  | asked rpc online calls answers answered =>
    have complete := request_all_honest truth rpc _ _ _ (honest.served rpc online) _ _ answered
    rwa [chunks_flatten] at complete

theorem fetch_honest (keys : List Address) (after : Fork) (out : List (Option Account))
    (honest : fork.Honest truth) (fetched : fork.fetch keys = (after, .ok out)) :
    after.Honest truth ∧ List.Forall₂ truth keys out := by
  obtain ⟨calls, answers, asked, rfl, rfl⟩ := fetch_ok fork keys after out fetched
  have answered := asked_honest truth fork honest keys calls answers asked
  refine ⟨⟨?_, honest.served⟩, fill_agrees truth none _ keys answers honest.stored answered⟩
  rw [get_put_all]
  exact put_all_agrees truth _ _ answers honest.stored answered

theorem failed_fetch_honest (keys : List Address) (after : Fork) (error : HarnessError)
    (honest : fork.Honest truth) (failed : fork.fetch keys = (after, .error error)) : after.Honest truth := by
  obtain ⟨calls, rfl⟩ := fetch_error fork keys after error failed
  exact ⟨honest.stored, honest.served⟩

theorem remember_honest (seen : List Address) (honest : fork.Honest truth) : (fork.remember seen).Honest truth :=
  ⟨honest.stored, honest.served⟩

variable (accounts : Accounts)

theorem prepared_honest (fork : Fork) (keys : List Address) (after : Fork)
    (result : Except HarnessError (List (Address × Account))) (honest : fork.Honest truth)
    (prep : Prepared accounts fork keys after result) : after.Honest truth := by
  have start := remember_honest truth fork (select accounts fork keys).seen honest
  cases prep with
  | unfetched after error first => exact failed_fetch_honest truth _ _ _ _ start first
  | halfFetched middle fetched after error first resolution resolved second =>
    have half := (fetch_honest truth _ _ _ _ start first).1
    exact failed_fetch_honest truth _ _ _ _ (remember_honest truth _ _ half) second
  | fetched middle fetched last programdata first resolution resolved second =>
    have half := (fetch_honest truth _ _ _ _ start first).1
    have whole := (fetch_honest truth _ _ _ _ (remember_honest truth _ _ half) second).1
    exact remember_honest truth _ _ whole

theorem ensure_honest (engine : Engine) (svm : Svm) (keys : List Address)
    (honest : ∀ fork ∈ svm.fork, fork.Honest truth) :
    ∀ fork ∈ (ensurePresent engine svm keys).svm.fork, fork.Honest truth := by
  cases enabled : svm.fork with
  | none =>
    rw [ensure_disabled engine svm keys enabled]
    exact honest
  | some fork =>
    have call := ensured engine svm fork keys enabled
    generalize ensurePresent engine svm keys = outcome at call ⊢
    cases call with
    | stopped after error prep =>
      rintro _ ⟨⟩
      exact prepared_honest truth _ _ _ _ _ (honest fork enabled) prep
    | wrote after inject prep =>
      rintro _ ⟨⟩
      exact prepared_honest truth _ _ _ _ _ (honest fork enabled) prep

structure Fork.Takes (fork : Fork) (entry : Address × Account) : Prop where
  held : truth entry.1 (some entry.2)
  notExcluded : ¬ fork.excludes entry.1
  allowed : entry.2.owner ∉ fork.excludePrograms

-- An account is written because it was asked for, or because a program that is
-- written points to it; in the second case its owner is not looked at.
inductive Fork.Sourced (fork : Fork) (accounts : Accounts) (entry : Address × Account) : Prop where
  | direct (taken : fork.Takes truth entry)
  | followed (held : truth entry.1 (some entry.2)) (program : Address × Account) (taken : fork.Takes truth program)
      (points : fork.Points accounts program entry.1)

theorem points_before (fork middle : Fork) (continues : fork.Continues middle) (accounts : Accounts)
    (entry : Address × Account) (pd : Address) (points : middle.Points accounts entry pd) : fork.Points accounts entry pd :=
  ⟨points.executable, points.loader, points.address, fun before => points.unseen (continues.seen _ before),
    continues.excludeAddrs ▸ points.notExcluded, points.missing⟩

theorem admitted_taken (fork : Fork) (keys : List Address) (middle : Fork)
    (fetched : List (Option Account)) (honest : fork.Honest truth)
    (first : (fork.remember (select accounts fork keys).seen).fetch (select accounts fork keys).candidates =
      (middle, .ok fetched)) (entry : Address × Account)
    (inside : entry ∈ ((select accounts fork keys).candidates.zip fetched).filterMap middle.admits) :
    fork.Takes truth entry ∧ fork.wants accounts entry.1 := by
  obtain ⟨pair, asked, admitted⟩ := List.mem_filterMap.mp inside
  obtain ⟨rfl, allowed⟩ := admits_some middle pair entry admitted
  have answered := (fetch_honest truth _ _ _ _ (remember_honest truth fork _ honest) first).2
  have wanted := (candidate_wanted accounts fork keys entry.1 (List.of_mem_zip asked).1).2
  have settings := (fetch_continues _ _ _ _ first).1.excludePrograms
  rw [settings] at allowed
  exact ⟨⟨List.forall₂_zip answered asked, wanted.2.1, allowed⟩, wanted⟩

theorem prepared_sourced (fork : Fork) (keys : List Address) (after : Fork)
    (inject : List (Address × Account)) (honest : fork.Honest truth) (prep : Prepared accounts fork keys after (.ok inject))
    (entry : Address × Account) (inside : entry ∈ inject) : fork.Sourced truth accounts entry := by
  cases prep with
  | fetched middle fetched last programdata first resolution resolved second =>
    have start := continues_trans _ _ _ (selected_continues accounts fork keys) (fetch_continues _ _ _ _ first).1
    have half := (fetch_honest truth _ _ _ _ (remember_honest truth fork _ honest) first).1
    have taken := admitted_taken truth accounts fork keys middle fetched honest first
    rw [programs_last_mem, List.mem_append] at inside
    rcases inside with direct | followed
    · rw [← resolved, resolve_inject] at direct
      exact .direct (taken entry direct).1
    · obtain ⟨pair, asked, found⟩ := List.mem_filterMap.mp followed
      obtain rfl := present_some pair entry found
      have answered := (fetch_honest truth _ _ _ _ (remember_honest truth _ _ half) second).2
      have isFollowup := (List.of_mem_zip asked).1
      rw [← resolved] at isFollowup
      obtain ⟨program, written, points⟩ := resolve_followups accounts middle _ entry.1 isFollowup
      exact .followed (List.forall₂_zip answered asked) program (taken program written).1
        (points_before fork middle start accounts program entry.1 points)

theorem sourced_held (entry : Address × Account)
    (sourced : fork.Sourced truth accounts entry) : truth entry.1 (some entry.2) := by
  cases sourced with
  | direct taken => exact taken.held
  | followed held program taken points => exact held

inductive Fork.Settled (fork : Fork) (address : Address) : Prop where
  | excluded (out : fork.excludes address)
  | absent (nothing : truth address none)
  | blanked (account : Account) (held : truth address (some account)) (owner : account.owner ∈ fork.excludePrograms)

theorem settled_continues (fork after : Fork) (continues : fork.Continues after) (address : Address) :
    after.Settled truth address ↔ fork.Settled truth address := by
  have programs := continues.excludePrograms
  have addrs := continues.excludeAddrs
  constructor
  · intro settled
    cases settled with
    | excluded out => exact .excluded (by rwa [Fork.excludes, programs, addrs] at out)
    | absent nothing => exact .absent nothing
    | blanked account held owner => exact .blanked account held (programs ▸ owner)
  · intro settled
    cases settled with
    | excluded out => exact .excluded (by rwa [Fork.excludes, programs, addrs])
    | absent nothing => exact .absent nothing
    | blanked account held owner => exact .blanked account held (programs ▸ owner)

theorem selected_settled (fork : Fork) (keys : List Address) (address : Address)
    (inside : address ∈ (select accounts fork keys).seen) : address ∈ fork.seen ∨ fork.Settled truth address := by
  rcases (select_seen accounts fork keys address).mp inside with before | ⟨_, out⟩
  · exact .inl before
  · exact .inr (.excluded out)

theorem answered_settled (fork middle : Fork) (settings : middle.excludePrograms = fork.excludePrograms) (asked : List Address)
    (answers : List (Option Account)) (answered : List.Forall₂ truth asked answers) (address : Address)
    (inside : address ∈ (asked.zip answers).map Prod.fst) :
    fork.Settled truth address ∨ ∃ account, (address, account) ∈ (asked.zip answers).filterMap middle.admits := by
  obtain ⟨pair, isPair, rfl⟩ := List.mem_map.mp inside
  obtain ⟨address, answer⟩ := pair
  have said := List.forall₂_zip answered isPair
  cases answer with
  | none => exact .inl (.absent said)
  | some account =>
    by_cases blanked : account.owner ∈ fork.excludePrograms
    · exact .inl (.blanked account said blanked)
    · refine .inr ⟨account, List.mem_filterMap.mpr ⟨_, isPair, ?_⟩⟩
      simp [Fork.admits, settings, blanked]

theorem prepared_settled (fork : Fork) (keys : List Address) (after : Fork)
    (inject : List (Address × Account)) (honest : fork.Honest truth) (prep : Prepared accounts fork keys after (.ok inject))
    (address : Address) (inside : address ∈ after.seen) :
    address ∈ fork.seen ∨ fork.Settled truth address ∨ address ∈ inject.map Prod.fst := by
  cases prep with
  | fetched middle fetched last programdata first resolution resolved second =>
    obtain ⟨half, answered⟩ := fetch_honest truth _ _ _ _ (remember_honest truth fork _ honest) first
    have answeredLater := (fetch_honest truth _ _ _ _ (remember_honest truth _ _ half) second).2
    have settings := (fetch_continues _ _ _ _ first).1.excludePrograms
    have planned : ∀ account, (address, account) ∈
        resolution.inject ++ (resolution.followups.zip programdata).filterMap present →
        address ∈ (programsLast (resolution.inject ++ (resolution.followups.zip programdata).filterMap present)).map
          Prod.fst :=
      fun account entry => List.mem_map.mpr ⟨_, (programs_last_mem _ _).mpr entry, rfl⟩
    rw [Fork.remember, List.mem_append, List.mem_reverse, (fetch_continues _ _ _ _ second).2, Fork.remember, ← resolved,
      resolve_seen, List.mem_append, List.mem_reverse, (fetch_continues _ _ _ _ first).2] at inside
    rcases inside with followed | asked | selected
    · rw [resolved] at followed
      obtain ⟨pair, isPair, rfl⟩ := List.mem_map.mp followed
      obtain ⟨address, answer⟩ := pair
      have said := List.forall₂_zip answeredLater isPair
      cases answer with
      | none => exact .inr (.inl (.absent said))
      | some account =>
        refine .inr (.inr (planned account (List.mem_append_right _ ?_)))
        exact List.mem_filterMap.mpr ⟨_, isPair, rfl⟩
    · rcases answered_settled truth fork middle settings _ fetched answered address asked with settled | ⟨account, written⟩
      · exact .inr (.inl settled)
      · refine .inr (.inr (planned account (List.mem_append_left _ ?_)))
        rwa [← resolved, resolve_inject]
    · rcases selected_settled truth accounts fork keys address selected with before | settled
      · exact .inl before
      · exact .inr (.inl settled)

theorem half_fetched_forgets (fork : Fork) (keys : List Address) (middle : Fork)
    (fetched : List (Option Account)) (after : Fork) (error : HarnessError) (honest : fork.Honest truth)
    (first : (fork.remember (select accounts fork keys).seen).fetch (select accounts fork keys).candidates =
      (middle, .ok fetched)) (resolution : Resolution)
    (resolved : resolveCandidates accounts middle ((select accounts fork keys).candidates.zip fetched) = resolution)
    (second : (middle.remember resolution.seen).fetch resolution.followups = (after, .error error)) :
    ∃ program, fork.Takes truth program ∧ program.1 ∉ fork.seen ∧ program.1 ∈ after.seen := by
  cases asked : resolution.followups with
  | nil =>
    rw [asked] at second
    cases (Prod.mk.inj second).2
  | cons pd rest =>
    have isFollowup : pd ∈ resolution.followups := by simp [asked]
    rw [← resolved] at isFollowup
    obtain ⟨program, written, points⟩ := resolve_followups accounts middle _ pd isFollowup
    obtain ⟨taken, wanted⟩ := admitted_taken truth accounts fork keys middle fetched honest first program written
    refine ⟨program, taken, wanted.1, ?_⟩
    obtain ⟨pair, isPair, admitted⟩ := List.mem_filterMap.mp written
    rw [(fetch_continues _ _ _ _ second).2, Fork.remember, ← resolved, resolve_seen]
    refine List.mem_append_left _ (List.mem_reverse.mpr (List.mem_map.mpr ⟨pair, isPair, ?_⟩))
    rw [(admits_some middle pair program admitted).1]

end Honesty

def holds (chain : Accounts) (address : Address) (answer : Option Account) : Prop := answer = chain address

instance (fork : Fork) (chain : Accounts) (address : Address) : Decidable (fork.Settled (holds chain) address) :=
  decidable_of_iff (fork.excludes address ∨ ∀ account ∈ chain address, account.owner ∈ fork.excludePrograms) (by
    constructor
    · rintro (out | owned)
      · exact .excluded out
      · cases held : chain address with
        | none => exact .absent held.symm
        | some account => exact .blanked account held.symm (owned account held)
    · intro settled
      cases settled with
      | excluded out => exact .inl out
      | absent nothing => exact .inr fun account held => by rw [← nothing] at held; cases held
      | blanked account held owner =>
        refine .inr fun other found => ?_
        rw [← held] at found
        cases found
        exact owner)

variable (fork : Fork) (chain : Accounts)

theorem taken_unsettled (entry : Address × Account) (taken : fork.Takes (holds chain) entry) :
    ¬ fork.Settled (holds chain) entry.1 := by
  intro settled
  cases settled with
  | excluded out => exact taken.notExcluded out
  | absent nothing => cases nothing.trans taken.held.symm
  | blanked account held owner =>
    cases held.trans taken.held.symm
    exact taken.allowed owner

theorem stored_last (writes : List (Address × Account)) (accounts : Accounts) (address : Address) (account : Account)
    (inside : (address, account) ∈ writes) (only : ∀ other, (address, other) ∈ writes → other = account)
    (living : account.lamports ≠ 0) :
    writes.foldl (fun accounts entry => storeAccount accounts entry.1 entry.2) accounts address = some account := by
  induction writes generalizing accounts with
  | nil => cases inside
  | cons entry rest ih =>
    rw [List.foldl_cons]
    by_cases later : address ∈ rest.map Prod.fst
    · obtain ⟨⟨_, other⟩, inRest, rfl⟩ := List.mem_map.mp later
      obtain rfl := only other (List.mem_cons_of_mem _ inRest)
      exact ih _ inRest fun other inRest => only other (List.mem_cons_of_mem _ inRest)
    · have here : entry = (address, account) := by
        rcases List.mem_cons.mp inside with same | inRest
        · exact same.symm
        · exact absurd (List.mem_map_of_mem inRest) later
      rw [stored_elsewhere rest _ address later, here, storeAccount, if_pos rfl, if_neg living]

theorem written_resident (engine : Engine) (chain : Accounts) (accounts : Accounts) (inject : List (Address × Account))
    (genuine : ∀ entry ∈ inject, chain entry.1 = some entry.2) (address : Address) (account : Account)
    (held : chain address = some account) (living : account.lamports ≠ 0)
    (written : address ∈ (setAll engine accounts inject).injected.map Prod.fst) :
    (setAll engine accounts inject).accounts address = some account := by
  obtain ⟨⟨_, other⟩, inside, rfl⟩ := List.mem_map.mp written
  have planned := (set_all_initial engine accounts inject).subset
  have same : other = account := Option.some.inj ((genuine _ (planned inside)).symm.trans held)
  rw [same] at inside
  rw [set_all_accounts]
  refine stored_last _ accounts _ account inside (fun other inside => ?_) living
  exact Option.some.inj ((genuine _ (planned inside)).symm.trans held)

variable (accounts : Accounts)

theorem prepared_genuine (fork : Fork) (keys : List Address) (after : Fork)
    (inject : List (Address × Account)) (honest : fork.Honest (holds chain))
    (prep : Prepared accounts fork keys after (.ok inject)) : ∀ entry ∈ inject, chain entry.1 = some entry.2 := by
  intro entry inside
  have sourced := prepared_sourced (holds chain) _ _ _ _ _ honest prep entry inside
  exact (sourced_held (holds chain) fork accounts entry sourced).symm

theorem prepared_asked (truth : Address → Option Account → Prop) (accounts : Accounts) (fork : Fork) (keys : List Address)
    (after : Fork) (inject : List (Address × Account)) (honest : fork.Honest truth)
    (prep : Prepared accounts fork keys after (.ok inject)) (address : Address) (asked : address ∈ keys)
    (wanted : fork.wants accounts address) : address ∈ after.seen := by
  cases prep with
  | fetched middle fetched last programdata first resolution resolved second =>
    have answered := (fetch_honest truth _ _ _ _ (remember_honest truth fork _ honest) first).2
    have candidate : address ∈ (select accounts fork keys).candidates := by
      rw [select_candidates]
      exact List.mem_filter.mpr ⟨asked, by simpa using wanted⟩
    rw [Fork.remember, (fetch_continues _ _ _ _ second).2, Fork.remember, ← resolved, resolve_seen,
      List.map_fst_zip (Nat.le_of_eq answered.length_eq)]
    exact List.mem_append_right _ (List.mem_append_left _ (List.mem_reverse.mpr candidate))

theorem ensure_reads (engine : Engine) (chain : Accounts) (svm : Svm) (fork : Fork) (enabled : svm.fork = some fork)
    (honest : fork.Honest (holds chain)) (keys : List Address) (address : Address) (account : Account)
    (asked : address ∈ keys) (wanted : fork.wants svm.accounts address) (taken : fork.Takes (holds chain) (address, account))
    (living : account.lamports ≠ 0) (done : (ensurePresent engine svm keys).error = none) :
    (ensurePresent engine svm keys).svm.accounts address = some account := by
  have call := ensured engine svm fork keys enabled
  generalize ensurePresent engine svm keys = outcome at call done ⊢
  cases call with
  | stopped after error prep => cases done
  | wrote after inject prep =>
    have complete := set_all_done engine svm.accounts inject (Option.map_eq_none_iff.mp done)
    have genuine := prepared_genuine chain _ _ _ _ _ honest prep
    apply written_resident engine chain svm.accounts inject genuine address account taken.held.symm living
    rw [complete]
    have remembered := prepared_asked (holds chain) _ _ _ _ _ honest prep address asked wanted
    rcases prepared_settled (holds chain) _ _ _ _ _ honest prep address remembered with before | settled | written
    · exact absurd before wanted.1
    · exact absurd settled (taken_unsettled fork chain (address, account) taken)
    · exact written

def nodeOf (chain : Accounts) : Rpc where
  getMultipleAccounts := fun _ keys _ => .ok (keys.map chain)
  getSlot := .ok 7
  getBlockTime := fun _ => none
  getLatestBlockhash := none

theorem node_honest (fork : Fork) (online : fork.rpc = some (nodeOf chain))
    (empty : fork.store = emptyDirectory) : fork.Honest (holds chain) := by
  constructor
  · intro address answer found
    rw [empty] at found
    cases found
  · intro rpc isNode calls keys slot answers answered
    rw [online] at isNode
    cases isNode
    cases answered
    rw [List.forall₂_map_right_iff, List.forall₂_same]
    exact fun address _ => rfl

end WakeSol.Forking
