import WakeSol.Forking.Recorded

/- The fetch as the code runs it. One pass over the keys builds the result with gaps
   and two parallel lists, the missing keys and their places; the answers come in
   batches and are scattered back to the places. -/
set_option autoImplicit false

namespace WakeSol.Forking

open TextLib RadixLib CacheLib

structure FetchScan where
  out : List (Option Account)
  miss : List Address
  missIdx : List Nat

def scanKey (store : SnapshotStore) (scan : FetchScan) (entry : Address × Nat) : FetchScan :=
  match store.get entry.1 with
  | some cached => { scan with out := scan.out ++ [cached] }
  | none => ⟨scan.out ++ [none], scan.miss ++ [entry.1], scan.missIdx ++ [entry.2]⟩

def scanKeys (store : SnapshotStore) (keys : List Address) : FetchScan := keys.zipIdx.foldl (scanKey store) ⟨[], [], []⟩

def deliver (state : SnapshotStore × List (Option Account)) (answer : (Address × Option Account) × Nat) :
    SnapshotStore × List (Option Account) :=
  (state.1.put answer.1.1 answer.1.2, state.2.set answer.2 answer.1.2)

def Fork.fetchLoop (fork : Fork) (keys : List Address) : Fork × Except HarnessError (List (Option Account)) :=
  let scan := scanKeys fork.store keys
  match scan.miss with
  | [] => (fork, .ok scan.out)
  | first :: _ =>
    match fork.rpc with
    | none => (fork, .error (.offlineMiss scan.miss.length first))
    | some rpc =>
      match requestAll rpc fork.minContextSlot fork.calls (chunks scan.miss) with
      | (calls, .error text) => ({ fork with calls := calls }, .error (.rpc text))
      | (calls, .ok fetched) =>
        let delivered := ((scan.miss.zip fetched).zip scan.missIdx).foldl deliver (fork.store, scan.out)
        ({ fork with store := delivered.1, calls := calls }, .ok delivered.2)

theorem scan_from (store : SnapshotStore) (keys : List Address) (base : Nat) (scan : FetchScan) :
    (keys.zipIdx base).foldl (scanKey store) scan =
      ⟨scan.out ++ (keys.map store.get).map (Option.getD · none), scan.miss ++ misses store.get keys,
        scan.missIdx ++ missPlaces base (keys.map store.get)⟩ := by
  induction keys generalizing base scan with
  | nil => simp [misses, missPlaces]
  | cons key rest ih =>
    rw [List.zipIdx_cons, List.foldl_cons, ih, scanKey]
    cases known : store.get key with
    | some cached => simp [misses, missPlaces, known]
    | none => simp [misses, missPlaces, known]

theorem scan_keys (store : SnapshotStore) (keys : List Address) :
    scanKeys store keys =
      ⟨(keys.map store.get).map (Option.getD · none), misses store.get keys, missPlaces 0 (keys.map store.get)⟩ :=
  scan_from store keys 0 ⟨[], [], []⟩

theorem deliver_apart (keys : List Address) (fetched : List (Option Account)) (places : List Nat)
    (size : keys.length = places.length) (store : SnapshotStore) (out : List (Option Account)) :
    ((keys.zip fetched).zip places).foldl deliver (store, out) =
      (store.putAll (keys.zip fetched), scatter out (fetched.zip places)) := by
  induction keys generalizing fetched places store out with
  | nil =>
    rw [List.length_nil] at size
    simp [List.length_eq_zero_iff.mp size.symm, scatter, SnapshotStore.putAll]
  | cons key rest ih =>
    cases fetched with
    | nil => rfl
    | cons answer more =>
      cases places with
      | nil => simp at size
      | cons place others =>
        have later := ih more others (by simpa using size) (store.put key answer) (out.set place answer)
        rw [List.zip_cons_cons, List.zip_cons_cons, List.foldl_cons, deliver, later]
        rfl

theorem places_length (store : SnapshotStore) (keys : List Address) (base : Nat) :
    (misses store.get keys).length = (missPlaces base (keys.map store.get)).length := by
  induction keys generalizing base with
  | nil => rfl
  | cons key rest ih =>
    have later := ih (base + 1)
    rw [misses] at later
    cases known : store.get key with
    | some cached => simpa [misses, missPlaces, known] using later
    | none => simpa [misses, missPlaces, known] using later

theorem fetch_loop (fork : Fork) (keys : List Address) : fork.fetchLoop keys = fork.fetch keys := by
  have filled := fun fetched => scatter_fill none (keys.map fork.store.get) fetched []
  simp only [List.nil_append, List.length_nil] at filled
  rw [Fork.fetchLoop, scan_keys, Fork.fetch]
  dsimp only
  cases missing : misses fork.store.get keys with
  | nil => exact congrArg (fun out => (fork, Except.ok out)) (filled [])
  | cons first rest =>
    dsimp only
    cases fork.rpc with
    | none => rfl
    | some rpc =>
      dsimp only
      cases requestAll rpc fork.minContextSlot fork.calls (chunks (first :: rest)) with
      | mk calls result =>
        cases result with
        | error text => rfl
        | ok fetched =>
          dsimp only
          rw [← missing, deliver_apart _ _ _ (places_length fork.store keys 0), filled]

theorem chunks_cons {α : Type} (items : List α) (nonempty : items ≠ []) :
    chunks items = items.take 100 :: chunks (items.drop 100) := by
  cases items with
  | nil => exact absurd rfl nonempty
  | cons item rest => rw [chunks]

theorem chunks_take {α : Type} (items : List α) (b : Nat) : ((chunks items).take b).flatten = items.take (100 * b) := by
  induction b generalizing items with
  | zero => simp
  | succ b ih =>
    by_cases empty : items = []
    · simp [empty, chunks]
    · rw [chunks_cons items empty, List.take_succ_cons, List.flatten_cons, ih, ← List.take_add]
      congr 1
      omega

theorem chunks_get {α : Type} (items : List α) (b : Nat) (inside : 100 * b < items.length) :
    (chunks items)[b]? = some ((items.drop (100 * b)).take 100) := by
  induction b generalizing items with
  | zero =>
    have nonempty : items ≠ [] := List.length_pos_iff.mp (by omega)
    rw [chunks_cons items nonempty]
    rfl
  | succ b ih =>
    have nonempty : items ≠ [] := List.length_pos_iff.mp (by omega)
    have later := ih (items.drop 100) (by rw [List.length_drop]; omega)
    rw [chunks_cons items nonempty, List.getElem?_cons_succ, later, List.drop_drop]
    congr 3
    omega

theorem request_all_at (rpc : Rpc) (complete : rpc.Complete) (slot : UInt64) (requests : List (List Address)) (calls after : Nat)
    (answers : List (Option Account)) (answered : requestAll rpc slot calls requests = (after, .ok answers)) (b : Nat)
    (request : List Address) (isRequest : requests[b]? = some request) :
    ∃ served, rpc.getMultipleAccounts (calls + b) request slot = .ok served ∧
      ∀ k, k < request.length → answers[(requests.take b).flatten.length + k]? = served[k]? := by
  induction requests generalizing calls answers b with
  | nil => simp at isRequest
  | cons first rest ih =>
    rw [requestAll] at answered
    cases here : rpc.getMultipleAccounts calls first slot with
    | error text => simp [here] at answered
    | ok own =>
      simp only [here] at answered
      split at answered
      · cases (Prod.mk.inj answered).2
      · rename_i last more others
        obtain ⟨rfl, same⟩ := Prod.mk.inj answered
        cases same
        have size := complete calls first slot own here
        cases b with
        | zero =>
          cases isRequest
          refine ⟨own, here, fun k small => ?_⟩
          rw [List.take_zero, List.flatten_nil, List.length_nil, Nat.zero_add, List.getElem?_append_left (by omega)]
        | succ b =>
          obtain ⟨served, isServed, each⟩ := ih (calls + 1) more others b isRequest
          refine ⟨served, by rwa [Nat.add_right_comm] at isServed, fun k small => ?_⟩
          rw [List.take_succ_cons, List.flatten_cons, List.length_append, ← each k small,
            List.getElem?_append_right (by omega)]
          congr 1
          omega

theorem request_all_fails (rpc : Rpc) (slot : UInt64) (requests : List (List Address)) (calls : Nat) :
    (∃ after text, requestAll rpc slot calls requests = (after, .error text)) ↔
      ∃ b request text, requests[b]? = some request ∧ rpc.getMultipleAccounts (calls + b) request slot = .error text := by
  induction requests generalizing calls with
  | nil => simp [requestAll]
  | cons first rest ih =>
    have others := ih (calls + 1)
    rw [requestAll]
    cases here : rpc.getMultipleAccounts calls first slot with
    | error text => exact ⟨fun _ => ⟨0, first, text, rfl, here⟩, fun _ => ⟨calls + 1, text, rfl⟩⟩
    | ok own =>
      have shifted : (∃ b request text, (first :: rest)[b]? = some request ∧
          rpc.getMultipleAccounts (calls + b) request slot = .error text) ↔
          ∃ b request text, rest[b]? = some request ∧ rpc.getMultipleAccounts (calls + 1 + b) request slot = .error text := by
        constructor
        · rintro ⟨b, request, text, isRequest, failed⟩
          cases b with
          | zero =>
            cases isRequest
            rw [Nat.add_zero, here] at failed
            cases failed
          | succ b => exact ⟨b, request, text, isRequest, by rwa [Nat.add_right_comm]⟩
        · rintro ⟨b, request, text, isRequest, failed⟩
          exact ⟨b + 1, request, text, isRequest, by rwa [Nat.add_right_comm] at failed⟩
      rw [shifted, ← others]
      dsimp only
      cases requestAll rpc slot (calls + 1) rest with
      | mk after result => cases result <;> simp

def Fork.AnswerAt (fork : Fork) (rpc : Rpc) (keys : List Address) (i : Nat) (account : Option Account) : Prop :=
  let rank := (misses fork.store.get (keys.take i)).length
  let batch := ((misses fork.store.get keys).drop (100 * (rank / 100))).take 100
  ∃ answers, rpc.getMultipleAccounts (fork.calls + rank / 100) batch fork.minContextSlot = .ok answers ∧
    batch[rank % 100]? = keys[i]? ∧ answers[rank % 100]? = some account

theorem miss_at (store : SnapshotStore) (keys : List Address) (i : Nat) (key : Address) (isKey : keys[i]? = some key)
    (missing : store.get key = none) :
    (misses store.get keys)[(misses store.get (keys.take i)).length]? = some key := by
  obtain ⟨inside, rfl⟩ := List.getElem?_eq_some_iff.mp isKey
  have split : keys = keys.take i ++ keys[i] :: keys.drop (i + 1) := by simp
  have parts : misses store.get keys = misses store.get (keys.take i) ++ keys[i] :: misses store.get (keys.drop (i + 1)) := by
    nth_rewrite 1 [split]
    rw [misses, List.filter_append, List.filter_cons_of_pos (by simpa using missing)]
    rfl
  rw [parts]
  simp

theorem answer_at (fork : Fork) (keys : List Address) (rpc : Rpc) (complete : rpc.Complete) (calls : Nat)
    (fetched : List (Option Account))
    (answered : requestAll rpc fork.minContextSlot fork.calls (chunks (misses fork.store.get keys)) = (calls, .ok fetched))
    (i : Nat) (key : Address) (isKey : keys[i]? = some key) (missing : fork.store.get key = none) :
    ∃ account, fork.AnswerAt rpc keys i account ∧
      fetched[(misses fork.store.get (keys.take i)).length]? = some account := by
  have isMiss := miss_at fork.store keys i key isKey missing
  generalize isRank : (misses fork.store.get (keys.take i)).length = rank at isMiss ⊢
  obtain ⟨inside, _⟩ := List.getElem?_eq_some_iff.mp isMiss
  have isBatch := chunks_get (misses fork.store.get keys) (rank / 100) (by omega)
  obtain ⟨served, isServed, each⟩ := request_all_at rpc complete _ _ _ _ _ answered (rank / 100) _ isBatch
  have size := complete _ _ _ _ isServed
  rw [List.length_take, List.length_drop] at size
  have small : rank % 100 < served.length := by omega
  have place := each (rank % 100) (by rw [List.length_take, List.length_drop]; omega)
  rw [chunks_take, List.length_take, Nat.min_eq_left (by omega), Nat.div_add_mod] at place
  refine ⟨served[rank % 100], ⟨served, ?_, ?_, ?_⟩, ?_⟩
  · rw [isRank]
    exact isServed
  · rw [isRank, isKey, ← isMiss, List.getElem?_take_of_lt (Nat.mod_lt _ (by omega)), List.getElem?_drop, Nat.div_add_mod]
  · rw [isRank, List.getElem?_eq_getElem small]
  · rw [place, List.getElem?_eq_getElem small]

theorem fetch_entry (fork : Fork) (keys : List Address) (complete : ∀ rpc ∈ fork.rpc, rpc.Complete) (calls : Nat)
    (fetched : List (Option Account)) (asked : fork.Asked keys calls fetched) (i : Nat) (key : Address)
    (isKey : keys[i]? = some key) (missing : fork.store.get key = none) :
    ∃ rpc account, fork.rpc = some rpc ∧ fork.AnswerAt rpc keys i account ∧
      (fill none (keys.map fork.store.get) fetched)[i]? = some account := by
  cases asked with
  | cached known =>
    have isMiss := miss_at fork.store keys i key isKey missing
    rw [known] at isMiss
    cases isMiss
  | asked rpc online calls fetched answered =>
    obtain ⟨account, isAnswer, place⟩ :=
      answer_at fork keys rpc (complete rpc online) calls fetched answered i key isKey missing
    refine ⟨rpc, account, online, isAnswer, ?_⟩
    rw [fill_get, misses_rank, place, List.getElem?_map, isKey]
    simp [missing]

theorem cached_entry (fork : Fork) (keys : List Address) (fetched : List (Option Account)) (i : Nat) (key : Address)
    (isKey : keys[i]? = some key) (entry : Option Account) (known : fork.store.get key = some entry) :
    (fill none (keys.map fork.store.get) fetched)[i]? = some entry := by
  rw [fill_get, List.getElem?_map, isKey]
  simp [known]

theorem put_all_files (store : SnapshotStore) (pairs : List (Address × Option Account)) (path : Text)
    (foreign : ∀ pair ∈ pairs, path ≠ snapshotPath pair.1) : (store.putAll pairs).files path = store.files path := by
  induction pairs generalizing store with
  | nil => rfl
  | cons pair rest ih =>
    have later := ih (store.put pair.1 pair.2) fun other inside => foreign other (List.mem_cons_of_mem _ inside)
    rw [SnapshotStore.putAll] at later
    rw [SnapshotStore.putAll, List.foldl_cons, later, SnapshotStore.put]
    exact if_neg (foreign pair List.mem_cons_self)

theorem fetch_fails_iff (fork : Fork) (keys : List Address) :
    (∃ after error, fork.fetch keys = (after, .error error)) ↔
      (fork.rpc = none ∧ misses fork.store.get keys ≠ []) ∨
      ∃ rpc, fork.rpc = some rpc ∧ ∃ b batch text, (chunks (misses fork.store.get keys))[b]? = some batch ∧
        rpc.getMultipleAccounts (fork.calls + b) batch fork.minContextSlot = .error text := by
  rw [Fork.fetch]
  cases missing : misses fork.store.get keys with
  | nil => simp [chunks]
  | cons first rest =>
    cases online : fork.rpc with
    | none => simp
    | some rpc =>
      have fails := request_all_fails rpc fork.minContextSlot (chunks (first :: rest)) fork.calls
      simp only [Option.some.injEq, exists_eq_left', reduceCtorEq, false_and, false_or]
      rw [← fails]
      cases requestAll rpc fork.minContextSlot fork.calls (chunks (first :: rest)) with
      | mk calls result => cases result <;> simp

theorem some_missing (store : SnapshotStore) (keys : List Address) :
    misses store.get keys ≠ [] ↔ ∃ key ∈ keys, store.get key = none := by
  rw [misses, ne_eq, List.filter_eq_nil_iff]
  simp

structure FetchedAs (fork : Fork) (keys : List Address) (after : Fork) (out : List (Option Account)) : Prop where
  length : out.length = keys.length
  cached : ∀ (i : Nat) key entry, keys[i]? = some key → fork.store.get key = some entry → out[i]? = some entry
  answered : ∀ (i : Nat) key, keys[i]? = some key → fork.store.get key = none →
    ∃ rpc account, fork.rpc = some rpc ∧ fork.AnswerAt rpc keys i account ∧ out[i]? = some account
  added : ∀ key ∈ keys, fork.store.get key = none → ∃ front account back,
    keys.zip out = front ++ (key, account) :: back ∧ key ∉ back.map Prod.fst ∧ after.store.get key = some account
  agreed : fork.Steady keys → ∀ (i : Nat) key, keys[i]? = some key → after.store.get key = out[i]?
  others : ∀ path, (∀ key ∈ keys, fork.store.get key = none → path ≠ snapshotPath key) →
    after.store.files path = fork.store.files path

theorem fetched_as (fork : Fork) (keys : List Address) (complete : ∀ rpc ∈ fork.rpc, rpc.Complete) (after : Fork)
    (out : List (Option Account)) (ran : fork.fetch keys = (after, .ok out)) : FetchedAs fork keys after out := by
  obtain ⟨calls, fetched, asked, rfl, rfl⟩ := fetch_ok fork keys after out ran
  have size := asked_length fork complete keys calls fetched asked
  have length : (fill none (keys.map fork.store.get) fetched).length = keys.length := by rw [fill_length, List.length_map]
  have stored : (fork.store.putAll ((misses fork.store.get keys).zip fetched)).get =
      putAll fork.store.get (keys.zip (fill none (keys.map fork.store.get) fetched)) := by
    rw [get_put_all, put_all_fill none fork.store.get fork.store.get keys fetched size (extends_refl _)]
  refine ⟨length, fun i key entry isKey known => cached_entry fork keys fetched i key isKey entry known,
    fun i key isKey missing => fetch_entry fork keys complete calls fetched asked i key isKey missing, ?_, ?_, ?_⟩
  · intro key inside _
    change ∃ front account back, _ ∧ _ ∧ (fork.store.putAll _).get key = _
    rw [stored]
    apply put_all_last
    rw [List.map_fst_zip length.ge]
    exact inside
  · intro steady i key isKey
    change (fork.store.putAll _).get key = _
    have consistent := steady calls fetched asked
    have larger := fill_answers none fork.store.get (fork.store.putAll ((misses fork.store.get keys).zip fetched)).get keys fetched
      size (by
        have grows := fetch_extends fork keys _ _ ran
        exact grows) (fun pair inside => by
        rw [get_put_all]
        exact put_all_consistent _ _ consistent pair inside)
    have here := congrArg (fun entries => entries[i]?) larger
    simp only [List.getElem?_map, isKey, Option.map_some] at here
    cases entry : (fill none (keys.map fork.store.get) fetched)[i]? with
    | none =>
      rw [entry] at here
      cases here
    | some account =>
      rw [entry, Option.map_some, Option.some.injEq] at here
      exact here
  · intro path foreign
    apply put_all_files
    intro pair inside
    have missing := List.mem_filter.mp (List.of_mem_zip inside).1
    exact foreign pair.1 missing.1 (by simpa using missing.2)

theorem fetch_correct (fork : Fork) (keys : List Address) (complete : ∀ rpc ∈ fork.rpc, rpc.Complete) :
    (∀ after out, fork.fetchLoop keys = (after, .ok out) → FetchedAs fork keys after out) ∧
    (∀ after error, fork.fetchLoop keys = (after, .error error) → after.store = fork.store) ∧
    (fork.rpc = none →
      ((∃ after error, fork.fetchLoop keys = (after, .error error)) ↔ ∃ key ∈ keys, fork.store.get key = none)) ∧
    (∀ rpc, fork.rpc = some rpc → ((∃ after error, fork.fetchLoop keys = (after, .error error)) ↔
      ∃ b batch text, (chunks (misses fork.store.get keys))[b]? = some batch ∧
        rpc.getMultipleAccounts (fork.calls + b) batch fork.minContextSlot = .error text)) := by
  rw [fetch_loop, fetch_fails_iff, some_missing]
  refine ⟨fetched_as fork keys complete, fun after error failed => ?_, fun offline => ?_, fun rpc online => ?_⟩
  · obtain ⟨calls, rfl⟩ := fetch_error fork keys after error failed
    rfl
  · simp [offline]
  · simp [online]

theorem uniform_complete (account : Account) : (uniform account).Complete := by
  intro calls keys slot answers served
  cases served
  rw [List.length_map]

def mixedFork : Fork := freshFork (some (uniform (wallet 9))) (emptyDirectory.put (.fill 2) (some (wallet 5)))

def mixedKeys : List Address := [.fill 1, .fill 2, .fill 1]

theorem fetch_correct_mixed :
    ∃ after, mixedFork.fetchLoop mixedKeys = (after, .ok [some (wallet 9), some (wallet 5), some (wallet 9)]) ∧
      FetchedAs mixedFork mixedKeys after [some (wallet 9), some (wallet 5), some (wallet 9)] := by
  have missing : misses mixedFork.store.get mixedKeys = [.fill 1, .fill 1] := by decide +kernel
  have places : mixedKeys.map mixedFork.store.get = [none, some (some (wallet 5)), none] := by decide +kernel
  have ran : ∃ after, mixedFork.fetchLoop mixedKeys = (after, .ok [some (wallet 9), some (wallet 5), some (wallet 9)]) := by
    have batches : chunks [Address.fill 1, .fill 1] = [[.fill 1, .fill 1]] := by simp [chunks]
    rw [fetch_loop, Fork.fetch, missing, places]
    dsimp only
    rw [batches]
    exact ⟨_, rfl⟩
  obtain ⟨after, isRun⟩ := ran
  have complete : ∀ rpc ∈ mixedFork.rpc, rpc.Complete := by
    intro rpc online
    cases online
    exact uniform_complete (wallet 9)
  exact ⟨after, isRun, (fetch_correct mixedFork mixedKeys complete).1 after _ isRun⟩

end WakeSol.Forking
