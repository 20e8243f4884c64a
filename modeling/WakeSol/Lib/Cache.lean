import Mathlib.Data.List.Forall2

/- A store of answers in front of a slow source: a request is served from the
   store where it can be, the source is asked for the rest, and its answers are
   kept. -/
set_option autoImplicit false

namespace CacheLib

section

variable {κ α : Type} [DecidableEq κ]

def put (store : κ → Option α) (key : κ) (answer : α) : κ → Option α :=
  fun other => if other = key then some answer else store other

def putAll (store : κ → Option α) (pairs : List (κ × α)) : κ → Option α :=
  pairs.foldl (fun store pair => put store pair.1 pair.2) store

def misses (store : κ → Option α) (keys : List κ) : List κ := keys.filter fun key => (store key).isNone

def fill (default : α) : List (Option α) → List α → List α
  | [], _ => []
  | some answer :: rest, fetched => answer :: fill default rest fetched
  | none :: rest, answer :: fetched => answer :: fill default rest fetched
  | none :: rest, [] => default :: fill default rest []

def Extends (store larger : κ → Option α) : Prop := ∀ key answer, store key = some answer → larger key = some answer

def Consistent (pairs : List (κ × α)) : Prop := ∀ left ∈ pairs, ∀ right ∈ pairs, left.1 = right.1 → left.2 = right.2

omit [DecidableEq κ] in
theorem extends_refl (store : κ → Option α) : Extends store store := fun _ _ found => found

omit [DecidableEq κ] in
theorem extends_trans (first second third : κ → Option α) (left : Extends first second) (right : Extends second third) :
    Extends first third := fun key answer found => right key answer (left key answer found)

theorem put_all_absent (store : κ → Option α) (pairs : List (κ × α)) (key : κ) (absent : key ∉ pairs.map Prod.fst) :
    putAll store pairs key = store key := by
  induction pairs generalizing store with
  | nil => rfl
  | cons pair rest ih =>
    rw [List.map_cons, List.mem_cons, not_or] at absent
    have later := ih (put store pair.1 pair.2) absent.2
    rw [putAll] at later
    rw [putAll, List.foldl_cons, later, put, if_neg absent.1]

theorem put_all_present (store : κ → Option α) (pairs : List (κ × α)) (key : κ) (present : key ∈ pairs.map Prod.fst) :
    ∃ answer, (key, answer) ∈ pairs ∧ putAll store pairs key = some answer := by
  induction pairs generalizing store with
  | nil => simp at present
  | cons pair rest ih =>
    by_cases later : key ∈ rest.map Prod.fst
    · obtain ⟨answer, inside, found⟩ := ih (put store pair.1 pair.2) later
      exact ⟨answer, List.mem_cons_of_mem _ inside, found⟩
    · have here : key = pair.1 := by
        rw [List.map_cons, List.mem_cons] at present
        exact present.resolve_right later
      have kept := put_all_absent (put store pair.1 pair.2) rest key later
      rw [put, if_pos here] at kept
      exact ⟨pair.2, by rw [here]; exact List.mem_cons_self, kept⟩

theorem put_all_extends (store : κ → Option α) (pairs : List (κ × α))
    (fresh : ∀ pair ∈ pairs, store pair.1 = none) : Extends store (putAll store pairs) := by
  intro key answer found
  by_cases asked : key ∈ pairs.map Prod.fst
  · obtain ⟨pair, inside, same⟩ := List.mem_map.mp asked
    have unknown := fresh pair inside
    rw [same, found] at unknown
    cases unknown
  · rwa [put_all_absent store pairs key asked]

theorem put_all_consistent (store : κ → Option α) (pairs : List (κ × α)) (consistent : Consistent pairs)
    (pair : κ × α) (inside : pair ∈ pairs) : putAll store pairs pair.1 = some pair.2 := by
  obtain ⟨answer, found, stored⟩ := put_all_present store pairs pair.1 (List.mem_map_of_mem inside)
  rw [stored, consistent pair inside (pair.1, answer) found rfl]

omit [DecidableEq κ] in
theorem fill_answers (default : α) (store larger : κ → Option α) (keys : List κ) (fetched : List α)
    (size : fetched.length = (misses store keys).length) (grows : Extends store larger)
    (answered : ∀ pair ∈ (misses store keys).zip fetched, larger pair.1 = some pair.2) :
    keys.map larger = (fill default (keys.map store) fetched).map some := by
  induction keys generalizing fetched with
  | nil => rfl
  | cons key rest ih =>
    cases known : store key with
    | some answer =>
      have skip : misses store (key :: rest) = misses store rest := by simp [misses, known]
      rw [skip] at size answered
      simp only [List.map_cons, known, fill, grows key answer known, ih fetched size answered]
    | none =>
      have asks : misses store (key :: rest) = key :: misses store rest := by simp [misses, known]
      rw [asks] at size answered
      cases fetched with
      | nil => simp at size
      | cons answer more =>
        have first := answered (key, answer) (by simp)
        have others := ih more (by simpa using size) fun pair inside => answered pair (by simp [inside])
        simp only [List.map_cons, known, fill, first, others]

omit [DecidableEq κ] in
theorem misses_known (store : κ → Option α) (keys : List κ) (answers : List α) (known : keys.map store = answers.map some) :
    misses store keys = [] := by
  rw [misses, List.filter_eq_nil_iff]
  intro key asked
  have inside : store key ∈ answers.map some := known ▸ List.mem_map_of_mem asked
  obtain ⟨answer, _, found⟩ := List.mem_map.mp inside
  simp [← found]

omit [DecidableEq κ] in
theorem fill_known (default : α) (answers : List α) : fill default (answers.map some) [] = answers := by
  induction answers with
  | nil => rfl
  | cons answer rest ih => rw [List.map_cons, fill, ih]

def missPlaces (base : Nat) : List (Option α) → List Nat
  | [] => []
  | some _ :: rest => missPlaces (base + 1) rest
  | none :: rest => base :: missPlaces (base + 1) rest

def scatter (out : List α) (answers : List (α × Nat)) : List α := answers.foldl (fun out pair => out.set pair.2 pair.1) out

variable (default : α) (places : List (Option α))

theorem scatter_fill (fetched front : List α) :
    scatter (front ++ places.map (Option.getD · default)) (fetched.zip (missPlaces front.length places)) =
      front ++ fill default places fetched := by
  induction places generalizing fetched front with
  | nil => simp [missPlaces, scatter, fill]
  | cons place rest ih =>
    have later := fun (answer : α) (others : List α) => ih others (front ++ [answer])
    simp only [List.length_append, List.length_singleton, List.append_assoc, List.singleton_append] at later
    cases place with
    | some answer => simpa [missPlaces, fill] using later answer fetched
    | none =>
      cases fetched with
      | nil => simpa [missPlaces, fill, scatter] using later default []
      | cons answer more =>
        have here : (front ++ default :: rest.map (Option.getD · default)).set front.length answer =
            front ++ answer :: rest.map (Option.getD · default) := by simp
        have others := later answer more
        rw [scatter] at others
        simp only [missPlaces, List.zip_cons_cons, scatter, List.foldl_cons, List.map_cons, Option.getD_none, here, others,
          fill]

theorem fill_length (fetched : List α) : (fill default places fetched).length = places.length := by
  induction places generalizing fetched with
  | nil => rfl
  | cons place rest ih =>
    cases place with
    | some answer => rw [fill, List.length_cons, ih, List.length_cons]
    | none => cases fetched <;> rw [fill, List.length_cons, ih, List.length_cons]

theorem fill_get (fetched : List α) (i : Nat) : (fill default places fetched)[i]? = (places[i]?).map fun place =>
      place.getD ((fetched[(places.take i).countP Option.isNone]?).getD default) := by
  induction places generalizing fetched i with
  | nil => simp [fill]
  | cons place rest ih =>
    cases i with
    | zero =>
      cases place with
      | some answer => simp [fill]
      | none => cases fetched <;> simp [fill]
    | succ i =>
      cases place with
      | some answer => simpa [fill] using ih fetched i
      | none =>
        cases fetched with
        | nil => simpa [fill] using ih [] i
        | cons answer more => simpa [fill] using ih more i

omit [DecidableEq κ] in
theorem misses_rank (store : κ → Option α) (keys : List κ) (i : Nat) :
    ((keys.map store).take i).countP Option.isNone = (misses store (keys.take i)).length := by
  rw [← List.map_take, List.countP_map, List.countP_eq_length_filter, misses]
  rfl

theorem put_known (store : κ → Option α) (key : κ) (answer : α) (known : store key = some answer) : put store key answer = store := by
  funext other
  rw [put]
  by_cases same : other = key
  · rw [if_pos same, same, known]
  · rw [if_neg same]

theorem put_all_fill (store larger : κ → Option α) (keys : List κ) (fetched : List α)
    (size : fetched.length = (misses store keys).length) (grows : Extends store larger) :
    putAll larger (keys.zip (fill default (keys.map store) fetched)) = putAll larger ((misses store keys).zip fetched) := by
  induction keys generalizing fetched larger with
  | nil => rfl
  | cons key rest ih =>
    cases known : store key with
    | some answer =>
      have skip : misses store (key :: rest) = misses store rest := by simp [misses, known]
      rw [skip] at size ⊢
      have later := ih larger fetched size grows
      rw [putAll] at later
      rw [List.map_cons, known, fill, List.zip_cons_cons, putAll, List.foldl_cons,
        put_known larger key answer (grows key answer known), later]
    | none =>
      have asks : misses store (key :: rest) = key :: misses store rest := by simp [misses, known]
      rw [asks] at size ⊢
      cases fetched with
      | nil => simp at size
      | cons answer more =>
        have kept : Extends store (put larger key answer) := by
          intro other value found
          rw [put]
          by_cases same : other = key
          · rw [same, known] at found
            cases found
          · rw [if_neg same]
            exact grows other value found
        have later := ih (put larger key answer) more (by simpa using size) kept
        rw [putAll, putAll] at later
        rw [List.map_cons, known, fill, List.zip_cons_cons, List.zip_cons_cons, putAll, putAll, List.foldl_cons,
          List.foldl_cons, later]

theorem put_all_last (store : κ → Option α) (pairs : List (κ × α)) (key : κ) (present : key ∈ pairs.map Prod.fst) :
    ∃ front answer back, pairs = front ++ (key, answer) :: back ∧ key ∉ back.map Prod.fst ∧
      putAll store pairs key = some answer := by
  induction pairs generalizing store with
  | nil => simp at present
  | cons pair rest ih =>
    by_cases later : key ∈ rest.map Prod.fst
    · obtain ⟨front, answer, back, split, absent, found⟩ := ih (put store pair.1 pair.2) later
      exact ⟨pair :: front, answer, back, by rw [split, List.cons_append], absent, found⟩
    · have here : key = pair.1 := by
        rw [List.map_cons, List.mem_cons] at present
        exact present.resolve_right later
      have kept := put_all_absent (put store pair.1 pair.2) rest key later
      rw [put, if_pos here] at kept
      exact ⟨[], pair.2, rest, by rw [here]; rfl, later, kept⟩

def Agrees (truth : κ → α → Prop) (store : κ → Option α) : Prop := ∀ key answer, store key = some answer → truth key answer

theorem put_all_agrees (truth : κ → α → Prop) (store : κ → Option α) (keys : List κ) (fetched : List α)
    (agrees : Agrees truth store) (answered : List.Forall₂ truth keys fetched) :
    Agrees truth (putAll store (keys.zip fetched)) := by
  intro key answer found
  by_cases asked : key ∈ (keys.zip fetched).map Prod.fst
  · obtain ⟨stored, inside, same⟩ := put_all_present store _ key asked
    rw [found] at same
    cases same
    exact List.forall₂_zip answered inside
  · rw [put_all_absent store _ key asked] at found
    exact agrees key answer found

omit [DecidableEq κ] in
theorem fill_agrees (truth : κ → α → Prop) (default : α) (store : κ → Option α) (keys : List κ) (fetched : List α)
    (agrees : Agrees truth store) (answered : List.Forall₂ truth (misses store keys) fetched) :
    List.Forall₂ truth keys (fill default (keys.map store) fetched) := by
  induction keys generalizing fetched with
  | nil => exact .nil
  | cons key rest ih =>
    cases known : store key with
    | some answer =>
      have skip : misses store (key :: rest) = misses store rest := by simp [misses, known]
      rw [skip] at answered
      rw [List.map_cons, known, fill]
      exact .cons (agrees key answer known) (ih fetched answered)
    | none =>
      have asks : misses store (key :: rest) = key :: misses store rest := by simp [misses, known]
      rw [asks] at answered
      cases answered with
      | cons here others =>
        rw [List.map_cons, known, fill]
        exact .cons here (ih _ others)

def request (store : κ → Option α) (key : κ) (fresh : Option α) : Option α × (κ → Option α) :=
  match store key with
  | some answer => (some answer, store)
  | none => match fresh with
    | none => (none, store)
    | some answer => (some answer, put store key answer)

def firstAnswer (requests : List (κ × Option α)) (key : κ) : Option α :=
  requests.findSome? fun asked => if asked.1 = key then asked.2 else none

def Stable (requests : List (κ × Option α)) : Prop :=
  requests.Pairwise fun earlier later => earlier.1 = later.1 → ∀ answer, earlier.2 = some answer → later.2 = some answer

variable (past : List (κ × Option α))

theorem first_answer_snoc (key other : κ) (fresh : Option α) :
    firstAnswer (past ++ [(key, fresh)]) other = (firstAnswer past other).or (if key = other then fresh else none) := by
  rw [firstAnswer, List.findSome?_append, firstAnswer, List.findSome?_singleton]

theorem first_answer_mem (key : κ) (answer : α) (found : firstAnswer past key = some answer) :
    (key, some answer) ∈ past := by
  obtain ⟨asked, inside, told⟩ := List.exists_of_findSome?_eq_some found
  by_cases same : asked.1 = key
  · rw [if_pos same] at told
    rw [← same, ← told]
    exact inside
  · rw [if_neg same] at told
    cases told

theorem request_value (key : κ) (fresh : Option α) :
    (request (firstAnswer past) key fresh).1 = (firstAnswer past key).or fresh := by
  cases found : firstAnswer past key with
  | some answer => simp only [request, found, Option.some_or]
  | none => cases fresh with
    | none => simp only [request, found, Option.none_or]
    | some answer => simp only [request, found, Option.none_or]

theorem request_store (key : κ) (fresh : Option α) :
    (request (firstAnswer past) key fresh).2 = firstAnswer (past ++ [(key, fresh)]) := by
  funext other
  rw [first_answer_snoc]
  cases found : firstAnswer past key with
  | some answer =>
    simp only [request, found]
    by_cases same : key = other
    · rw [← same, found, Option.some_or]
    · rw [if_neg same, Option.or_none]
  | none => cases fresh with
    | none => simp only [request, found, ite_self, Option.or_none]
    | some answer =>
      simp only [request, found, put]
      by_cases same : key = other
      · rw [if_pos same.symm, if_pos same, ← same, found, Option.none_or]
      · rw [if_neg fun other => same other.symm, if_neg same, Option.or_none]

theorem stable_first (past later : List (κ × Option α)) (stable : Stable (past ++ later)) (key : κ) (fresh : Option α)
    (asked : (key, fresh) ∈ later) : (firstAnswer past key).or fresh = fresh := by
  cases found : firstAnswer past key with
  | none => exact Option.none_or
  | some answer =>
    have earlier := first_answer_mem past key answer found
    have kept : fresh = some answer := (List.pairwise_append.mp stable).2.2 _ earlier _ asked rfl answer rfl
    rw [kept, Option.some_or]

end

end CacheLib
