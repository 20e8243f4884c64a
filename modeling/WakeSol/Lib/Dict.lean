import Mathlib.Data.List.Nodup

/- Dictionaries as lists of pairs in the order in which their keys were first
   set. -/
set_option autoImplicit false

namespace DictLib

variable {κ α : Type}

section assignment

variable [DecidableEq κ]

-- Assignment to a dictionary key keeps the key's first position.
def dictSet (dict : List (κ × α)) (key : κ) (value : α) : List (κ × α) :=
  if key ∈ dict.map Prod.fst then dict.map fun entry => if entry.1 = key then (key, value) else entry
  else dict ++ [(key, value)]

def dictOf (entries : List (κ × α)) : List (κ × α) :=
  entries.foldl (fun dict entry => dictSet dict entry.1 entry.2) []

theorem dict_set_keys (dict : List (κ × α)) (key : κ) (value : α) :
    (dictSet dict key value).map Prod.fst = if key ∈ dict.map Prod.fst then dict.map Prod.fst else dict.map Prod.fst ++ [key] := by
  by_cases present : key ∈ dict.map Prod.fst
  · rw [dictSet, if_pos present, if_pos present, List.map_map]
    refine List.map_congr_left fun entry _ => ?_
    by_cases same : entry.1 = key <;> simp [same]
  · rw [dictSet, if_neg present, if_neg present, List.map_append]
    rfl

theorem dict_from_distinct (entries dict : List (κ × α)) (distinct : (dict.map Prod.fst).Nodup) :
    ((entries.foldl (fun dict entry => dictSet dict entry.1 entry.2) dict).map Prod.fst).Nodup := by
  induction entries generalizing dict with
  | nil => exact distinct
  | cons entry rest ih =>
    refine ih (dictSet dict entry.1 entry.2) ?_
    rw [dict_set_keys]
    split
    · exact distinct
    · rename_i absent
      exact List.nodup_append.mpr ⟨distinct, by simp, fun a inside b isKey => by
        rw [List.mem_singleton.mp isKey]
        exact fun same => absent (same ▸ inside)⟩

theorem dict_distinct (entries : List (κ × α)) : ((dictOf entries).map Prod.fst).Nodup :=
  dict_from_distinct entries [] (by simp)

theorem dict_from_same (entries dict : List (κ × α)) (distinct : ((dict ++ entries).map Prod.fst).Nodup) :
    entries.foldl (fun dict entry => dictSet dict entry.1 entry.2) dict = dict ++ entries := by
  induction entries generalizing dict with
  | nil => simp
  | cons entry rest ih =>
    have absent : entry.1 ∉ dict.map Prod.fst := by
      rw [List.map_append, List.map_cons] at distinct
      exact fun inside => (List.nodup_append.mp distinct).2.2 _ inside _ (by simp) rfl
    rw [List.foldl_cons, dictSet, if_neg absent, ih _ (by simpa using distinct), List.append_assoc]
    rfl

theorem dict_of_distinct (entries : List (κ × α)) (distinct : (entries.map Prod.fst).Nodup) :
    dictOf entries = entries := dict_from_same entries [] (by simpa using distinct)

theorem dict_mem (entries : List (κ × α)) : ∀ entry ∈ dictOf entries, entry ∈ entries := by
  have grows : ∀ (rest dict : List (κ × α)), (∀ entry ∈ dict, entry ∈ entries) → (∀ entry ∈ rest, entry ∈ entries) →
      ∀ entry ∈ rest.foldl (fun dict entry => dictSet dict entry.1 entry.2) dict, entry ∈ entries := by
    intro rest
    induction rest with
    | nil => exact fun dict old _ => old
    | cons first rest ih =>
      intro dict old new
      refine ih (dictSet dict first.1 first.2) (fun entry inside => ?_) fun entry inside => new entry (by simp [inside])
      rw [dictSet] at inside
      split at inside
      · obtain ⟨source, member, same⟩ := List.mem_map.mp inside
        split at same
        · rw [← same]
          exact new first (by simp)
        · rw [← same]
          exact old source member
      · rcases List.mem_append.mp inside with earlier | last
        · exact old entry earlier
        · rw [List.mem_singleton.mp last]
          exact new first (by simp)
  exact grows entries [] (by simp) fun entry inside => inside

theorem dict_from_keys (key : κ) (entries dict : List (κ × α)) (inside : key ∈ dict.map Prod.fst ∨ key ∈ entries.map Prod.fst) :
    key ∈ (entries.foldl (fun dict entry => dictSet dict entry.1 entry.2) dict).map Prod.fst := by
  induction entries generalizing dict with
  | nil => simpa using inside
  | cons entry rest ih =>
    rw [List.foldl_cons]
    refine ih _ ?_
    rw [dict_set_keys]
    rw [List.map_cons, List.mem_cons] at inside
    split
    · rename_i present
      rcases inside with old | rfl | later
      · exact .inl old
      · exact .inl present
      · exact .inr later
    · rcases inside with old | rfl | later
      · exact .inl (by simp [old])
      · exact .inl (by simp)
      · exact .inr later

theorem dict_keys (entries : List (κ × α)) (key : κ) (inside : key ∈ entries.map Prod.fst) : key ∈ (dictOf entries).map Prod.fst :=
  dict_from_keys key entries [] (.inr inside)

end assignment

section lookup

variable [BEq κ] [LawfulBEq κ]

theorem lookup_mem (entries : List (κ × α)) (name : κ) (value : α) (found : entries.lookup name = some value) :
    (name, value) ∈ entries := by
  obtain ⟨front, back, rfl, _⟩ := List.lookup_eq_some_iff.mp found
  simp

theorem lookup_of_mem (pairs : List (κ × α)) (distinct : (pairs.map Prod.fst).Nodup) (name : κ) (value : α)
    (inside : (name, value) ∈ pairs) : pairs.lookup name = some value := by
  induction pairs with
  | nil => simp at inside
  | cons first rest ih =>
    simp only [List.map_cons, List.nodup_cons] at distinct
    rcases List.mem_cons.mp inside with rfl | later
    · simp
    · have other : (name == first.1) = false := by
        rw [beq_eq_false_iff_ne]
        intro same
        exact distinct.1 (same ▸ List.mem_map_of_mem later)
      rw [List.lookup_cons, other]
      exact ih distinct.2 later

theorem lookup_key (pairs : List (κ × α)) (key : κ) (inside : key ∈ pairs.map Prod.fst) : (pairs.lookup key).isSome = true := by
  cases found : pairs.lookup key with
  | some value => rfl
  | none =>
    obtain ⟨pair, isPair, rfl⟩ := List.mem_map.mp inside
    simpa using List.lookup_eq_none_iff.mp found pair isPair

theorem overwrite_lookup [DecidableEq κ] (dict : List (κ × α)) (key other : κ) (value : α) :
    (dict.map fun entry => if entry.1 = key then (key, value) else entry).lookup other =
      if other = key then (dict.lookup key).map fun _ => value else dict.lookup other := by
  induction dict with
  | nil => simp
  | cons entry rest ih =>
    obtain ⟨name, old⟩ := entry
    rw [List.map_cons]
    by_cases here : name = key
    · subst here
      by_cases same : other = name
      · simp [same]
      · have different : (other == name) = false := by simpa using same
        simp only [if_true, List.lookup_cons, different, ih, if_neg same]
    · rw [if_neg here]
      have apart : (key == name) = false := by simpa using Ne.symm here
      by_cases same : other = name
      · have different : other ≠ key := by rwa [same]
        simp [same, here]
      · have different : (other == name) = false := by simpa using same
        simp only [List.lookup_cons, different, apart, ih]

theorem dict_set_lookup [DecidableEq κ] (dict : List (κ × α)) (key other : κ) (value : α) :
    (dictSet dict key value).lookup other = if other = key then some value else dict.lookup other := by
  rw [dictSet]
  split
  · rename_i present
    obtain ⟨old, found⟩ := Option.isSome_iff_exists.mp (lookup_key dict key present)
    rw [overwrite_lookup, found]
    rfl
  · rename_i absent
    rw [List.lookup_append]
    by_cases same : other = key
    · subst same
      cases found : dict.lookup other with
      | none => simp
      | some old => exact absurd (List.mem_map.mpr ⟨_, lookup_mem dict other old found, rfl⟩) absent
    · have different : (other == key) = false := by simpa using same
      simp [List.lookup_cons, different, same]

theorem dict_from_other [DecidableEq κ] (entries dict : List (κ × α)) (key : κ) (absent : key ∉ entries.map Prod.fst) :
    (entries.foldl (fun dict entry => dictSet dict entry.1 entry.2) dict).lookup key = dict.lookup key := by
  induction entries generalizing dict with
  | nil => rfl
  | cons entry rest ih =>
    rw [List.map_cons, List.mem_cons, not_or] at absent
    rw [List.foldl_cons, ih _ absent.2, dict_set_lookup, if_neg absent.1]

theorem dict_from_last [DecidableEq κ] (entries dict : List (κ × α)) (key : κ) (inside : key ∈ entries.map Prod.fst) :
    ∃ value, (entries.foldl (fun dict entry => dictSet dict entry.1 entry.2) dict).lookup key = some value ∧
      (key, value) ∈ entries := by
  induction entries generalizing dict with
  | nil => cases inside
  | cons entry rest ih =>
    by_cases later : key ∈ rest.map Prod.fst
    · obtain ⟨value, found, isEntry⟩ := ih (dictSet dict entry.1 entry.2) later
      exact ⟨value, found, List.mem_cons_of_mem _ isEntry⟩
    · rcases List.mem_cons.mp inside with same | isLater
      · refine ⟨entry.2, ?_, by rw [same]; exact List.mem_cons_self⟩
        rw [List.foldl_cons, dict_from_other rest _ key later, dict_set_lookup, if_pos same]
      · exact absurd isLater later

end lookup

end DictLib
