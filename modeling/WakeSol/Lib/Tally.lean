import Mathlib.Algebra.GroupWithZero.Nat
import Mathlib.Data.List.Forall2
import Mathlib.Data.List.Induction
import WakeSol.Lib.Dict

/- Finite maps as dictionaries with distinct keys, counts kept in two levels, a map
   of maps, with their single cells, and sums of amounts that may be absent. -/
set_option autoImplicit false

namespace TallyLib

open DictLib

structure Dict (κ α : Type) where
  entries : List (κ × α)
  distinct : (entries.map Prod.fst).Nodup

section dict

variable {κ α : Type} [DecidableEq κ]

variable (dict : Dict κ α)

theorem set_distinct (key : κ) (value : α) : ((dictSet dict.entries key value).map Prod.fst).Nodup :=
  dict_from_distinct [(key, value)] dict.entries dict.distinct

omit [DecidableEq κ] in
theorem empty_distinct : (([] : List (κ × α)).map Prod.fst).Nodup := List.nodup_nil

def Dict.empty : Dict κ α := ⟨[], empty_distinct⟩

def Dict.get (dict : Dict κ α) (key : κ) : Option α := dict.entries.lookup key

def Dict.set (dict : Dict κ α) (key : κ) (value : α) : Dict κ α :=
  ⟨dictSet dict.entries key value, set_distinct dict key value⟩

def Dict.of (pairs : List (κ × α)) : Dict κ α := ⟨dictOf pairs, dict_distinct pairs⟩

theorem get_empty (key : κ) : (Dict.empty : Dict κ α).get key = none := rfl

theorem get_set (key other : κ) (value : α) :
    (dict.set key value).get other = if other = key then some value else dict.get other :=
  dict_set_lookup dict.entries key other value

theorem get_iff (key : κ) (value : α) : dict.get key = some value ↔ (key, value) ∈ dict.entries := by
  refine ⟨lookup_mem dict.entries key value, fun inside => ?_⟩
  exact lookup_of_mem dict.entries dict.distinct key value inside

variable (pairs : List (κ × α))

theorem get_of_distinct (distinct : (pairs.map Prod.fst).Nodup) (key : κ) (value : α) :
    (Dict.of pairs).get key = some value ↔ (key, value) ∈ pairs := by
  have entries : (Dict.of pairs).entries = pairs := dict_of_distinct pairs distinct
  rw [get_iff, entries]

theorem of_entries : Dict.of dict.entries = dict := by
  obtain ⟨entries, distinct⟩ := dict
  rw [Dict.of, Dict.mk.injEq]
  exact dict_of_distinct entries distinct

theorem of_append (pair : κ × α) : Dict.of (pairs ++ [pair]) = (Dict.of pairs).set pair.1 pair.2 := by
  simp only [Dict.of, Dict.set, Dict.mk.injEq]
  rw [dictOf, List.foldl_append]
  rfl

theorem get_of_agree (key : κ) (value : α) (inside : key ∈ pairs.map Prod.fst)
    (agree : ∀ pair ∈ pairs, pair.1 = key → pair.2 = value) : (Dict.of pairs).get key = some value := by
  induction pairs using List.reverseRecOn with
  | nil => cases inside
  | append_singleton pairs last ih =>
    rw [of_append, get_set]
    by_cases same : key = last.1
    · rw [if_pos same, agree last (List.mem_append_right _ (List.mem_singleton_self _)) same.symm]
    · rw [if_neg same]
      refine ih ?_ fun pair before => agree pair (List.mem_append_left _ before)
      rw [List.map_append, List.mem_append] at inside
      rcases inside with before | here
      · exact before
      · exact absurd (List.mem_singleton.mp here) same

theorem mem_of_get (key : κ) (value : α) (found : (Dict.of pairs).get key = some value) : (key, value) ∈ pairs := by
  induction pairs using List.reverseRecOn with
  | nil => cases found
  | append_singleton pairs last ih =>
    rw [of_append, get_set] at found
    by_cases same : key = last.1
    · rw [if_pos same] at found
      obtain rfl := Option.some.inj found
      rw [same]
      exact List.mem_append_right _ (List.mem_singleton_self _)
    · rw [if_neg same] at found
      exact List.mem_append_left _ (ih found)

theorem lookup_absent (key : κ) (absent : key ∉ pairs.map Prod.fst) : pairs.lookup key = none := by
  rw [List.lookup_eq_none_iff]
  intro entry inside
  rw [bne_iff_ne]
  intro same
  apply absent
  rw [same]
  exact List.mem_map_of_mem inside

def combineAll (combine : Option α → α → α) (dict : Dict κ α) (pairs : List (κ × α)) : Dict κ α :=
  pairs.foldl (fun dict pair => dict.set pair.1 (combine (dict.get pair.1) pair.2)) dict

def Dict.absorb (combine : Option α → α → α) (dict other : Dict κ α) : Dict κ α := combineAll combine dict other.entries

theorem combine_all_get (combine : Option α → α → α) (pairs : List (κ × α)) (distinct : (pairs.map Prod.fst).Nodup)
    (dict : Dict κ α) (key : κ) :
    (combineAll combine dict pairs).get key =
      match pairs.lookup key with
      | none => dict.get key
      | some value => some (combine (dict.get key) value) := by
  induction pairs generalizing dict with
  | nil => rfl
  | cons pair rest ih =>
    rw [List.map_cons, List.nodup_cons] at distinct
    have later := ih distinct.2 (dict.set pair.1 (combine (dict.get pair.1) pair.2))
    rw [combineAll] at later
    rw [combineAll, List.foldl_cons, later, List.lookup_cons]
    by_cases here : key = pair.1
    · -- The key stands nowhere else, so the rest leaves the new value alone.
      subst here
      simp only [lookup_absent rest pair.1 distinct.1, get_set, if_true, beq_self_eq_true]
    · have apart : (key == pair.1) = false := by simpa using here
      simp only [apart, get_set, if_neg here]

theorem get_absorb (combine : Option α → α → α) (dict other : Dict κ α) (key : κ) :
    (dict.absorb combine other).get key =
      match other.get key with
      | none => dict.get key
      | some value => some (combine (dict.get key) value) :=
  combine_all_get combine other.entries other.distinct dict key

end dict

section paired

variable {κ α β : Type}

def Alike (related : α → β → Prop) (first : κ × α) (second : κ × β) : Prop := first.1 = second.1 ∧ related first.2 second.2

def Paired (related : α → β → Prop) (left : Dict κ α) (right : Dict κ β) : Prop :=
  List.Forall₂ (Alike related) left.entries right.entries

variable (related : α → β → Prop)

theorem paired_empty : Paired related (Dict.empty : Dict κ α) Dict.empty := .nil

variable (left : Dict κ α) (right : Dict κ β)

theorem paired_keys (paired : Paired related left right) : left.entries.map Prod.fst = right.entries.map Prod.fst := by
  rw [← List.forall₂_eq_eq_eq, List.forall₂_map_left_iff, List.forall₂_map_right_iff]
  exact paired.imp fun _ _ alike => alike.1

theorem paired_imp (related later : α → β → Prop) (left : Dict κ α) (right : Dict κ β) (paired : Paired related left right)
    (implies : ∀ value other, related value other → later value other) : Paired later left right :=
  paired.imp fun _ _ alike => ⟨alike.1, implies _ _ alike.2⟩

variable [DecidableEq κ]

theorem alike_lookup (lefts : List (κ × α)) (rights : List (κ × β))
    (each : List.Forall₂ (Alike related) lefts rights) (key : κ) :
    Option.Rel related (lefts.lookup key) (rights.lookup key) := by
  induction each with
  | nil => exact .none
  | @cons first second _ _ alike _ ih =>
    rw [List.lookup_cons, List.lookup_cons, ← alike.1]
    by_cases here : key = first.1
    · simp only [here, beq_self_eq_true]
      exact .some alike.2
    · have apart : (key == first.1) = false := by simpa using here
      simp only [apart]
      exact ih

theorem paired_get (paired : Paired related left right) (key : κ) : Option.Rel related (left.get key) (right.get key) :=
  alike_lookup related left.entries right.entries paired key

theorem paired_some (paired : Paired related left right)
    (key : κ) (value : α) (found : left.get key = some value) : ∃ other, right.get key = some other ∧ related value other := by
  have both := paired_get related left right paired key
  rw [found] at both
  cases image : right.get key with
  | none =>
    rw [image] at both
    cases both
  | some other =>
    rw [image] at both
    cases both with
    | some held => exact ⟨other, rfl, held⟩

theorem paired_image (paired : Paired related left right)
    (key : κ) (other : β) (found : right.get key = some other) : ∃ value, left.get key = some value ∧ related value other := by
  have flipped : Paired (fun other value => related value other) right left :=
    paired.flip.imp fun _ _ alike => ⟨alike.1.symm, alike.2⟩
  exact paired_some _ right left flipped key other found

theorem paired_none (paired : Paired related left right)
    (key : κ) (absent : left.get key = none) : right.get key = none := by
  have both := paired_get related left right paired key
  rw [absent] at both
  cases image : right.get key with
  | none => rfl
  | some other =>
    rw [image] at both
    cases both

variable (dict : Dict κ α)

theorem set_known (key : κ) (value : α) (found : dict.get key = some value) : dict.set key value = dict := by
  have present : key ∈ dict.entries.map Prod.fst := List.mem_map.mpr ⟨_, (get_iff dict key value).mp found, rfl⟩
  obtain ⟨entries, distinct⟩ := dict
  simp only [Dict.set, dictSet, if_pos present, Dict.mk.injEq]
  refine (List.map_congr_left fun entry isEntry => ?_).trans (List.map_id _)
  by_cases same : entry.1 = key
  · have here := (get_iff ⟨entries, distinct⟩ entry.1 entry.2).mpr isEntry
    rw [same, found, Option.some.injEq] at here
    rw [if_pos same, here, ← same]
    rfl
  · rw [if_neg same]
    rfl

theorem set_set (key : κ) (first second : α) : (dict.set key first).set key second = dict.set key second := by
  have present : key ∈ (dictSet dict.entries key first).map Prod.fst := by
    rw [dict_set_keys]
    by_cases known : key ∈ dict.entries.map Prod.fst
    · rw [if_pos known]
      exact known
    · rw [if_neg known]
      exact List.mem_append_right _ List.mem_cons_self
  simp only [Dict.set, Dict.mk.injEq]
  rw [dictSet, if_pos present, dictSet, dictSet]
  by_cases known : key ∈ dict.entries.map Prod.fst
  · rw [if_pos known, if_pos known, List.map_map]
    refine List.map_congr_left fun entry _ => ?_
    by_cases same : entry.1 = key <;> simp [same]
  · rw [if_neg known, if_neg known, List.map_append, List.map_singleton, if_pos rfl]
    refine congrArg (· ++ [(key, second)]) ((List.map_congr_left fun entry inside => ?_).trans (List.map_id _))
    exact if_neg fun same : entry.1 = key => known (same ▸ List.mem_map_of_mem inside)

theorem paired_set (related later : α → β → Prop) (left : Dict κ α) (right : Dict κ β) (key : κ) (value : α) (other : β)
    (paired : Paired related left right) (assigned : later value other)
    (kept : ∀ name old image, name ≠ key → left.get name = some old → related old image → later old image) :
    Paired later (left.set key value) (right.set key other) := by
  have keys := paired_keys related left right paired
  have moved : ∀ first ∈ left.entries, ∀ second, Alike related first second → first.1 ≠ key → Alike later first second := by
    intro first inside second alike apart
    exact ⟨alike.1, kept first.1 first.2 second.2 apart ((get_iff left first.1 first.2).mpr inside) alike.2⟩
  have both := (List.forall₂_and_left left.entries right.entries).mpr ⟨fun _ inside => inside, paired⟩
  rw [Paired, Dict.set, Dict.set]
  by_cases present : key ∈ left.entries.map Prod.fst
  · have also : key ∈ right.entries.map Prod.fst := keys ▸ present
    simp only [dictSet, if_pos present, if_pos also]
    rw [List.forall₂_map_left_iff, List.forall₂_map_right_iff]
    refine both.imp fun first second found => ?_
    by_cases same : first.1 = key
    · rw [if_pos same, if_pos (found.2.1.symm.trans same)]
      exact ⟨rfl, assigned⟩
    · rw [if_neg same, if_neg (found.2.1 ▸ same)]
      exact moved first found.1 second found.2 same
  · have also : key ∉ right.entries.map Prod.fst := keys ▸ present
    simp only [dictSet, if_neg present, if_neg also]
    refine List.rel_append (both.imp fun first second found => ?_) (.cons ⟨rfl, assigned⟩ .nil)
    exact moved first found.1 second found.2 fun same => present (same ▸ List.mem_map_of_mem found.1)

variable (pairs : List (κ × α))

theorem fold_entries (dict : Dict κ α) : (pairs.foldl (fun dict pair => dict.set pair.1 pair.2) dict).entries =
      pairs.foldl (fun entries pair => dictSet entries pair.1 pair.2) dict.entries := by
  induction pairs generalizing dict with
  | nil => rfl
  | cons pair rest ih => exact ih (dict.set pair.1 pair.2)

theorem fold_of : pairs.foldl (fun (dict : Dict κ α) pair => dict.set pair.1 pair.2) .empty = Dict.of pairs := by
  have entries := fold_entries pairs .empty
  generalize pairs.foldl (fun (dict : Dict κ α) pair => dict.set pair.1 pair.2) .empty = folded at entries ⊢
  obtain ⟨found, distinct⟩ := folded
  rw [Dict.of, Dict.mk.injEq]
  exact entries

theorem paired_of (lefts : List (κ × α)) (rights : List (κ × β))
    (each : List.Forall₂ (Alike related) lefts rights) : Paired related (Dict.of lefts) (Dict.of rights) := by
  have folded : ∀ (left : Dict κ α) (right : Dict κ β), Paired related left right →
      Paired related (lefts.foldl (fun dict pair => dict.set pair.1 pair.2) left)
        (rights.foldl (fun dict pair => dict.set pair.1 pair.2) right) := by
    induction each with
    | nil => exact fun _ _ paired => paired
    | @cons first second _ _ alike _ ih =>
      intro left right paired
      refine ih _ _ ?_
      beta_reduce
      rw [alike.1]
      exact paired_set related related left right second.1 first.2 second.2 paired alike.2 fun _ _ _ _ _ held => held
  rw [← fold_of, ← fold_of]
  exact folded _ _ (paired_empty related)

end paired

section tally

variable {κ ι α : Type} [DecidableEq κ] [DecidableEq ι]

abbrev Tally (κ ι α : Type) := Dict κ (Dict ι α)

def row (tally : Tally κ ι α) (key : κ) : Dict ι α := (tally.get key).getD .empty

def cell (tally : Tally κ ι α) (key : κ) (index : ι) : Option α := (row tally key).get index

def update (tally : Tally κ ι α) (key : κ) (index : ι) (next : Option α → α) : Tally κ ι α :=
  tally.set key ((row tally key).set index (next (cell tally key index)))

def absorb (combine : Option α → α → α) (tally other : Tally κ ι α) : Tally κ ι α :=
  Dict.absorb (fun old content => (old.getD .empty).absorb combine content) tally other

theorem cell_empty (key : κ) (index : ι) : cell (Dict.empty : Tally κ ι α) key index = none := rfl

omit [DecidableEq ι] in
theorem row_set (tally : Tally κ ι α) (key other : κ) (content : Dict ι α) :
    row (tally.set key content) other = if other = key then content else row tally other := by
  rw [row, get_set]
  by_cases same : other = key
  · rw [if_pos same, if_pos same]
    rfl
  · rw [if_neg same, if_neg same]
    rfl

theorem cell_update (tally : Tally κ ι α) (key other : κ) (index place : ι) (next : Option α → α) :
    cell (update tally key index next) other place =
      if other = key ∧ place = index then some (next (cell tally key index)) else cell tally other place := by
  rw [cell, update, row_set]
  by_cases same : other = key
  · subst same
    rw [if_pos rfl, get_set]
    by_cases here : place = index
    · rw [if_pos here, if_pos ⟨rfl, here⟩]
    · rw [if_neg here, if_neg fun both => here both.2]
      rfl
  · rw [if_neg same, if_neg fun both => same both.1]
    rfl

theorem cell_absorb (combine : Option α → α → α) (tally other : Tally κ ι α) (key : κ) (index : ι) :
    cell (absorb combine tally other) key index =
      match cell other key index with
      | none => cell tally key index
      | some value => some (combine (cell tally key index) value) := by
  rw [cell, row, absorb, get_absorb]
  cases found : other.get key with
  | none =>
    have absent : cell other key index = none := by
      rw [cell, row, found]
      rfl
    rw [absent]
    rfl
  | some content =>
    have inside : cell other key index = content.get index := by
      rw [cell, row, found]
      rfl
    rw [inside]
    exact get_absorb combine (row tally key) content index

end tally

section counts

variable {κ : Type} [DecidableEq κ]

def amount (entries : List (κ × Nat)) : Nat := (entries.map Prod.snd).sum

theorem amount_replace (entries : List (κ × Nat)) (distinct : (entries.map Prod.fst).Nodup) (key : κ) (old value : Nat)
    (found : entries.lookup key = some old) :
    amount (entries.map fun entry => if entry.1 = key then (key, value) else entry) + old = amount entries + value := by
  induction entries with
  | nil => cases found
  | cons entry rest ih =>
    rw [List.map_cons, List.nodup_cons] at distinct
    rw [List.lookup_cons] at found
    simp only [amount, List.map_cons, List.sum_cons] at ih ⊢
    by_cases here : key = entry.1
    · -- No later entry has the key, so the rest stays as it is.
      have kept : (rest.map fun entry => if entry.1 = key then (key, value) else entry) = rest := by
        refine (List.map_congr_left fun other inside => ?_).trans (List.map_id rest)
        have apart : other.1 ≠ key := fun same => distinct.1 (here ▸ same ▸ List.mem_map_of_mem inside)
        rw [if_neg apart, id]
      rw [here, beq_self_eq_true] at found
      obtain rfl := Option.some.inj found
      rw [kept, if_pos here.symm]
      omega
    · have apart : (key == entry.1) = false := by simpa using here
      rw [apart] at found
      have later := ih distinct.2 found
      rw [if_neg fun same => here same.symm]
      omega

theorem amount_increment (dict : Dict κ Nat) (key : κ) :
    amount (dict.set key ((dict.get key).getD 0 + 1)).entries = amount dict.entries + 1 := by
  simp only [Dict.set, dictSet]
  cases found : dict.get key with
  | none =>
    have absent : key ∉ dict.entries.map Prod.fst := by
      intro inside
      obtain ⟨entry, isEntry, rfl⟩ := List.mem_map.mp inside
      rw [(get_iff dict entry.1 entry.2).mpr isEntry] at found
      cases found
    rw [if_neg absent]
    simp [amount]
  | some old =>
    have present : key ∈ dict.entries.map Prod.fst := List.mem_map.mpr ⟨_, (get_iff dict key old).mp found, rfl⟩
    have replaced := amount_replace dict.entries dict.distinct key old (old + 1) found
    rw [if_pos present, Option.getD_some]
    omega

end counts

section sums

variable {M R β : Type} [AddCommSemigroup M]

def plus : Option M → Option M → Option M
  | none, other => other
  | some amount, none => some amount
  | some amount, some other => some (amount + other)

def addUp (amounts : List (Option M)) : Option M := amounts.foldr plus none

theorem plus_none (left : Option M) : plus left none = left := by
  cases left <;> rfl

theorem plus_assoc (left middle right : Option M) : plus (plus left middle) right = plus left (plus middle right) := by
  cases left <;> cases middle <;> cases right <;> simp [plus, add_assoc]

theorem plus_comm (left right : Option M) : plus left right = plus right left := by
  cases left <;> cases right <;> simp [plus, add_comm]

theorem add_up_cons (amount : Option M) (rest : List (Option M)) : addUp (amount :: rest) = plus amount (addUp rest) := rfl

theorem add_up_append (left right : List (Option M)) : addUp (left ++ right) = plus (addUp left) (addUp right) := by
  induction left with
  | nil => rfl
  | cons amount rest ih => rw [List.cons_append, add_up_cons, add_up_cons, ih, plus_assoc]

theorem add_up_perm (left right : List (Option M)) (order : left.Perm right) : addUp left = addUp right := by
  induction order with
  | nil => rfl
  | cons amount _ ih => rw [add_up_cons, add_up_cons, ih]
  | swap first second rest =>
    rw [add_up_cons, add_up_cons, add_up_cons, add_up_cons, ← plus_assoc, ← plus_assoc, plus_comm second]
  | trans _ _ first second => rw [first, second]

theorem add_up_flatten (groups : List (List (Option M))) : addUp groups.flatten = addUp (groups.map addUp) := by
  induction groups with
  | nil => rfl
  | cons group rest ih => rw [List.flatten_cons, add_up_append, List.map_cons, add_up_cons, ih]

theorem fold_add_up (observe : R → Option M) (step : R → β → R) (amount : β → Option M)
    (adds : ∀ result item, observe (step result item) = plus (observe result) (amount item)) (items : List β) (start : R) :
    observe (items.foldl step start) = plus (observe start) (addUp (items.map amount)) := by
  induction items generalizing start with
  | nil => exact (plus_none _).symm
  | cons item rest ih => rw [List.foldl_cons, ih, adds, plus_assoc, List.map_cons, add_up_cons]

end sums

end TallyLib
