import Mathlib.Data.List.Basic
import Mathlib.Data.List.Perm.Subperm

/- Several producers, each with its own order, and one list in which their items
   arrive. The receiver may stop at an item and leave the rest. -/
set_option autoImplicit false

namespace InterleaveLib

section Lanes

variable {ι α β : Type}

def pick (choose : α → Option β) (merged : List (ι × α)) : List (ι × β) :=
  merged.filterMap fun entry => (choose entry.2).map fun item => (entry.1, item)

theorem pick_append (choose : α → Option β) (left right : List (ι × α)) :
    pick choose (left ++ right) = pick choose left ++ pick choose right := by
  rw [pick, List.filterMap_append, pick, pick]

theorem pick_values (choose : α → Option β) (merged : List (ι × α)) :
    (pick choose merged).map Prod.snd = merged.filterMap fun entry => choose entry.2 := by
  rw [pick, List.map_filterMap]
  congr 1
  funext entry
  rw [Option.map_map]
  exact Option.map_id'

variable [DecidableEq ι]

def lane (producer : ι) (merged : List (ι × α)) : List α :=
  merged.filterMap fun entry => if entry.1 = producer then some entry.2 else none

def Interleaves (sent : ι → List α) (merged : List (ι × α)) : Prop := ∀ producer, lane producer merged = sent producer

def Shuffles (sent : ι → List α) (values : List α) : Prop :=
  ∃ merged, Interleaves sent merged ∧ merged.map Prod.snd = values

theorem lane_cons_self (producer : ι) (item : α) (rest : List (ι × α)) :
    lane producer ((producer, item) :: rest) = item :: lane producer rest := by
  simp [lane]

theorem lane_cons_other (producer other : ι) (item : α) (rest : List (ι × α)) (differs : other ≠ producer) :
    lane producer ((other, item) :: rest) = lane producer rest := by
  simp [lane, differs]

theorem lane_append (producer : ι) (left right : List (ι × α)) :
    lane producer (left ++ right) = lane producer left ++ lane producer right := by
  rw [lane, List.filterMap_append, lane, lane]

theorem mem_lane (producer : ι) (item : α) (merged : List (ι × α)) :
    item ∈ lane producer merged ↔ (producer, item) ∈ merged := by
  rw [lane, List.mem_filterMap]
  constructor
  · rintro ⟨⟨other, found⟩, inside, here⟩
    by_cases same : other = producer
    · rw [if_pos same] at here
      rw [← same, ← Option.some.inj here]
      exact inside
    · rw [if_neg same] at here
      cases here
  · intro inside
    exact ⟨_, inside, if_pos rfl⟩

theorem lane_pick (choose : α → Option β) (producer : ι) (merged : List (ι × α)) :
    lane producer (pick choose merged) = (lane producer merged).filterMap choose := by
  induction merged with
  | nil => rfl
  | cons entry rest ih =>
    obtain ⟨other, item⟩ := entry
    have step : pick choose ((other, item) :: rest) = pick choose [(other, item)] ++ pick choose rest :=
      pick_append choose [(other, item)] rest
    rw [step, lane_append, ih]
    by_cases same : other = producer
    · rw [same, lane_cons_self, List.filterMap_cons]
      cases chosen : choose item <;> simp [pick, chosen, lane]
    · rw [lane_cons_other producer other item rest same]
      cases chosen : choose item <;> simp [pick, chosen, lane, same]

theorem count_lane [DecidableEq α] (producer : ι) (item : α) (merged : List (ι × α)) :
    merged.count (producer, item) = (lane producer merged).count item := by
  induction merged with
  | nil => rfl
  | cons entry rest ih =>
    obtain ⟨other, found⟩ := entry
    by_cases same : other = producer
    · rw [same, lane_cons_self, List.count_cons, List.count_cons, ih]
      simp
    · rw [lane_cons_other producer other found rest same, List.count_cons, ih]
      simp [same]

theorem lane_perm (producer : ι) (left right : List (ι × α)) (perm : left.Perm right) :
    (lane producer left).Perm (lane producer right) := perm.filterMap _

theorem lanes_eq_of_length (left right : List (ι × α))
    (within : ∀ producer, (lane producer left).Sublist (lane producer right)) (long : right.length ≤ left.length) (producer : ι) : lane producer left = lane producer right := by
  classical
  have below : left.Subperm right := by
    apply List.subperm_ext_iff.mpr
    intro entry _
    obtain ⟨other, item⟩ := entry
    rw [count_lane, count_lane]
    exact (within other).count_le item
  have perm := below.perm_of_length_le long
  exact (within producer).eq_of_length (lane_perm producer left right perm).length_eq

theorem lanes_empty (merged : List (ι × α)) (empty : ∀ producer, lane producer merged = []) : merged = [] := by
  apply List.eq_nil_iff_forall_not_mem.mpr
  intro entry inside
  have found := (mem_lane entry.1 entry.2 merged).mpr inside
  rw [empty] at found
  cases found

end Lanes

section Cuts

variable {α β : Type}

theorem after_stop_iff (passes : α → Bool) (harmless : α → Prop) (items : List α) :
    (∀ item ∈ items.dropWhile passes, harmless item) ↔
      ∀ before item after, items = before ++ item :: after → passes item = false →
        ∀ later ∈ item :: after, harmless later := by
  constructor
  · rintro rest before item after rfl stops later inside
    apply rest
    rw [List.dropWhile_append, List.dropWhile_cons_of_neg (by simp [stops])]
    split
    · exact inside
    · exact List.mem_append_right _ inside
  · intro cuts
    cases dropped : items.dropWhile passes with
    | nil => exact fun _ inside => by cases inside
    | cons item after =>
      have split := List.takeWhile_append_dropWhile (p := passes) (l := items)
      rw [dropped] at split
      apply cuts _ item after split.symm
      have nonempty : items.dropWhile passes ≠ [] := by simp [dropped]
      have stops := List.head_dropWhile_not passes nonempty
      simpa [dropped] using stops

theorem kept_of_filter_map (keeps : α → Bool) (choose : α → Option β) (items : List α)
    (lossless : (items.filter keeps).filterMap choose = items.filterMap choose) (item : α) (inside : item ∈ items)
    (chosen : choose item ≠ none) : keeps item = true := by
  induction items with
  | nil => cases inside
  | cons first rest ih =>
    have shorter : ((rest.filter keeps).filterMap choose).length ≤ (rest.filterMap choose).length :=
      (List.filter_sublist.filterMap choose).length_le
    cases kept : keeps first with
    | true =>
      rw [List.filter_cons_of_pos kept, List.filterMap_cons, List.filterMap_cons] at lossless
      rcases List.mem_cons.mp inside with rfl | later
      · exact kept
      · cases picked : choose first with
        | none =>
          rw [picked] at lossless
          exact ih lossless later
        | some value =>
          rw [picked] at lossless
          exact ih (List.cons.inj lossless).2 later
    | false =>
      rw [List.filter_cons_of_neg (by simp [kept]), List.filterMap_cons] at lossless
      cases picked : choose first with
      | some value =>
        rw [picked] at lossless
        have lengths := congrArg List.length lossless
        simp only [List.length_cons] at lengths
        omega
      | none =>
        rw [picked] at lossless
        rcases List.mem_cons.mp inside with rfl | later
        · exact absurd picked chosen
        · exact ih lossless later

end Cuts

end InterleaveLib
