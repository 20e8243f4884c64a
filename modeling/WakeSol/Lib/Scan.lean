import Mathlib.Data.List.Perm.Basic

/- One pass over a list that keeps the largest item that fits, and of equally
   large ones the first. -/
set_option autoImplicit false

namespace ScanLib

variable {α : Type} (fits : α → Bool) (size : α → Nat)

def keep (best : Option α) (item : α) : Option α :=
  if fits item then
    match best with
    | none => some item
    | some held => if size item > size held then some item else best
  else best

def scan (items : List α) : Option α := items.foldl (keep fits size) none

def Largest (items : List α) (item : α) : Prop :=
  item ∈ items ∧ fits item = true ∧ ∀ other ∈ items, fits other = true → size other ≤ size item

def Kept (seen : List α) : Option α → Prop
  | none => ∀ item ∈ seen, fits item = false
  | some best => Largest fits size seen best

theorem kept_first (seen : List α) (item : α) (fit : fits item = true) (none : ∀ other ∈ seen, fits other = false) :
    Largest fits size (seen ++ [item]) item := by
  refine ⟨by simp, fit, fun other inside otherFits => ?_⟩
  rcases List.mem_append.mp inside with earlier | last
  · rw [none other earlier] at otherFits
    cases otherFits
  · have same := List.mem_singleton.mp last
    subst same
    exact Nat.le_refl _

theorem kept_larger (seen : List α) (item best : α) (fit : fits item = true) (larger : size item > size best)
    (kept : Largest fits size seen best) : Largest fits size (seen ++ [item]) item := by
  refine ⟨by simp, fit, fun other inside otherFits => ?_⟩
  rcases List.mem_append.mp inside with earlier | last
  · exact Nat.le_trans (kept.2.2 other earlier otherFits) (Nat.le_of_lt larger)
  · have same := List.mem_singleton.mp last
    subst same
    exact Nat.le_refl _

theorem kept_old (seen : List α) (item best : α) (small : fits item = true → size item ≤ size best)
    (kept : Largest fits size seen best) : Largest fits size (seen ++ [item]) best := by
  refine ⟨by simp [kept.1], kept.2.1, fun other inside otherFits => ?_⟩
  rcases List.mem_append.mp inside with earlier | last
  · exact kept.2.2 other earlier otherFits
  · rw [List.mem_singleton.mp last] at otherFits ⊢
    exact small otherFits

theorem kept_step (seen : List α) (best : Option α) (item : α) (kept : Kept fits size seen best) :
    Kept fits size (seen ++ [item]) (keep fits size best item) := by
  cases fit : fits item with
  | false =>
    simp only [keep, fit, Bool.false_eq_true, if_false]
    cases best with
    | none =>
      intro other inside
      rcases List.mem_append.mp inside with earlier | last
      · exact kept other earlier
      · rwa [List.mem_singleton.mp last]
    | some held => exact kept_old fits size seen item held (by simp [fit]) kept
  | true =>
    cases best with
    | none =>
      simp only [keep, fit, if_true]
      exact kept_first fits size seen item fit kept
    | some held =>
      by_cases larger : size item > size held
      · simp only [keep, fit, if_true, if_pos larger]
        exact kept_larger fits size seen item held fit larger kept
      · simp only [keep, fit, if_true, if_neg larger]
        exact kept_old fits size seen item held (fun _ => Nat.le_of_not_lt larger) kept

theorem scan_kept (items : List α) : Kept fits size items (scan fits size items) := by
  have run : ∀ (rest seen : List α) (best : Option α), Kept fits size seen best →
      Kept fits size (seen ++ rest) (rest.foldl (keep fits size) best) := by
    intro rest
    induction rest with
    | nil =>
      intro seen best kept
      rwa [List.append_nil]
    | cons item rest ih =>
      intro seen best kept
      have next := ih (seen ++ [item]) (keep fits size best item) (kept_step fits size seen best item kept)
      rwa [List.append_assoc] at next
  exact run items [] none (by simp [Kept])

theorem scan_none (items : List α) : scan fits size items = none ↔ ∀ item ∈ items, fits item = false := by
  have kept := scan_kept fits size items
  constructor
  · intro absent
    rwa [absent] at kept
  · intro unfit
    cases found : scan fits size items with
    | none => rfl
    | some best =>
      rw [found] at kept
      have fit := kept.2.1
      rw [unfit best kept.1] at fit
      cases fit

theorem scan_some (items : List α)
    (unique : ∀ a ∈ items, ∀ b ∈ items, fits a = true → fits b = true → size a = size b → a = b) (item : α) :
    scan fits size items = some item ↔ Largest fits size items item := by
  have kept := scan_kept fits size items
  constructor
  · intro found
    rwa [found] at kept
  · intro largest
    cases found : scan fits size items with
    | none =>
      have fit := (scan_none fits size items).mp found item largest.1
      rw [largest.2.1] at fit
      cases fit
    | some best =>
      rw [found] at kept
      have same := Nat.le_antisymm (largest.2.2 best kept.1 kept.2.1) (kept.2.2 item largest.1 largest.2.1)
      rw [unique best kept.1 item largest.1 kept.2.1 largest.2.1 same]

theorem largest_perm (items others : List α) (perm : others.Perm items) (item : α) :
    Largest fits size others item ↔ Largest fits size items item := by
  simp only [Largest, perm.mem_iff]

theorem scan_perm (items others : List α) (perm : others.Perm items)
    (unique : ∀ a ∈ items, ∀ b ∈ items, fits a = true → fits b = true → size a = size b → a = b) :
    scan fits size others = scan fits size items := by
  refine Option.ext fun item => ?_
  have uniqueOthers : ∀ a ∈ others, ∀ b ∈ others, fits a = true → fits b = true → size a = size b → a = b :=
    fun a left b right => unique a (perm.mem_iff.mp left) b (perm.mem_iff.mp right)
  rw [scan_some fits size others uniqueOthers, scan_some fits size items unique, largest_perm fits size items others perm]

end ScanLib
