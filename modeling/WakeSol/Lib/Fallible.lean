import Mathlib.Data.List.Forall2

/- Computations that may fail, and loops of them: a loop succeeds when each of its
   steps does, and then its results stand in the order of the steps. -/
set_option autoImplicit false

namespace FallibleLib

variable {ε α β : Type}

theorem map_m_ok (run : α → Except ε β) (items : List α) (results : List β) (ran : items.mapM run = .ok results) :
    List.Forall₂ (fun item result => run item = .ok result) items results := by
  induction items generalizing results with
  | nil =>
    cases ran
    exact .nil
  | cons item rest ih =>
    rw [List.mapM_cons] at ran
    cases first : run item with
    | error e =>
      rw [first] at ran
      cases ran
    | ok result =>
      cases later : rest.mapM run with
      | error e =>
        rw [first, later] at ran
        cases ran
      | ok others =>
        rw [first, later] at ran
        cases ran
        exact .cons first (ih others later)

theorem map_m_of (run : α → Except ε β) (items : List α) (results : List β)
    (each : List.Forall₂ (fun item result => run item = .ok result) items results) : items.mapM run = .ok results := by
  induction each with
  | nil => rfl
  | cons first _ ih =>
    rw [List.mapM_cons, first, ih]
    rfl

theorem map_ok (run : Except ε α) (change : α → β) (result : β) (ran : change <$> run = .ok result) :
    ∃ value, run = .ok value ∧ result = change value := by
  cases run with
  | error e => cases ran
  | ok value =>
    cases ran
    exact ⟨value, rfl, rfl⟩

theorem bind_ok (run : Except ε α) (next : α → Except ε β) (result : β) (ran : (run >>= next) = .ok result) :
    ∃ value, run = .ok value ∧ next value = .ok result := by
  cases run with
  | error e => cases ran
  | ok value => exact ⟨value, rfl, ran⟩

theorem forall_left (relation : α → β → Prop) (items : List α) (results : List β)
    (each : List.Forall₂ relation items results) : ∀ result ∈ results, ∃ item ∈ items, relation item result := by
  induction each with
  | nil => simp
  | cons first _ ih =>
    intro result inside
    rcases List.mem_cons.mp inside with rfl | later
    · exact ⟨_, by simp, first⟩
    · obtain ⟨item, member, held⟩ := ih result later
      exact ⟨item, by simp [member], held⟩

theorem bind_ok_iff (run : Except ε α) (next : α → Except ε β) (result : β) :
    (run >>= next) = .ok result ↔ ∃ value, run = .ok value ∧ next value = .ok result := by
  refine ⟨bind_ok run next result, ?_⟩
  rintro ⟨value, rfl, ran⟩
  exact ran

theorem map_ok_iff (run : Except ε α) (change : α → β) (result : β) :
    change <$> run = .ok result ↔ ∃ value, run = .ok value ∧ result = change value := by
  refine ⟨map_ok run change result, ?_⟩
  rintro ⟨value, rfl, rfl⟩
  rfl

theorem map_m_pairs (run : α → Except ε β) (items : List α) (results : List β) (size : items.length = results.length)
    (each : ∀ pair ∈ items.zip results, run pair.1 = .ok pair.2) : items.mapM run = .ok results :=
  map_m_of run items results (List.forall₂_iff_zip.mpr ⟨size, fun {_ _} inside => each _ inside⟩)

theorem map_m_congr (first second : α → Except ε β) (items : List α) (same : ∀ item ∈ items, first item = second item) :
    items.mapM first = items.mapM second := by
  induction items with
  | nil => rfl
  | cons item rest ih =>
    rw [List.mapM_cons, List.mapM_cons, same item (by simp), ih fun other inside => same other (by simp [inside])]

theorem map_m_total (run : α → Except ε β) (items : List α) (each : ∀ item ∈ items, ∃ result, run item = .ok result) :
    ∃ results, items.mapM run = .ok results := by
  induction items with
  | nil => exact ⟨[], rfl⟩
  | cons item rest ih =>
    obtain ⟨first, isFirst⟩ := each item (by simp)
    obtain ⟨others, isOthers⟩ := ih fun other inside => each other (by simp [inside])
    refine ⟨first :: others, ?_⟩
    rw [List.mapM_cons, isFirst, isOthers]
    rfl

theorem forall_maps {γ : Type} (left : α → γ) (right : β → γ) (items : List α) (results : List β)
    (each : List.Forall₂ (fun item result => right result = left item) items results) : results.map right = items.map left := by
  induction each with
  | nil => rfl
  | cons first _ ih => rw [List.map_cons, List.map_cons, first, ih]

end FallibleLib
