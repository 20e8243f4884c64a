import WakeSol.Coverage.Resolve

/- Which lines a report shows as executed. Rows of one line that follow each other
   are a run, and only the row that starts a run is charged, so a jump into the
   middle of a run leaves no mark. -/
set_option autoImplicit false

namespace WakeSol.Coverage

open TextLib TallyLib

def StmtRow.isAt (file : Text) (line : Nat) (row : StmtRow) : Bool := row.file = file ∧ row.line = line

def runStarts : Option (Text × Nat) → List StmtRow → List StmtRow
  | _, [] => []
  | prev, row :: rest =>
    if prev ≠ some (row.file, row.line) then row :: runStarts (some (row.file, row.line)) rest
    else runStarts (some (row.file, row.line)) rest

def peak (charge : Nat → Nat) : List StmtRow → Nat
  | [] => 0
  | row :: rest => max (charge row.address) (peak charge rest)

theorem is_at_iff (file : Text) (line : Nat) (row : StmtRow) : row.isAt file line = true ↔ row.file = file ∧ row.line = line := by
  simp [StmtRow.isAt]

theorem run_starts_mem (prev : Option (Text × Nat)) (rows : List StmtRow) : ∀ row ∈ runStarts prev rows, row ∈ rows := by
  induction rows generalizing prev with
  | nil => simp [runStarts]
  | cons first rest ih =>
    intro row inside
    rw [runStarts] at inside
    split at inside
    · rcases List.mem_cons.mp inside with rfl | later
      · exact List.mem_cons_self
      · exact List.mem_cons_of_mem _ (ih _ row later)
    · exact List.mem_cons_of_mem _ (ih _ row inside)

theorem peak_pos_iff (charge : Nat → Nat) (rows : List StmtRow) : 0 < peak charge rows ↔ ∃ row ∈ rows, 0 < charge row.address := by
  induction rows with
  | nil => simp [peak]
  | cons row rest ih =>
    rw [peak, lt_max_iff, ih]
    simp

theorem cell_charge_row (charge : Nat → Nat) (prev : Option (Text × Nat)) (lines : LineCounts) (row : StmtRow) (file : Text)
    (line : Nat) :
    cell (chargeRow charge prev lines row) file line =
      if row.isAt file line then
        some (max ((cell lines file line).getD 0) (peak charge ((runStarts prev [row]).filter (StmtRow.isAt file line))))
      else cell lines file line := by
  rw [chargeRow, cell_update]
  by_cases here : row.isAt file line = true
  · obtain ⟨rfl, rfl⟩ := (is_at_iff file line row).mp here
    rw [if_pos ⟨rfl, rfl⟩, if_pos here]
    by_cases run : prev ≠ some (row.file, row.line)
    · rw [if_pos run, runStarts, if_pos run, runStarts, List.filter_cons_of_pos here]
      simp [peak]
    · rw [if_neg run, runStarts, if_neg run, runStarts]
      simp [peak]
  · have apart : ¬ (file = row.file ∧ line = row.line) := by
      intro both
      exact here ((is_at_iff file line row).mpr ⟨both.1.symm, both.2.symm⟩)
    rw [if_neg apart, if_neg here]

theorem run_starts_cons (prev : Option (Text × Nat)) (row : StmtRow) (rest : List StmtRow) :
    runStarts prev (row :: rest) = runStarts prev [row] ++ runStarts (some (row.file, row.line)) rest := by
  rw [runStarts, runStarts, runStarts]
  split <;> rfl

theorem peak_append (charge : Nat → Nat) (left right : List StmtRow) :
    peak charge (left ++ right) = max (peak charge left) (peak charge right) := by
  induction left with
  | nil => simp [peak]
  | cons row rest ih => rw [List.cons_append, peak, peak, ih, max_assoc]

theorem cell_charge_rows (charge : Nat → Nat) (prev : Option (Text × Nat)) (lines : LineCounts) (rows : List StmtRow)
    (file : Text) (line : Nat) :
    cell (chargeRows charge prev lines rows) file line =
      if rows.any (StmtRow.isAt file line) then
        some (max ((cell lines file line).getD 0) (peak charge ((runStarts prev rows).filter (StmtRow.isAt file line))))
      else cell lines file line := by
  induction rows generalizing prev lines with
  | nil => rfl
  | cons row rest ih =>
    rw [chargeRows, ih, cell_charge_row, run_starts_cons prev row rest, List.filter_append, peak_append, List.any_cons]
    by_cases here : row.isAt file line = true
    · rw [if_pos here, here, Bool.true_or, if_pos rfl, Option.getD_some, max_assoc]
      by_cases later : rest.any (StmtRow.isAt file line) = true
      · rw [if_pos later]
      · -- No row of the line follows, so no run of it starts later.
        have none : (runStarts (some (row.file, row.line)) rest).filter (StmtRow.isAt file line) = [] := by
          rw [List.filter_eq_nil_iff]
          intro start inside isAt
          exact later (List.any_eq_true.mpr ⟨start, run_starts_mem _ rest start inside, isAt⟩)
        rw [if_neg later, none, peak, Nat.max_zero]
    · have skipped : (runStarts prev [row]).filter (StmtRow.isAt file line) = [] := by
        rw [List.filter_eq_nil_iff]
        intro start inside
        rw [List.mem_singleton.mp (run_starts_mem prev [row] start inside)]
        exact here
      rw [if_neg here, skipped, peak, Nat.zero_max]
      simp only [here, Bool.false_or]

theorem cell_line_counts (table : LineTable) (hits : List Nat) (file : Text) (line : Nat) :
    cell (lineCounts table hits) file line =
      if table.rows.any (StmtRow.isAt file line) then
        some (peak (hitsAt hits table.textAddr) ((runStarts none table.rows).filter (StmtRow.isAt file line)))
      else none := by
  rw [lineCounts, cell_charge_rows, cell_empty, Option.getD_none, Nat.zero_max]

theorem cell_add_lines (out lines : LineCounts) (file : Text) (line : Nat) :
    cell (addLines out lines) file line =
      match cell lines file line with
      | none => cell out file line
      | some count => some (saturatingAdd ((cell out file line).getD 0) count) := by
  rw [addLines, cell_absorb]
  cases cell lines file line <;> rfl

def Executed (table : LineTable) (hits : List Nat) (row : StmtRow) : Prop := 0 < hitsAt hits table.textAddr row.address

instance (table : LineTable) (hits : List Nat) (row : StmtRow) : Decidable (Executed table hits row) :=
  inferInstanceAs (Decidable (0 < _))

def Reported (lines : LineCounts) (file : Text) (line : Nat) : Prop := ∃ count, cell lines file line = some count ∧ 0 < count

theorem saturating_pos (count : Nat) : 0 < saturatingAdd 0 count ↔ 0 < count := by
  rw [saturatingAdd, u64Max]
  omega

theorem reported_iff (table : LineTable) (hits : List Nat) (file : Text) (line : Nat) :
    Reported (addLines .empty (lineCounts table hits)) file line ↔
      ∃ start ∈ runStarts none table.rows, (start.file = file ∧ start.line = line) ∧ Executed table hits start := by
  have charged := peak_pos_iff (hitsAt hits table.textAddr) ((runStarts none table.rows).filter (StmtRow.isAt file line))
  simp only [List.mem_filter, is_at_iff, and_assoc] at charged
  rw [Reported, cell_add_lines, cell_line_counts, cell_empty, Option.getD_none]
  by_cases present : table.rows.any (StmtRow.isAt file line) = true
  · rw [if_pos present]
    simp only [Option.some.injEq, exists_eq_left', saturating_pos, charged, Executed, and_assoc]
  · rw [if_neg present]
    refine ⟨fun ⟨_, impossible, _⟩ => (by simp at impossible), fun ⟨start, inside, isAt, _⟩ => ?_⟩
    have row := run_starts_mem none table.rows start inside
    exact absurd (List.any_eq_true.mpr ⟨start, row, (is_at_iff file line start).mpr isAt⟩) present

theorem reported_executed_iff (table : LineTable) (hits : List Nat) :
    (∀ file line, Reported (addLines .empty (lineCounts table hits)) file line ↔
        ∃ row ∈ table.rows, (row.file = file ∧ row.line = line) ∧ Executed table hits row) ↔
      ∀ row ∈ table.rows, Executed table hits row →
        ∃ start ∈ runStarts none table.rows, (start.file = row.file ∧ start.line = row.line) ∧ Executed table hits start := by
  simp only [reported_iff]
  refine ⟨fun exact row inside executed => (exact row.file row.line).mpr ⟨row, inside, ⟨rfl, rfl⟩, executed⟩, ?_⟩
  intro starts file line
  refine ⟨fun ⟨start, inside, isAt, executed⟩ => ?_, fun ⟨row, inside, isAt, executed⟩ => ?_⟩
  · exact ⟨start, run_starts_mem none table.rows start inside, isAt, executed⟩
  · obtain ⟨start, begins, same, hit⟩ := starts row inside executed
    exact ⟨start, begins, ⟨same.1.trans isAt.1, same.2.trans isAt.2⟩, hit⟩

theorem entered_rows_sorted : [StmtRow.mk 0 ['a'] 1, ⟨8, ['a'], 1⟩].Pairwise byAddress := by decide

def enteredTable : LineTable := ⟨0, [⟨0, ['a'], 1⟩, ⟨8, ['a'], 1⟩], entered_rows_sorted⟩

theorem entered_line_unreported :
    ∃ row ∈ enteredTable.rows, Executed enteredTable [0, 1] row ∧
      ¬ Reported (addLines .empty (lineCounts enteredTable [0, 1])) row.file row.line := by
  refine ⟨⟨8, ['a'], 1⟩, by simp [enteredTable], by decide, ?_⟩
  rw [Reported]
  rintro ⟨count, found, positive⟩
  have zero : cell (addLines .empty (lineCounts enteredTable [0, 1])) ['a'] 1 = some 0 := by decide
  rw [zero] at found
  cases found
  exact absurd positive (Nat.lt_irrefl 0)

end WakeSol.Coverage
