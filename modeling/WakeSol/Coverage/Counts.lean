import Mathlib.Order.Lattice.Nat
import WakeSol.Coverage.Lines
import WakeSol.Coverage.RowCache

/- The count of a source line over all programs. A program contributes the highest
   hit count among the first rows of the line's runs, and the contributions add up
   whatever the order of the programs is. -/
set_option autoImplicit false

namespace WakeSol.Coverage

open TextLib TallyLib CacheLib

def MaximalRun (rows : List StmtRow) (file : Text) (line : Nat) (run : List StmtRow) : Prop :=
  ∃ front back, rows = front ++ run ++ back ∧ run ≠ [] ∧ (∀ row ∈ run, row.isAt file line = true) ∧
    (∀ row, front.getLast? = some row → row.isAt file line = false) ∧
    ∀ row, back.head? = some row → row.isAt file line = false

def runCharges (charge : Nat → Nat) (rows : List StmtRow) (file : Text) (line : Nat) : Set Nat :=
  {n | ∃ first more, MaximalRun rows file line (first :: more) ∧ charge first.address = n}

theorem run_start_iff (prev : Option (Text × Nat)) (rows : List StmtRow) (start : StmtRow) :
    start ∈ runStarts prev rows ↔ ∃ front back, rows = front ++ start :: back ∧
      (front.getLast?.map fun row => (row.file, row.line)).or prev ≠ some (start.file, start.line) := by
  induction rows generalizing prev with
  | nil => simp [runStarts]
  | cons row rest ih =>
    have later : start ∈ runStarts (some (row.file, row.line)) rest ↔
        ∃ front back, row :: rest = (row :: front) ++ start :: back ∧
          ((row :: front).getLast?.map fun row => (row.file, row.line)).or prev ≠ some (start.file, start.line) := by
      rw [ih]
      refine exists_congr fun front => exists_congr fun back => ?_
      rw [List.cons_append, List.cons.injEq, List.getLast?_cons]
      cases front.getLast? with
      | none => simp
      | some last => simp
    rw [runStarts]
    constructor
    · intro inside
      by_cases begins : prev ≠ some (row.file, row.line)
      · rw [if_pos begins] at inside
        rcases List.mem_cons.mp inside with rfl | after
        · exact ⟨[], rest, rfl, begins⟩
        · obtain ⟨front, back, split, apart⟩ := later.mp after
          exact ⟨row :: front, back, split, apart⟩
      · rw [if_neg begins] at inside
        obtain ⟨front, back, split, apart⟩ := later.mp inside
        exact ⟨row :: front, back, split, apart⟩
    · rintro ⟨front, back, split, apart⟩
      cases front with
      | nil =>
        obtain ⟨rfl, rfl⟩ := List.cons.inj split
        have begins : prev ≠ some (row.file, row.line) := apart
        rw [if_pos begins]
        exact List.mem_cons_self
      | cons first others =>
        obtain ⟨rfl, -⟩ := List.cons.inj split
        have after := later.mpr ⟨others, back, split, apart⟩
        by_cases begins : prev ≠ some (row.file, row.line)
        · rw [if_pos begins]
          exact List.mem_cons_of_mem _ after
        · rw [if_neg begins]
          exact after

theorem charged_run_iff (rows : List StmtRow) (file : Text) (line : Nat) (start : StmtRow) :
    start ∈ (runStarts none rows).filter (StmtRow.isAt file line) ↔
      ∃ more, MaximalRun rows file line (start :: more) := by
  rw [List.mem_filter, run_start_iff]
  constructor
  · rintro ⟨⟨front, back, split, apart⟩, here⟩
    refine ⟨back.takeWhile (StmtRow.isAt file line), front, back.dropWhile (StmtRow.isAt file line), ?_, by simp, ?_, ?_, ?_⟩
    · rw [split, List.append_assoc, List.cons_append, List.takeWhile_append_dropWhile]
    · intro row inside
      rcases List.mem_cons.mp inside with rfl | taken
      · exact here
      · exact List.mem_takeWhile_imp taken
    · intro row last
      rw [Bool.eq_false_iff]
      intro also
      obtain ⟨rfl, rfl⟩ := (is_at_iff file line start).mp here
      obtain ⟨sameFile, sameLine⟩ := (is_at_iff _ _ row).mp also
      simp [last, sameFile, sameLine] at apart
    · intro row first
      have failed := List.head?_dropWhile_not (StmtRow.isAt file line) back
      rw [first] at failed
      simpa using failed
  · rintro ⟨more, front, back, split, -, inside, before, -⟩
    have here := inside start List.mem_cons_self
    refine ⟨⟨front, more ++ back, by rw [split, List.append_assoc]; rfl, ?_⟩, here⟩
    cases last : front.getLast? with
    | none => simp
    | some row =>
      have other := before row last
      intro same
      have keys : row.file = start.file ∧ row.line = start.line := by simpa using same
      obtain ⟨startFile, startLine⟩ := (is_at_iff file line start).mp here
      rw [(is_at_iff file line row).mpr ⟨keys.1.trans startFile, keys.2.trans startLine⟩] at other
      cases other

theorem peak_greatest (charge : Nat → Nat) (rows : List StmtRow) (nonempty : rows ≠ []) :
    IsGreatest {n | ∃ row ∈ rows, charge row.address = n} (peak charge rows) := by
  induction rows with
  | nil => exact absurd rfl nonempty
  | cons row rest ih =>
    rw [peak]
    by_cases last : rest = []
    · subst last
      exact ⟨⟨row, List.mem_cons_self, by simp [peak]⟩, by rintro n ⟨other, inside, rfl⟩; simp_all [peak]⟩
    · obtain ⟨⟨top, inside, same⟩, bound⟩ := ih last
      refine ⟨?_, ?_⟩
      · rcases le_total (charge row.address) (peak charge rest) with above | above
        · exact ⟨top, List.mem_cons_of_mem _ inside, by rw [same, max_eq_right above]⟩
        · exact ⟨row, List.mem_cons_self, (max_eq_left above).symm⟩
      · rintro n ⟨other, member, rfl⟩
        rcases List.mem_cons.mp member with rfl | later
        · exact le_max_left _ _
        · exact le_max_of_le_right (bound ⟨other, later, rfl⟩)

theorem charged_nonempty (rows : List StmtRow) (file : Text) (line : Nat)
    (present : rows.any (StmtRow.isAt file line) = true) :
    (runStarts none rows).filter (StmtRow.isAt file line) ≠ [] := by
  intro empty
  have split := List.takeWhile_append_dropWhile (p := fun row => !StmtRow.isAt file line row) (l := rows)
  cases rest : rows.dropWhile fun row => !StmtRow.isAt file line row with
  | nil =>
    obtain ⟨row, inside, here⟩ := List.any_eq_true.mp present
    have skipped := List.dropWhile_eq_nil_iff.mp rest row inside
    simp [here] at skipped
  | cons start back =>
    have here := List.head?_dropWhile_not (fun row => !StmtRow.isAt file line row) rows
    rw [rest] at here
    have isStart : start ∈ runStarts none rows := by
      rw [run_start_iff]
      refine ⟨rows.takeWhile fun row => !StmtRow.isAt file line row, back, by rw [← rest, split], ?_⟩
      cases last : (rows.takeWhile fun row => !StmtRow.isAt file line row).getLast? with
      | none => simp
      | some row =>
        have skipped := List.mem_takeWhile_imp (List.mem_of_getLast? last)
        obtain ⟨startFile, startLine⟩ := (is_at_iff file line start).mp (by simpa using here)
        intro same
        have keys : row.file = start.file ∧ row.line = start.line := by simpa using same
        have also := (is_at_iff file line row).mpr ⟨keys.1.trans startFile, keys.2.trans startLine⟩
        simp [also] at skipped
    have listed := List.mem_filter.mpr ⟨isStart, by simpa using here⟩
    rw [empty] at listed
    cases listed

noncomputable def lineMaximum (charge : Nat → Nat) (rows : List StmtRow) (file : Text) (line : Nat) : Nat :=
  sSup (runCharges charge rows file line)

theorem run_charges_starts (charge : Nat → Nat) (rows : List StmtRow) (file : Text) (line : Nat) :
    runCharges charge rows file line =
      {n | ∃ row ∈ (runStarts none rows).filter (StmtRow.isAt file line), charge row.address = n} := by
  ext n
  simp only [runCharges, Set.mem_ofPred_eq, charged_run_iff]
  constructor
  · rintro ⟨first, more, run, same⟩
    exact ⟨first, ⟨more, run⟩, same⟩
  · rintro ⟨first, ⟨more, run⟩, same⟩
    exact ⟨first, more, run, same⟩

theorem line_maximum_greatest (charge : Nat → Nat) (rows : List StmtRow) (file : Text) (line : Nat)
    (present : rows.any (StmtRow.isAt file line) = true) :
    IsGreatest (runCharges charge rows file line) (lineMaximum charge rows file line) := by
  have greatest := peak_greatest charge _ (charged_nonempty rows file line present)
  rw [← run_charges_starts] at greatest
  rw [lineMaximum, greatest.csSup_eq]
  exact greatest

theorem line_maximum_peak (charge : Nat → Nat) (rows : List StmtRow) (file : Text) (line : Nat)
    (present : rows.any (StmtRow.isAt file line) = true) :
    peak charge ((runStarts none rows).filter (StmtRow.isAt file line)) = lineMaximum charge rows file line := by
  have greatest := peak_greatest charge _ (charged_nonempty rows file line present)
  rw [← run_charges_starts] at greatest
  rw [lineMaximum, greatest.csSup_eq]

theorem line_maximum_absent (charge : Nat → Nat) (rows : List StmtRow) (file : Text) (line : Nat)
    (absent : rows.any (StmtRow.isAt file line) = false) : lineMaximum charge rows file line = 0 := by
  have empty : runCharges charge rows file line = ∅ := by
    rw [Set.eq_empty_iff_forall_notMem]
    rintro n ⟨first, more, ⟨front, back, split, -, inside, -⟩, -⟩
    have row : first ∈ rows := by simp [split]
    have also := List.any_eq_true.mpr ⟨first, row, inside first List.mem_cons_self⟩
    rw [absent] at also
    cases also
  rw [lineMaximum, empty, csSup_empty]
  rfl

theorem charge_row_files (charge : Nat → Nat) (prev : Option (Text × Nat)) (lines : LineCounts) (row : StmtRow) (file : Text) :
    ((chargeRow charge prev lines row).get file).isSome = true ↔ row.file = file ∨ (lines.get file).isSome = true := by
  rw [chargeRow, update, get_set]
  by_cases same : file = row.file
  · simp [same]
  · simp [same, Ne.symm same]

theorem charge_rows_files (charge : Nat → Nat) (prev : Option (Text × Nat)) (lines : LineCounts) (rows : List StmtRow)
    (file : Text) : ((chargeRows charge prev lines rows).get file).isSome = true ↔
      (lines.get file).isSome = true ∨ ∃ row ∈ rows, row.file = file := by
  induction rows generalizing prev lines with
  | nil => simp [chargeRows]
  | cons row rest ih =>
    rw [chargeRows, ih, charge_row_files, List.exists_mem_cons_iff]
    tauto

theorem add_lines_files (out lines : LineCounts) (file : Text) :
    ((addLines out lines).get file).isSome = true ↔ (out.get file).isSome = true ∨ (lines.get file).isSome = true := by
  rw [addLines, absorb, get_absorb]
  cases lines.get file with
  | none => simp
  | some content => simp

section fold

variable (toolchain : Toolchain) (disk : Disk) (debugElfs : Dict Address Bytes) (roots : List RootSpec)
  (choose : Text → Option LineTable → Option LineTable)

def tableUsed (program : Address × ProgramCounters) : Option LineTable :=
  (tableRequest toolchain disk debugElfs roots program).bind fun asked => choose asked.1 asked.2

def rowsUsed (program : Address × ProgramCounters) : List StmtRow :=
  ((tableUsed toolchain disk debugElfs roots choose program).map LineTable.rows).getD []

noncomputable def contribution (file : Text) (line : Nat) (program : Address × ProgramCounters) : Nat :=
  match tableUsed toolchain disk debugElfs roots choose program with
  | none => 0
  | some table => lineMaximum (hitsAt program.2.hits table.textAddr) table.rows file line

theorem resolve_lines_cell (program : Address × ProgramCounters) (out : LineCounts) (file : Text) (line : Nat) :
    cell (resolveUsing toolchain disk debugElfs roots choose program out).2 file line =
      if (rowsUsed toolchain disk debugElfs roots choose program).any (StmtRow.isAt file line) then
        some (saturatingAdd ((cell out file line).getD 0)
          (contribution toolchain disk debugElfs roots choose file line program))
      else cell out file line := by
  rw [resolveUsing, rowsUsed, contribution, tableUsed]
  cases tableRequest toolchain disk debugElfs roots program with
  | none => rfl
  | some asked =>
    rw [Option.bind_some]
    dsimp only
    cases choose asked.1 asked.2 with
    | none => rfl
    | some table =>
      rw [withTable, Option.map_some, Option.getD_some]
      dsimp only
      by_cases empty : table.rows = []
      · simp [empty]
      · rw [if_neg (by simpa using empty), cell_add_lines, cell_line_counts]
        by_cases present : table.rows.any (StmtRow.isAt file line) = true
        · rw [if_pos present, if_pos present, line_maximum_peak _ _ _ _ present]
        · rw [if_neg present, if_neg present]

theorem contribution_absent (program : Address × ProgramCounters) (file : Text) (line : Nat)
    (absent : (rowsUsed toolchain disk debugElfs roots choose program).any (StmtRow.isAt file line) = false) :
    contribution toolchain disk debugElfs roots choose file line program = 0 := by
  rw [rowsUsed] at absent
  rw [contribution]
  cases used : tableUsed toolchain disk debugElfs roots choose program with
  | none => rfl
  | some table =>
    rw [used] at absent
    exact line_maximum_absent _ _ _ _ absent

theorem resolve_all_cell (programs : List (Address × ProgramCounters)) (out : LineCounts) (file : Text) (line : Nat) :
    ((cell (resolveAllUsing toolchain disk debugElfs roots choose programs out).1 file line).isSome = true ↔
        (cell out file line).isSome = true ∨
          ∃ program ∈ programs, ∃ row ∈ rowsUsed toolchain disk debugElfs roots choose program,
            row.file = file ∧ row.line = line) ∧
      ((cell out file line).getD 0 + (programs.map (contribution toolchain disk debugElfs roots choose file line)).sum < 2 ^ 64 →
        (cell (resolveAllUsing toolchain disk debugElfs roots choose programs out).1 file line).getD 0 =
          (cell out file line).getD 0 + (programs.map (contribution toolchain disk debugElfs roots choose file line)).sum) := by
  induction programs generalizing out with
  | nil => simp [resolveAllUsing]
  | cons program rest ih =>
    have here := resolve_lines_cell toolchain disk debugElfs roots choose program out file line
    obtain ⟨known, total⟩ := ih (resolveUsing toolchain disk debugElfs roots choose program out).2
    have shape : (resolveAllUsing toolchain disk debugElfs roots choose (program :: rest) out).1 =
        (resolveAllUsing toolchain disk debugElfs roots choose rest
          (resolveUsing toolchain disk debugElfs roots choose program out).2).1 := rfl
    rw [here] at known total
    rw [shape, known, List.map_cons, List.sum_cons]
    by_cases present : (rowsUsed toolchain disk debugElfs roots choose program).any (StmtRow.isAt file line) = true
    · have found : ∃ row ∈ rowsUsed toolchain disk debugElfs roots choose program, row.file = file ∧ row.line = line := by
        simpa [is_at_iff] using present
      rw [if_pos present] at total ⊢
      refine ⟨by simp [found], fun below => ?_⟩
      have exact : saturatingAdd ((cell out file line).getD 0)
          (contribution toolchain disk debugElfs roots choose file line program) =
          (cell out file line).getD 0 + contribution toolchain disk debugElfs roots choose file line program := by
        rw [saturatingAdd, u64Max]
        omega
      rw [Option.getD_some, exact, Nat.add_assoc] at total
      exact total below
    · have missing : ¬ ∃ row ∈ rowsUsed toolchain disk debugElfs roots choose program, row.file = file ∧ row.line = line := by
        simpa [is_at_iff] using present
      rw [if_neg present] at total ⊢
      rw [contribution_absent toolchain disk debugElfs roots choose program file line (by simpa using present), Nat.zero_add]
      exact ⟨by simp [missing], total⟩

theorem resolve_lines_files (program : Address × ProgramCounters) (out : LineCounts) (file : Text) :
    ((resolveUsing toolchain disk debugElfs roots choose program out).2.get file).isSome = true ↔
      (out.get file).isSome = true ∨ ∃ row ∈ rowsUsed toolchain disk debugElfs roots choose program, row.file = file := by
  rw [resolveUsing, rowsUsed, tableUsed]
  cases tableRequest toolchain disk debugElfs roots program with
  | none => simp
  | some asked =>
    rw [Option.bind_some]
    dsimp only
    cases choose asked.1 asked.2 with
    | none => simp [withTable]
    | some table =>
      rw [withTable, Option.map_some, Option.getD_some]
      dsimp only
      by_cases empty : table.rows = []
      · simp [empty]
      · rw [if_neg (by simpa using empty), add_lines_files, lineCounts, charge_rows_files]
        simp [get_empty]

theorem resolve_all_files (programs : List (Address × ProgramCounters)) (out : LineCounts) (file : Text) :
    ((resolveAllUsing toolchain disk debugElfs roots choose programs out).1.get file).isSome = true ↔
      (out.get file).isSome = true ∨
        ∃ program ∈ programs, ∃ row ∈ rowsUsed toolchain disk debugElfs roots choose program, row.file = file := by
  induction programs generalizing out with
  | nil => simp [resolveAllUsing]
  | cons program rest ih =>
    have shape : (resolveAllUsing toolchain disk debugElfs roots choose (program :: rest) out).1 =
        (resolveAllUsing toolchain disk debugElfs roots choose rest
          (resolveUsing toolchain disk debugElfs roots choose program out).2).1 := rfl
    rw [shape, ih, resolve_lines_files, List.exists_mem_cons_iff, or_assoc]

theorem contribution_greatest (program : Address × ProgramCounters) (table : LineTable) (file : Text) (line : Nat)
    (used : tableUsed toolchain disk debugElfs roots choose program = some table)
    (present : ∃ row ∈ table.rows, row.file = file ∧ row.line = line) :
    IsGreatest (runCharges (hitsAt program.2.hits table.textAddr) table.rows file line)
      (contribution toolchain disk debugElfs roots choose file line program) := by
  rw [contribution, used]
  exact line_maximum_greatest _ _ _ _ (by simpa [is_at_iff] using present)

end fold

def cachedOr (past : List (Text × Option LineTable)) (key : Text) (fresh : Option LineTable) : Option LineTable :=
  (firstAnswer past key).or fresh

def visitedLines (toolchain : Toolchain) (disk : Disk) (counters : Counters) (roots : List RootSpec) (cache : RowCache)
    (visited : List (Address × ProgramCounters)) : LineCounts :=
  (resolveAll toolchain disk counters.debugElfs roots visited .empty cache).1

theorem build_report_visited (toolchain : Toolchain) (disk : Disk) (counters : Counters) (roots : List RootSpec)
    (cache : RowCache) : (buildReport toolchain disk counters roots cache).1.lines =
      visitedLines toolchain disk counters roots cache counters.programs.entries := rfl

def sharedPrograms : List (Address × ProgramCounters) := [(.fill 1, ⟨[1], some [2]⟩), (.fill 2, ⟨[2], some [2]⟩)]

theorem shared_programs_distinct : (sharedPrograms.map Prod.fst).Nodup := by decide

def sharedCounters : Counters := ⟨⟨sharedPrograms, shared_programs_distinct⟩, .empty⟩

end WakeSol.Coverage
