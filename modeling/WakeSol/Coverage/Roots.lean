import WakeSol.Coverage.Counts

/- What further source roots do to a report. A root decides which rows there are
   before runs are formed, so the rows of a new file can cut a run of a file that was
   there before, and the second part of the run is then charged on its own. -/
set_option autoImplicit false

namespace WakeSol.Coverage

open TextLib TallyLib CacheLib

section sorting

variable {α : Type} (r : α → α → Prop) [DecidableRel r]

theorem insert_foremost (x : α) (l : List α) (least : ∀ y ∈ l, r x y) : l.orderedInsert r x = x :: l := by
  cases l with
  | nil => rfl
  | cons y rest => exact List.orderedInsert_cons_of_le r rest (least y List.mem_cons_self)

theorem filter_insert [IsTrans α r] (keep : α → Bool) (x : α) (l : List α) (sorted : l.Pairwise r) :
    (l.orderedInsert r x).filter keep =
      if keep x then (l.filter keep).orderedInsert r x else l.filter keep := by
  induction l with
  | nil => simp [List.filter_cons]
  | cons y rest ih =>
    obtain ⟨first, others⟩ := List.pairwise_cons.mp sorted
    rw [List.orderedInsert_cons]
    by_cases before : r x y
    · -- Everything after y is past x as well.
      have least : ∀ z ∈ (y :: rest).filter keep, r x z := by
        intro z inside
        rcases List.mem_cons.mp (List.mem_filter.mp inside).1 with rfl | later
        · exact before
        · exact Trans.trans before (first z later)
      rw [if_pos before, List.filter_cons, insert_foremost r x _ least]
    · rw [if_neg before, List.filter_cons, ih others, List.filter_cons]
      by_cases kept : keep y = true
      · rw [if_pos kept, if_pos kept, List.orderedInsert_cons, if_neg before]
        split <;> rfl
      · rw [if_neg kept, if_neg kept]

theorem filter_sort [IsTrans α r] [Std.Total r] (keep : α → Bool) (l : List α) :
    (l.insertionSort r).filter keep = (l.filter keep).insertionSort r := by
  induction l with
  | nil => rfl
  | cons x rest ih =>
    rw [List.insertionSort_cons, filter_insert r keep x _ (List.pairwise_insertionSort r rest), List.filter_cons, ih]
    split <;> rfl

end sorting

theorem resolve_path_extended (disk : Disk) (path : Text) (krate : Option Text) (roots extra : List RootSpec) (file : Text)
    (some_root : roots ≠ []) (found : resolvePath disk path krate roots = some file) :
    resolvePath disk path krate (roots ++ extra) = some file := by
  unfold resolvePath at found ⊢
  by_cases absolute : isAbsolute path = true
  · rw [if_pos absolute] at found ⊢
    by_cases below : (roots.any fun root => pathStartsWith path root.dir) = true
    · have also : ((roots ++ extra).any fun root => pathStartsWith path root.dir) = true := by simp [List.any_append, below]
      rw [also, Bool.or_true, if_pos rfl]
      rw [below, Bool.or_true, if_pos rfl] at found
      exact found
    · have nonempty : roots.isEmpty = false := by simpa using some_root
      rw [if_neg (by simp [nonempty, below])] at found
      cases found
  · rw [if_neg absolute] at found ⊢
    cases krate with
    | none => cases found
    | some krate =>
      dsimp only at found ⊢
      rw [List.findSome?_append, found, Option.some_or]

theorem statement_row_extended (disk : Disk) (roots extra : List RootSpec) (unit : CompUnit) (program : LineProgram)
    (row : LineRow) (found : StmtRow) (some_root : roots ≠ [])
    (resolved : statementRow disk roots unit program row = some found) :
    statementRow disk (roots ++ extra) unit program row = some found := by
  rw [statementRow] at resolved ⊢
  by_cases skipped : (row.endSequence || !row.isStmt) = true
  · rw [if_pos skipped] at resolved
    cases resolved
  · rw [if_neg skipped] at resolved ⊢
    simp only [bind, Option.bind_eq_some_iff] at resolved ⊢
    obtain ⟨line, hasLine, entry, known, path, composed, file, placed, rest⟩ := resolved
    exact ⟨line, hasLine, entry, known, path, composed, file,
      resolve_path_extended disk path _ roots extra file some_root placed, rest⟩

def Reclaims (disk : Disk) (roots extra : List RootSpec) (units : List CompUnit) : Prop :=
  ∃ unit ∈ units, ∃ program, unit.lineProgram = some program ∧ ∃ raw ∈ program.rows,
    statementRow disk roots unit program raw = none ∧
      ∃ row, statementRow disk (roots ++ extra) unit program raw = some row ∧
        ∃ known ∈ statementRows disk roots units, known.file = row.file

def inFiles (rows : List StmtRow) (row : StmtRow) : Bool := rows.any fun known => known.file = row.file

variable (rows : List StmtRow)

theorem in_files_iff (row : StmtRow) : inFiles rows row = true ↔ ∃ known ∈ rows, known.file = row.file := by
  simp [inFiles]

theorem rows_kept (disk : Disk) (roots extra : List RootSpec) (units : List CompUnit) (some_root : roots ≠ [])
    (none_reclaimed : ¬ Reclaims disk roots extra units) :
    (statementRows disk (roots ++ extra) units).filter (inFiles (statementRows disk roots units)) =
      statementRows disk roots units := by
  suffices same : ∀ known, statementRows disk roots units = known →
      (statementRows disk (roots ++ extra) units).filter (inFiles known) = statementRows disk roots units from same _ rfl
  intro known table
  rw [statementRows, List.filter_flatMap, statementRows]
  refine List.flatMap_congr fun unit inside => ?_
  rw [unitRows, unitRows]
  cases hasProgram : unit.lineProgram with
  | none => rfl
  | some program =>
    rw [List.filter_filterMap]
    refine List.filterMap_congr fun raw member => ?_
    have listed : ∀ row, statementRow disk roots unit program raw = some row → row ∈ known := by
      intro row placed
      rw [← table, statementRows, List.mem_flatMap]
      refine ⟨unit, inside, ?_⟩
      rw [unitRows, hasProgram]
      exact List.mem_filterMap.mpr ⟨raw, member, placed⟩
    cases placed : statementRow disk roots unit program raw with
    | some row =>
      have here : inFiles known row = true := (in_files_iff known row).mpr ⟨row, listed row placed, rfl⟩
      rw [statement_row_extended disk roots extra unit program raw row some_root placed, Option.filter_some, if_pos here]
    | none =>
      cases fresh : statementRow disk (roots ++ extra) unit program raw with
      | none => rfl
      | some row =>
        have apart : ¬ inFiles known row = true := by
          intro here
          obtain ⟨old, isOld, same⟩ := (in_files_iff known row).mp here
          rw [← table] at isOld
          exact none_reclaimed ⟨unit, inside, program, hasProgram, raw, member, placed, row, fresh, old, isOld, same⟩
        rw [Option.filter_some, if_neg apart]

theorem start_kept (rows all : List StmtRow) (kept : all.filter (inFiles rows) = rows) (start : StmtRow)
    (begins : start ∈ runStarts none rows) : start ∈ runStarts none all := by
  have known := (in_files_iff rows start).mpr ⟨start, run_starts_mem none rows start begins, rfl⟩
  rw [run_start_iff] at begins ⊢
  obtain ⟨front, back, split, apart⟩ := begins
  obtain ⟨allFront, rest, whole, isFront, isRest⟩ := List.filter_eq_append_iff.mp (kept.trans split)
  obtain ⟨skipped, allBack, restSplit, dropped, -, -⟩ := List.filter_eq_cons_iff.mp isRest
  refine ⟨allFront ++ skipped, allBack, by rw [whole, restSplit, List.append_assoc], ?_⟩
  rw [Option.or_none] at apart ⊢
  intro same
  obtain ⟨last, isLast, key⟩ := Option.map_eq_some_iff.mp same
  have sameFile : last.file = start.file := (Prod.mk.inj key).1
  have alsoKnown : inFiles rows last = true := by
    obtain ⟨old, inside, file⟩ := (in_files_iff rows start).mp known
    exact (in_files_iff rows last).mpr ⟨old, inside, file.trans sameFile.symm⟩
  have nothing : skipped = [] := by
    by_contra some_skipped
    rw [List.getLast?_append_of_ne_nil _ some_skipped] at isLast
    exact absurd alsoKnown (by simpa using dropped last (List.mem_of_getLast? isLast))
  rw [nothing, List.append_nil] at isLast
  have frontLast : front.getLast? = some last := by
    obtain ⟨before, rfl⟩ := List.getLast?_eq_some_iff.mp isLast
    rw [← isFront, List.filter_append, List.filter_cons_of_pos alsoKnown, List.filter_nil, List.getLast?_concat]
  exact apart (by rw [frontLast, Option.map_some, key])

def Dominated (charge : Nat → Nat) (left right : List StmtRow) (file : Text) : Prop :=
  ∀ start ∈ runStarts none left, start.file = file → ∃ other ∈ runStarts none right,
    (other.file = file ∧ other.line = start.line) ∧ charge start.address ≤ charge other.address

def hasLine (rows : List StmtRow) (file : Text) (line : Nat) : Prop := ∃ row ∈ rows, row.file = file ∧ row.line = line

structure Undisturbed (charge : Nat → Nat) (rows all : List StmtRow) (file : Text) : Prop where
  lines : ∀ line, hasLine all file line ↔ hasLine rows file line
  covered : Dominated charge all rows file
  kept : Dominated charge rows all file

def countOf (charge : Nat → Nat) (rows : List StmtRow) (file : Text) (line : Nat) : Option Nat :=
  if rows.any (StmtRow.isAt file line) then some (peak charge ((runStarts none rows).filter (StmtRow.isAt file line))) else none

theorem has_line_iff (file : Text) (line : Nat) :
    hasLine rows file line ↔ rows.any (StmtRow.isAt file line) = true := by
  simp [hasLine, is_at_iff]

variable (charge : Nat → Nat)

theorem count_of_some (rows : List StmtRow) (file : Text) (line : Nat) :
    (countOf charge rows file line).isSome = true ↔ hasLine rows file line := by
  rw [has_line_iff, countOf]
  by_cases present : rows.any (StmtRow.isAt file line) = true
  · rw [if_pos present, present]
    simp
  · rw [if_neg present]
    simpa using present

theorem start_line (start : StmtRow) (begins : start ∈ runStarts none rows) :
    hasLine rows start.file start.line := ⟨start, run_starts_mem none rows start begins, rfl, rfl⟩

theorem peak_le (rows : List StmtRow) (bound : Nat) (each : ∀ row ∈ rows, charge row.address ≤ bound) :
    peak charge rows ≤ bound := by
  induction rows with
  | nil => exact Nat.zero_le _
  | cons row rest ih =>
    exact max_le (each row List.mem_cons_self) (ih fun other inside => each other (List.mem_cons_of_mem _ inside))

theorem le_peak (rows : List StmtRow) (row : StmtRow) (inside : row ∈ rows) : charge row.address ≤ peak charge rows :=
  (peak_greatest charge rows (List.ne_nil_of_mem inside)).2 ⟨row, inside, rfl⟩

theorem dominated_iff (left right : List StmtRow) (file : Text)
    (lines : ∀ line, hasLine left file line → hasLine right file line) :
    Dominated charge left right file ↔ ∀ line, peak charge ((runStarts none left).filter (StmtRow.isAt file line)) ≤
      peak charge ((runStarts none right).filter (StmtRow.isAt file line)) := by
  constructor
  · intro dominated line
    refine peak_le charge _ _ fun start inside => ?_
    obtain ⟨begins, isAt⟩ := List.mem_filter.mp inside
    obtain ⟨rfl, rfl⟩ := (is_at_iff file line start).mp isAt
    obtain ⟨other, also, same, bound⟩ := dominated start begins rfl
    exact bound.trans (le_peak charge _ other (List.mem_filter.mpr ⟨also, (is_at_iff _ _ other).mpr same⟩))
  · rintro peaks start begins rfl
    have present := (has_line_iff right _ _).mp (lines start.line (start_line left start begins))
    obtain ⟨top, inside, same⟩ := (peak_greatest charge _ (charged_nonempty right _ _ present)).1
    obtain ⟨also, isAt⟩ := List.mem_filter.mp inside
    refine ⟨top, also, (is_at_iff _ _ top).mp isAt, ?_⟩
    rw [same]
    refine le_trans (le_peak charge _ start ?_) (peaks start.line)
    exact List.mem_filter.mpr ⟨begins, (is_at_iff _ _ start).mpr ⟨rfl, rfl⟩⟩

theorem same_counts_iff (rows all : List StmtRow) (file : Text) :
    (∀ line, countOf charge all file line = countOf charge rows file line) ↔ Undisturbed charge rows all file := by
  constructor
  · intro same
    have lines : ∀ line, hasLine all file line ↔ hasLine rows file line := by
      intro line
      rw [← count_of_some charge all, ← count_of_some charge rows, same line]
    have peaks : ∀ line, peak charge ((runStarts none all).filter (StmtRow.isAt file line)) =
        peak charge ((runStarts none rows).filter (StmtRow.isAt file line)) := by
      intro line
      have here := same line
      rw [countOf, countOf] at here
      by_cases present : rows.any (StmtRow.isAt file line) = true
      · have also := (has_line_iff all file line).mp ((lines line).mpr ((has_line_iff rows file line).mpr present))
        rw [if_pos also, if_pos present] at here
        exact Option.some.inj here
      · have absent : ∀ some_rows : List StmtRow, ¬ hasLine some_rows file line →
            (runStarts none some_rows).filter (StmtRow.isAt file line) = [] := by
          intro some_rows missing
          refine List.filter_eq_nil_iff.mpr fun start begins isAt => missing ?_
          obtain ⟨rfl, rfl⟩ := (is_at_iff file line start).mp isAt
          exact start_line some_rows start begins
        have missing := mt (has_line_iff rows file line).mp present
        rw [absent rows missing, absent all (mt (lines line).mp missing)]
    refine ⟨lines, ?_, ?_⟩
    · exact (dominated_iff charge all rows file fun line => (lines line).mp).mpr fun line => (peaks line).le
    · exact (dominated_iff charge rows all file fun line => (lines line).mpr).mpr fun line => (peaks line).ge
  · rintro ⟨lines, covered, kept⟩ line
    have up := (dominated_iff charge all rows file fun line => (lines line).mp).mp covered line
    have down := (dominated_iff charge rows all file fun line => (lines line).mpr).mp kept line
    have presence := lines line
    rw [has_line_iff, has_line_iff] at presence
    rw [countOf, countOf, le_antisymm up down]
    by_cases present : rows.any (StmtRow.isAt file line) = true
    · rw [if_pos present, if_pos (presence.mpr present)]
    · rw [if_neg present, if_neg (mt presence.mp present)]

theorem hits_at_le (hits : List Nat) (bound : Nat) (each : ∀ count ∈ hits, count ≤ bound) (textAddr addr : Nat) :
    hitsAt hits textAddr addr ≤ bound := by
  rw [hitsAt]
  by_cases before : addr < textAddr
  · rw [if_pos before]
    exact Nat.zero_le _
  · rw [if_neg before]
    cases found : hits[(addr - textAddr) / insnSize]? with
    | none => exact Nat.zero_le _
    | some count => exact each count (List.mem_of_getElem? found)

theorem saturated_count (hits : List Nat) (words : ∀ count ∈ hits, count ≤ u64Max) (address : Nat) (rows : List StmtRow)
    (file : Text) (line : Nat) :
    (if rows.any (StmtRow.isAt file line) then some (saturatingAdd 0 (lineMaximum (hitsAt hits address) rows file line))
      else none) = countOf (hitsAt hits address) rows file line := by
  rw [countOf]
  by_cases present : rows.any (StmtRow.isAt file line) = true
  · have small := peak_le (hitsAt hits address) ((runStarts none rows).filter (StmtRow.isAt file line)) u64Max
      fun row _ => hits_at_le hits u64Max words address row.address
    rw [if_pos present, if_pos present, ← line_maximum_peak _ _ _ _ present, saturatingAdd, Nat.zero_add, min_eq_left small]
  · rw [if_neg present, if_neg present]

section program

variable (toolchain : Toolchain) (disk : Disk) (debugElfs : Dict Address Bytes)

def ownTable (_ : Text) (fresh : Option LineTable) : Option LineTable := fresh

def programLines (roots : List RootSpec) (program : Address × ProgramCounters) : LineCounts :=
  (resolveProgram toolchain disk program.1 program.2 (debugElfs.get program.1) roots .empty .empty).lines

def programRows (roots : List RootSpec) (program : Address × ProgramCounters) : List StmtRow :=
  rowsUsed toolchain disk debugElfs roots ownTable program

def programObject (program : Address × ProgramCounters) : Option ObjectFile :=
  match chooseElf toolchain (debugElfs.get program.1) program.2.elf with
  | .elf elf => toolchain.parse elf
  | _ => none

def programUnits (program : Address × ProgramCounters) : List CompUnit :=
  ((programObject toolchain debugElfs program).bind ObjectFile.units).getD []

def chargeOf (program : Address × ProgramCounters) : Nat → Nat :=
  hitsAt program.2.hits (((programObject toolchain debugElfs program).bind ObjectFile.text).elim 0 CodeSection.address)

variable (roots : List RootSpec)

theorem table_used_own (program : Address × ProgramCounters) :
    tableUsed toolchain disk debugElfs roots ownTable program =
      (programObject toolchain debugElfs program).bind (freshTable disk roots) := by
  rw [tableUsed, tableRequest, programObject]
  cases chooseElf toolchain (debugElfs.get program.1) program.2.elf with
  | absent => rfl
  | mismatch => rfl
  | elf elf =>
    dsimp only
    cases toolchain.parse elf with
    | none => rfl
    | some object => rfl

theorem program_tables (program : Address × ProgramCounters) :
    (∀ roots, tableUsed toolchain disk debugElfs roots ownTable program = none) ∨
      ∃ address, chargeOf toolchain debugElfs program = hitsAt program.2.hits address ∧
        ∀ roots, tableUsed toolchain disk debugElfs roots ownTable program =
          some ⟨address, (statementRows disk roots (programUnits toolchain debugElfs program)).insertionSort byAddress,
            sorted_rows _⟩ := by
  simp only [table_used_own]
  rw [chargeOf, programUnits]
  cases programObject toolchain debugElfs program with
  | none => exact .inl fun _ => rfl
  | some object =>
    obtain ⟨text, debugLine, units⟩ := object
    cases text with
    | none => exact .inl fun _ => rfl
    | some text =>
      cases units with
      | none => exact .inl fun _ => rfl
      | some units => exact .inr ⟨text.address, rfl, fun _ => rfl⟩

theorem program_lines_using (program : Address × ProgramCounters) :
    programLines toolchain disk debugElfs roots program =
      (resolveUsing toolchain disk debugElfs roots ownTable program .empty).2 := by
  have direct := (resolve_program_using toolchain disk debugElfs roots program .empty .empty).1
  have choose : (fun key fresh => (request RowCache.empty key fresh).1) = ownTable := by
    funext key fresh
    exact request_value [] key fresh
  rw [choose] at direct
  exact congrArg Prod.snd direct

theorem program_lines_cell (program : Address × ProgramCounters)
    (words : ∀ count ∈ program.2.hits, count ≤ u64Max) (file : Text) (line : Nat) :
    cell (programLines toolchain disk debugElfs roots program) file line =
      countOf (chargeOf toolchain debugElfs program) (programRows toolchain disk debugElfs roots program) file line := by
  rw [program_lines_using, resolve_lines_cell, programRows, cell_empty, Option.getD_none, contribution, rowsUsed]
  rcases program_tables toolchain disk debugElfs program with none | ⟨address, charge, tables⟩
  · rw [none roots]
    rfl
  · rw [tables roots, charge]
    exact saturated_count program.2.hits words address _ file line

def SameCounts (left right : LineCounts) : Prop :=
  ∀ file, (left.get file).isSome = true → ∀ line, cell right file line = cell left file line

end program

def cutUnit : CompUnit :=
  ⟨none, none, some ⟨[(1, ⟨0, none, some ['/', 'a', '/', 'x']⟩), (2, ⟨0, none, some ['/', 'b', '/', 'y']⟩)],
    [⟨0, false, true, some 1, 1⟩, ⟨8, false, true, some 1, 2⟩, ⟨16, false, true, some 1, 1⟩]⟩⟩

def cutBuild : Toolchain where
  parse _ := some ⟨some ⟨0, some (List.replicate 24 0)⟩, some 1, some [cutUnit]⟩
  sha256Hex _ := ['d']
  executableText _ := List.replicate 24 0

def cutProgram : Address × ProgramCounters := (.fill 1, ⟨[1, 1, 2], some [1]⟩)

def firstRoot : RootSpec := ⟨['/', 'a'], ['a']⟩
def secondRoot : RootSpec := ⟨['/', 'b'], ['b']⟩

theorem cut_counts :
    (programLines cutBuild openDisk .empty [firstRoot] cutProgram).get ['/', 'a', '/', 'x'] ≠ none ∧
      cell (programLines cutBuild openDisk .empty [firstRoot] cutProgram) ['/', 'a', '/', 'x'] 1 = some 1 ∧
      cell (programLines cutBuild openDisk .empty [firstRoot, secondRoot] cutProgram) ['/', 'a', '/', 'x'] 1 = some 2 := by
  refine ⟨?_, by decide +kernel, by decide +kernel⟩
  rw [← Option.isSome_iff_ne_none]
  decide +kernel

theorem cut_changes : ¬ SameCounts (programLines cutBuild openDisk .empty [firstRoot] cutProgram)
    (programLines cutBuild openDisk .empty ([firstRoot] ++ [secondRoot]) cutProgram) := by
  intro same
  obtain ⟨present, first, second⟩ := cut_counts
  have here := same _ (Option.isSome_iff_ne_none.mpr present) 1
  rw [first] at here
  exact absurd (second.symm.trans here) (by decide)

end WakeSol.Coverage
