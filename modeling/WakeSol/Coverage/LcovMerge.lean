import WakeSol.Coverage.LcovText

/- Merging of LCOV reports through files: each input is read from its text and the
   result is written as text, to be an input of a later merge. -/
set_option autoImplicit false

namespace WakeSol.Coverage

open TextLib TallyLib LinesLib

structure LcovFile where
  name : Text
  text : Text
  builds : Dict Text BuildInfo

def LcovFile.read (file : LcovFile) : LcovReport := ⟨file.name, parseLcov file.text, file.builds⟩

def LcovReport.write (report : LcovReport) : LcovFile := ⟨report.name, formatLcov report.files, report.builds⟩

def mergeFiles (force : Bool) (inputs : List LcovFile) (out : Text) : Except Refusal LcovFile :=
  match mergeLcov force (inputs.map LcovFile.read) out with
  | .error refusal => .error refusal
  | .ok merged => .ok merged.write

mutual
inductive Staged where
  | report (leaf : LcovReport)
  | merge (force : Bool) (out : Text) (inputs : Stages)

inductive Stages where
  | nil
  | cons (first : Staged) (rest : Stages)
end

mutual
def Staged.run : Staged → Except Refusal LcovFile
  | .report leaf => .ok leaf.write
  | .merge force out inputs => match inputs.run with
    | .error refusal => .error refusal
    | .ok files => mergeFiles force files out

def Stages.run : Stages → Except Refusal (List LcovFile)
  | .nil => .ok []
  | .cons first rest => match first.run with
    | .error refusal => .error refusal
    | .ok file => match rest.run with
      | .error refusal => .error refusal
      | .ok files => .ok (file :: files)
end

mutual
def Staged.leaves : Staged → List LcovReport
  | .report leaf => [leaf]
  | .merge _ _ inputs => inputs.leaves

def Stages.leaves : Stages → List LcovReport
  | .nil => []
  | .cons first rest => first.leaves ++ rest.leaves
end

def sumCell (maps : List FileLines) (path : Text) (n : Int) : Option Int := addUp (maps.map fun files => cell files path n)

structure IsSum (maps : List FileLines) (sum : FileLines) : Prop where
  paths : ∀ path, (sum.get path).isSome = true ↔ ∃ files ∈ maps, (files.get path).isSome = true
  counts : ∀ path n, cell sum path n = sumCell maps path n

theorem sum_cell_append (left right : List FileLines) (path : Text) (n : Int) :
    sumCell (left ++ right) path n = plus (sumCell left path n) (sumCell right path n) := by
  rw [sumCell, List.map_append, add_up_append]
  rfl

theorem is_sum_single (files sum : FileLines) (same : SameMap sum files) : IsSum [files] sum where
  paths path := by simp [(same path).1]
  counts path n := by
    rw [(same path).2 n]
    exact (plus_none _).symm

theorem is_sum_same (maps : List FileLines) (sum other : FileLines) (isSum : IsSum maps sum) (same : SameMap other sum) :
    IsSum maps other where
  paths path := by rw [(same path).1, isSum.paths]
  counts path n := by rw [(same path).2 n, isSum.counts]

theorem is_sum_unique (left right : List FileLines) (order : left.Perm right) (sum other : FileLines) (first : IsSum left sum)
    (second : IsSum right other) : SameMap sum other := by
  refine fun path => ⟨?_, fun n => ?_⟩
  · rw [Bool.eq_iff_iff, first.paths, second.paths]
    simp only [order.mem_iff]
  · rw [first.counts, second.counts]
    exact add_up_perm _ _ (order.map _)

def addFiles (merged : FileLines) (report : LcovReport) : FileLines :=
  absorb (fun slot count => slot.getD 0 + count) merged report.files

theorem add_files_cell (path : Text) (n : Int) (merged : FileLines) (report : LcovReport) :
    cell (addFiles merged report) path n = plus (cell merged path n) (cell report.files path n) := by
  rw [addFiles, cell_absorb]
  cases cell merged path n <;> cases cell report.files path n <;> simp [plus]

theorem add_files_path (path : Text) (merged : FileLines) (report : LcovReport) :
    ((addFiles merged report).get path).isSome = true ↔
      (merged.get path).isSome = true ∨ (report.files.get path).isSome = true := by
  rw [addFiles, absorb, get_absorb]
  cases report.files.get path with
  | none => simp
  | some content => simp

theorem sum_files_path (inputs : List LcovReport) (merged : FileLines) (path : Text) :
    ((inputs.foldl addFiles merged).get path).isSome = true ↔
      (merged.get path).isSome = true ∨ ∃ report ∈ inputs, (report.files.get path).isSome = true := by
  induction inputs generalizing merged with
  | nil => simp
  | cons report rest ih => rw [List.foldl_cons, ih, add_files_path, List.exists_mem_cons_iff, or_assoc]

theorem sum_files_is_sum (inputs : List LcovReport) : IsSum (inputs.map LcovReport.files) (sumFiles inputs) where
  paths path := by
    refine (sum_files_path inputs .empty path).trans ?_
    simp [get_empty]
  counts path n := by
    have added := fold_add_up (fun files => cell files path n) addFiles (fun report => cell report.files path n)
      (add_files_cell path n) inputs .empty
    rw [sumCell, List.map_map]
    exact added

theorem format_same (left right : FileLines) (same : SameMap left right) : formatLcov left = formatLcov right := by
  have keys : sortedKeys left = sortedKeys right := sorted_keys_congr left right fun path => (same path).1
  rw [formatLcov, formatLcov, keys]
  refine congrArg joinLines (List.flatMap_congr fun path _ => ?_)
  have inner : ∀ n, (row left path).get n = (row right path).get n := (same path).2
  have numbers : sortedKeys (row left path) = sortedKeys (row right path) :=
    sorted_keys_congr _ _ fun n => congrArg Option.isSome (inner n)
  have entries : (row left path).entries.Perm (row right path).entries := by
    rw [List.perm_ext_iff_of_nodup (row left path).distinct.of_map (row right path).distinct.of_map]
    intro entry
    rw [← get_iff, ← get_iff, inner]
  rw [recordLines, recordLines, numbers, entries.length_eq, entries.countP_eq]
  simp only [inner]

theorem clean_sum (maps : List FileLines) (sum : FileLines) (isSum : IsSum maps sum) (clean : ∀ files ∈ maps, Clean files) :
    Clean sum := by
  intro path present
  obtain ⟨files, inside, also⟩ := (isSum.paths path).mp present
  exact clean files inside path also

def HoldsSum (leaves : List LcovReport) (file : LcovFile) : Prop :=
  ∃ files, file.text = formatLcov files ∧ Clean files ∧ IsSum (leaves.map LcovReport.files) files

inductive HoldSums : List LcovReport → List LcovFile → Prop where
  | nil : HoldSums [] []
  | cons (first : List LcovReport) (rest : List LcovReport) (file : LcovFile) (files : List LcovFile)
      (here : HoldsSum first file) (later : HoldSums rest files) : HoldSums (first ++ rest) (file :: files)

theorem holds_sum_parsed (leaves : List LcovReport) (file : LcovFile) (holds : HoldsSum leaves file) :
    Clean (parseLcov file.text) ∧ IsSum (leaves.map LcovReport.files) (parseLcov file.text) := by
  obtain ⟨files, text, clean, isSum⟩ := holds
  have same := parse_format files clean
  rw [text]
  exact ⟨fun path present => clean path (by rwa [← (same path).1]), is_sum_same _ _ _ isSum same⟩

theorem hold_sums_total (leaves : List LcovReport) (files : List LcovFile) (hold : HoldSums leaves files) :
    (∀ report ∈ files.map LcovFile.read, Clean report.files) ∧
      ∀ sum, IsSum ((files.map LcovFile.read).map LcovReport.files) sum → IsSum (leaves.map LcovReport.files) sum := by
  induction hold with
  | nil => exact ⟨by simp, fun sum isSum => isSum⟩
  | cons first rest file files here later ih =>
    obtain ⟨clean, isSum⟩ := holds_sum_parsed first file here
    obtain ⟨cleanRest, totals⟩ := ih
    refine ⟨?_, fun sum whole => ?_⟩
    · intro report inside
      rcases List.mem_cons.mp inside with rfl | after
      · exact clean
      · exact cleanRest report after
    · -- The later files hold a sum as well, so each part can be replaced by its leaves.
      have others := totals _ (sum_files_is_sum (files.map LcovFile.read))
      have kept := sum_files_is_sum (files.map LcovFile.read)
      refine ⟨fun path => ?_, fun path n => ?_⟩
      · rw [whole.paths, List.map_append]
        have hereIff := isSum.paths path
        have laterIff := (kept.paths path).symm.trans (others.paths path)
        simp only [List.map_cons, List.exists_mem_cons_iff, List.mem_append, or_and_right, exists_or]
        rw [← hereIff, ← laterIff]
        rfl
      · rw [whole.counts, List.map_append, sum_cell_append, ← isSum.counts path n, ← others.counts path n, kept.counts path n]
        rfl

theorem merge_lcov_ok (force : Bool) (inputs : List LcovReport) (out : Text) (merged : LcovReport)
    (accepted : mergeLcov force inputs out = .ok merged) : merged = ⟨out, sumFiles inputs, combinedBuilds inputs⟩ := by
  rw [mergeLcov] at accepted
  cases checked : checkBuilds force inputs with
  | error refusal =>
    rw [checked] at accepted
    cases accepted
  | ok seen =>
    rw [checked] at accepted
    exact (Except.ok.inj accepted).symm

theorem merge_files_sum (force : Bool) (leaves : List LcovReport) (files : List LcovFile) (out : Text) (result : LcovFile)
    (hold : HoldSums leaves files) (accepted : mergeFiles force files out = .ok result) : HoldsSum leaves result := by
  obtain ⟨clean, totals⟩ := hold_sums_total leaves files hold
  rw [mergeFiles] at accepted
  cases merging : mergeLcov force (files.map LcovFile.read) out with
  | error refusal =>
    rw [merging] at accepted
    cases accepted
  | ok merged =>
    rw [merging] at accepted
    have written := (Except.ok.inj accepted).symm
    have isSum := sum_files_is_sum (files.map LcovFile.read)
    refine ⟨sumFiles (files.map LcovFile.read), ?_, ?_, totals _ isSum⟩
    · rw [written, merge_lcov_ok force _ out merged merging]
      rfl
    · refine clean_sum _ _ isSum fun map inside => ?_
      obtain ⟨report, isInput, rfl⟩ := List.mem_map.mp inside
      exact clean report isInput

mutual
theorem staged_sum (plan : Staged) (file : LcovFile) (ran : plan.run = .ok file)
    (clean : ∀ leaf ∈ plan.leaves, Clean leaf.files) : HoldsSum plan.leaves file := by
  cases plan with
  | report leaf =>
    rw [Staged.run] at ran
    rw [Staged.leaves] at clean ⊢
    refine ⟨leaf.files, by rw [← Except.ok.inj ran]; rfl, clean leaf List.mem_cons_self, ?_⟩
    exact is_sum_single leaf.files leaf.files fun path => ⟨rfl, fun _ => rfl⟩
  | merge force out inputs =>
    rw [Staged.run] at ran
    rw [Staged.leaves] at clean ⊢
    cases all : inputs.run with
    | error refusal =>
      rw [all] at ran
      cases ran
    | ok files =>
      rw [all] at ran
      exact merge_files_sum force inputs.leaves files out file (stages_sum inputs files all clean) ran
theorem stages_sum (plans : Stages) (files : List LcovFile) (ran : plans.run = .ok files)
    (clean : ∀ leaf ∈ plans.leaves, Clean leaf.files) : HoldSums plans.leaves files := by
  cases plans with
  | nil =>
    rw [Stages.run] at ran
    rw [Stages.leaves, ← Except.ok.inj ran]
    exact .nil
  | cons first rest =>
    rw [Stages.run] at ran
    rw [Stages.leaves] at clean ⊢
    cases one : first.run with
    | error refusal =>
      rw [one] at ran
      cases ran
    | ok file =>
      rw [one] at ran
      cases others : rest.run with
      | error refusal =>
        rw [others] at ran
        cases ran
      | ok more =>
        rw [others] at ran
        rw [← Except.ok.inj ran]
        exact .cons _ _ _ _ (staged_sum first file one fun leaf inside => clean leaf (List.mem_append_left _ inside))
          (stages_sum rest more others fun leaf inside => clean leaf (List.mem_append_right _ inside))
end

theorem lcov_round_trip_merge :
    (∀ files : FileLines, Clean files → SameMap (parseLcov (formatLcov files)) files) ∧
    (∀ lines : LineCounts, toLcov lines = formatLcov (asPython lines)) ∧
    (∀ (plan : Staged) (file : LcovFile), (∀ leaf ∈ plan.leaves, Clean leaf.files) → plan.run = .ok file →
      IsSum (plan.leaves.map LcovReport.files) (parseLcov file.text)) ∧
    ∀ (plan other : Staged) (file otherFile : LcovFile), (∀ leaf ∈ plan.leaves, Clean leaf.files) →
      plan.leaves.Perm other.leaves → plan.run = .ok file → other.run = .ok otherFile → file.text = otherFile.text := by
  refine ⟨parse_format, writers_agree, fun plan file clean ran => ?_, fun plan other file otherFile clean order ran otherRan => ?_⟩
  · exact (holds_sum_parsed _ file (staged_sum plan file ran clean)).2
  · obtain ⟨files, text, -, isSum⟩ := staged_sum plan file ran clean
    obtain ⟨others, otherText, -, otherSum⟩ := staged_sum other otherFile otherRan fun leaf inside =>
      clean leaf (order.mem_iff.mpr inside)
    rw [text, otherText]
    exact format_same files others (is_sum_unique _ _ (order.map _) files others isSum otherSum)

end WakeSol.Coverage
