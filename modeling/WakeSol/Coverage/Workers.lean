import Mathlib.Data.Char
import Mathlib.Data.List.Lex
import Mathlib.Data.List.Sort
import WakeSol.Coverage.Lcov

/- The server's side of coverage in a parallel run: one slot for each worker with the
   report it sent last, merged in the order of the workers. -/
set_option autoImplicit false

namespace WakeSol.Coverage

open TextLib TallyLib

structure ProgramEntry where
  programId : Text
  instructionsCovered : Option Nat
  instructionsTotal : Option Nat
  hasDebugInfo : Option Bool
  linesResolved : Option Nat
  textMismatch : Option Bool
  textSha256 : Option Text

structure WorkerReport where
  files : Tally Text Int Int
  programs : List ProgramEntry

def WorkerReport.empty : WorkerReport := ⟨.empty, []⟩

-- Python's or: the left operand where it is true, else the right one.
def orElse (left right : Option Bool) : Option Bool := if left = some true then left else right

-- The first record of a program keeps its digest and size.
def ProgramEntry.combine (known other : ProgramEntry) : ProgramEntry := { known with
  instructionsCovered := some (max (known.instructionsCovered.getD 0) (other.instructionsCovered.getD 0))
  linesResolved := some (max (known.linesResolved.getD 0) (other.linesResolved.getD 0))
  hasDebugInfo := orElse known.hasDebugInfo other.hasDebugInfo
  textMismatch := orElse known.textMismatch other.textMismatch }

def mergeProgram (programs : Dict Text ProgramEntry) (entry : ProgramEntry) : Dict Text ProgramEntry :=
  match programs.get entry.programId with
  | none => programs.set entry.programId entry
  | some known => programs.set entry.programId (known.combine entry)

def programsById (programs : List ProgramEntry) : Dict Text ProgramEntry :=
  .of (programs.map fun entry => (entry.programId, entry))

def byId (left right : ProgramEntry) : Prop := left.programId ≤ right.programId

instance : DecidableRel byId := fun left right => inferInstanceAs (Decidable (left.programId ≤ right.programId))

def mergeReports (dst src : WorkerReport) : WorkerReport where
  files := absorb (fun slot count => slot.getD 0 + count) dst.files src.files
  programs := ((src.programs.foldl mergeProgram (programsById dst.programs)).entries.map Prod.snd).insertionSort byId

-- The slots: a coverage message replaces the worker's earlier one.
abbrev Slots := Dict Nat WorkerReport

def arrived (messages : List (Nat × WorkerReport)) : Slots := .of messages

def byIndex (left right : Nat × WorkerReport) : Prop := left.1 ≤ right.1

instance : DecidableRel byIndex := fun left right => inferInstanceAs (Decidable (left.1 ≤ right.1))

def contributors (slots : Slots) : List WorkerReport := (slots.entries.insertionSort byIndex).map Prod.snd

def mergedCoverage (slots : Slots) : WorkerReport := (contributors slots).foldl mergeReports .empty

def ProgramEntry.digest (entry : ProgramEntry) : Text := entry.textSha256.getD []

def writeMeta (report : WorkerReport) : Dict Text BuildInfo :=
  .of (report.programs.map fun entry =>
    (entry.programId, ⟨some entry.digest, some (entry.instructionsTotal.getD 0)⟩))

def Distinct (programs : List ProgramEntry) : Prop := (programs.map ProgramEntry.programId).Nodup

def firstDigest (programs : List ProgramEntry) (program : Text) : Option Text :=
  (programs.find? fun entry => entry.programId = program).map ProgramEntry.digest

def Keyed (programs : Dict Text ProgramEntry) : Prop := ∀ entry ∈ programs.entries, entry.2.programId = entry.1

theorem find_distinct (programs : List ProgramEntry) (distinct : Distinct programs) (program : Text) (entry : ProgramEntry) :
    programs.find? (fun entry => entry.programId = program) = some entry ↔ entry ∈ programs ∧ entry.programId = program := by
  induction programs with
  | nil => simp
  | cons first rest ih =>
    rw [Distinct, List.map_cons, List.nodup_cons] at distinct
    rw [List.find?_cons]
    by_cases here : first.programId = program
    · simp only [here, decide_true, Option.some.injEq, List.mem_cons]
      refine ⟨fun same => ⟨.inl same.symm, same ▸ here⟩, fun ⟨inside, isProgram⟩ => ?_⟩
      rcases inside with same | later
      · exact same.symm
      · apply absurd _ distinct.1
        rw [here, ← isProgram]
        exact List.mem_map_of_mem later
    · simp only [here, decide_false, ih distinct.2, List.mem_cons]
      refine ⟨fun ⟨later, isProgram⟩ => ⟨.inr later, isProgram⟩, fun ⟨inside, isProgram⟩ => ⟨?_, isProgram⟩⟩
      rcases inside with same | later
      · exact absurd (same ▸ isProgram) here
      · exact later

theorem by_id_get (programs : List ProgramEntry) (distinct : Distinct programs) (program : Text) :
    (programsById programs).get program = programs.find? fun entry => entry.programId = program := by
  apply Option.ext
  intro entry
  have keys : ((programs.map fun entry => (entry.programId, entry)).map Prod.fst).Nodup := by
    rw [List.map_map]
    exact distinct
  rw [programsById, get_of_distinct _ keys, find_distinct programs distinct, List.mem_map]
  refine ⟨fun ⟨source, inside, same⟩ => ?_, fun ⟨inside, isProgram⟩ => ⟨entry, inside, by rw [isProgram]⟩⟩
  cases same
  exact ⟨inside, rfl⟩

theorem by_id_keyed (programs : List ProgramEntry) : Keyed (programsById programs) := by
  intro entry inside
  obtain ⟨source, _, rfl⟩ := List.mem_map.mp (DictLib.dict_mem _ entry inside)
  rfl

theorem values_distinct (programs : Dict Text ProgramEntry) (keyed : Keyed programs) :
    Distinct ((programs.entries.map Prod.snd).insertionSort byId) := by
  rw [Distinct, ((List.perm_insertionSort byId (programs.entries.map Prod.snd)).map ProgramEntry.programId).nodup_iff, List.map_map]
  have same : programs.entries.map (ProgramEntry.programId ∘ Prod.snd) = programs.entries.map Prod.fst :=
    List.map_congr_left fun entry inside => keyed entry inside
  rw [same]
  exact programs.distinct

theorem values_find (programs : Dict Text ProgramEntry) (keyed : Keyed programs) (program : Text) :
    ((programs.entries.map Prod.snd).insertionSort byId).find? (fun entry => entry.programId = program) = programs.get program := by
  apply Option.ext
  intro entry
  rw [find_distinct _ (values_distinct programs keyed), List.mem_insertionSort, List.mem_map, get_iff]
  refine ⟨fun ⟨⟨pair, inside, same⟩, isProgram⟩ => ?_, fun inside => ⟨⟨_, inside, rfl⟩, keyed _ inside⟩⟩
  have key := keyed pair inside
  rw [same, isProgram] at key
  rw [key, ← same]
  exact inside

theorem set_keyed (programs : Dict Text ProgramEntry) (keyed : Keyed programs) (entry : ProgramEntry) (key : Text)
    (named : entry.programId = key) : Keyed (programs.set key entry) := by
  intro pair inside
  have found := (get_iff (programs.set key entry) pair.1 pair.2).mpr inside
  rw [get_set] at found
  by_cases same : pair.1 = key
  · rw [if_pos same] at found
    rw [← Option.some.inj found, named, same]
  · rw [if_neg same] at found
    exact keyed pair ((get_iff programs _ _).mp found)

theorem merge_program_keyed (programs : Dict Text ProgramEntry) (entry : ProgramEntry) (keyed : Keyed programs) :
    Keyed (mergeProgram programs entry) := by
  rw [mergeProgram]
  cases known : programs.get entry.programId with
  | none => exact set_keyed programs keyed entry entry.programId rfl
  | some first =>
    have key := keyed _ ((get_iff programs _ _).mp known)
    exact set_keyed programs keyed (first.combine entry) entry.programId key

theorem merge_program_digest (programs : Dict Text ProgramEntry) (entry : ProgramEntry) (program : Text) :
    ((mergeProgram programs entry).get program).map ProgramEntry.digest =
      ((programs.get program).map ProgramEntry.digest).or (firstDigest [entry] program) := by
  rw [mergeProgram, firstDigest, List.find?_singleton]
  by_cases same : entry.programId = program
  · subst same
    cases known : programs.get entry.programId with
    | none => simp [get_set]
    | some first =>
      simp only [get_set, if_true, Option.map_some, Option.some_or]
      rfl
  · have apart : ¬ program = entry.programId := fun other => same other.symm
    cases programs.get entry.programId with
    | none => simp [get_set, apart, same]
    | some first => simp [get_set, apart, same]

theorem first_digest_append (left right : List ProgramEntry) (program : Text) :
    firstDigest (left ++ right) program = (firstDigest left program).or (firstDigest right program) := by
  rw [firstDigest, List.find?_append, firstDigest, firstDigest]
  cases List.find? (fun entry => decide (entry.programId = program)) left <;> rfl

theorem merge_programs_digest (entries : List ProgramEntry) (programs : Dict Text ProgramEntry) (keyed : Keyed programs)
    (program : Text) :
    Keyed (entries.foldl mergeProgram programs) ∧
      ((entries.foldl mergeProgram programs).get program).map ProgramEntry.digest =
        ((programs.get program).map ProgramEntry.digest).or (firstDigest entries program) := by
  induction entries generalizing programs with
  | nil => exact ⟨keyed, Option.or_none.symm⟩
  | cons entry rest ih =>
    obtain ⟨stays, digest⟩ := ih (mergeProgram programs entry) (merge_program_keyed programs entry keyed)
    refine ⟨stays, ?_⟩
    rw [List.foldl_cons, digest, merge_program_digest, Option.or_assoc, ← first_digest_append]
    rfl

theorem merge_reports_digest (dst src : WorkerReport) (distinct : Distinct dst.programs) (program : Text) :
    Distinct (mergeReports dst src).programs ∧
      firstDigest (mergeReports dst src).programs program =
        (firstDigest dst.programs program).or (firstDigest src.programs program) := by
  obtain ⟨keyed, digest⟩ := merge_programs_digest src.programs (programsById dst.programs) (by_id_keyed dst.programs) program
  refine ⟨values_distinct _ keyed, ?_⟩
  rw [firstDigest, mergeReports, values_find _ keyed, digest, by_id_get dst.programs distinct]
  rfl

theorem merged_digest (reports : List WorkerReport) (merged : WorkerReport) (distinct : Distinct merged.programs)
    (program : Text) :
    Distinct (reports.foldl mergeReports merged).programs ∧
      firstDigest (reports.foldl mergeReports merged).programs program =
        (firstDigest merged.programs program).or (firstDigest (reports.flatMap WorkerReport.programs) program) := by
  induction reports generalizing merged with
  | nil => exact ⟨distinct, Option.or_none.symm⟩
  | cons report rest ih =>
    obtain ⟨here, digest⟩ := merge_reports_digest merged report distinct program
    obtain ⟨stays, later⟩ := ih (mergeReports merged report) here
    refine ⟨stays, ?_⟩
    rw [List.foldl_cons, later, digest, Option.or_assoc, ← first_digest_append]
    rfl

theorem write_meta_digest (report : WorkerReport) (distinct : Distinct report.programs) (program : Text) :
    ((writeMeta report).get program).map BuildInfo.digest = firstDigest report.programs program := by
  apply Option.ext
  intro digest
  have keys : ((report.programs.map fun entry =>
      (entry.programId, BuildInfo.mk (some entry.digest) (some (entry.instructionsTotal.getD 0)))).map Prod.fst).Nodup := by
    rw [List.map_map]
    exact distinct
  rw [writeMeta, firstDigest, Option.map_eq_some_iff, Option.map_eq_some_iff]
  refine ⟨fun ⟨info, found, same⟩ => ?_, fun ⟨entry, found, same⟩ => ?_⟩
  · obtain ⟨entry, inside, equal⟩ := List.mem_map.mp ((get_of_distinct _ keys program info).mp found)
    cases equal
    exact ⟨entry, (find_distinct _ distinct _ entry).mpr ⟨inside, rfl⟩, same⟩
  · obtain ⟨inside, isProgram⟩ := (find_distinct _ distinct program entry).mp found
    refine ⟨⟨some entry.digest, some (entry.instructionsTotal.getD 0)⟩,
      (get_of_distinct _ keys program _).mpr (List.mem_map.mpr ⟨entry, inside, ?_⟩), same⟩
    rw [isProgram]

def carried (slots : Slots) (program : Text) : List Text :=
  (((contributors slots).flatMap WorkerReport.programs).filter fun entry => entry.programId = program).map ProgramEntry.digest

theorem written_digest (slots : Slots) (program : Text) :
    ((writeMeta (mergedCoverage slots)).get program).map BuildInfo.digest = (carried slots program).head? := by
  obtain ⟨distinct, digest⟩ := merged_digest (contributors slots) .empty List.nodup_nil program
  rw [mergedCoverage, write_meta_digest _ distinct, digest, carried, List.head?_map, List.head?_filter]
  rfl

def NeverMixed (slots : Slots) : Prop :=
  ∀ program, (∀ left ∈ carried slots program, ∀ right ∈ carried slots program, left ≠ [] → right ≠ [] → left = right) ∧
    ∀ info, (writeMeta (mergedCoverage slots)).get program = some info →
      (∀ digest ∈ carried slots program, digest ≠ [] → info.digest = digest) ∧
        (info.digest = [] → ∀ digest ∈ carried slots program, digest = [])

theorem never_mixed_iff (messages : List (Nat × WorkerReport)) :
    NeverMixed (arrived messages) ↔
      ∀ program, ∀ digest ∈ carried (arrived messages) program, digest ≠ [] →
        (carried (arrived messages) program).head? = some digest := by
  have written := written_digest (arrived messages)
  refine ⟨fun never program digest inside marked => ?_, fun first program => ?_⟩
  · cases known : (writeMeta (mergedCoverage (arrived messages))).get program with
    | none =>
      have empty := written program
      rw [known, Option.map_none, eq_comm, List.head?_eq_none_iff] at empty
      rw [empty] at inside
      cases inside
    | some info =>
      have same := ((never program).2 info known).1 digest inside marked
      rw [← written program, known, Option.map_some, same]
  · refine ⟨fun left isLeft right isRight leftMarked rightMarked => ?_, fun info known => ?_⟩
    · have one := first program left isLeft leftMarked
      rw [first program right isRight rightMarked] at one
      exact (Option.some.inj one).symm
    · have head := written program
      rw [known, Option.map_some] at head
      have exact : ∀ digest ∈ carried (arrived messages) program, digest ≠ [] → info.digest = digest := by
        intro digest inside marked
        rw [first program digest inside marked] at head
        exact Option.some.inj head
      refine ⟨exact, fun empty digest inside => ?_⟩
      by_contra marked
      exact marked ((exact digest inside marked).symm.trans empty)

def ranBuild (digest : Text) : WorkerReport := ⟨.empty, [⟨['p'], some 1, some 1, some true, some 1, some false, some digest⟩]⟩

theorem mixed_builds_written :
    carried (arrived [(1, ranBuild ['2']), (0, ranBuild ['1'])]) ['p'] = [['1'], ['2']] ∧
      ((writeMeta (mergedCoverage (arrived [(1, ranBuild ['2']), (0, ranBuild ['1'])]))).get ['p']).map BuildInfo.digest =
        some ['1'] := by
  decide

end WakeSol.Coverage
