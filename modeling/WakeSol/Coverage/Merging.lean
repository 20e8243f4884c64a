import WakeSol.Coverage.InPlace

/- The in-place merge is the merge of reports: the report merged into comes to
   stand for mergeReports of the two, in objects of its own, and everything older
   than it is as it was. -/
set_option autoImplicit false

namespace WakeSol.Coverage

open TextLib TallyLib HeapLib

section Sorting

variable {α β : Type} (less : α → α → Prop) (below : β → β → Prop) [DecidableRel less] [DecidableRel below]
  (related : α → β → Prop) (agrees : ∀ first image second other, related first image → related second other →
    (less first second ↔ below image other))

include agrees in
theorem insert_related (first : α) (image : β) (stands : related first image) (lefts : List α) (rights : List β)
    (each : List.Forall₂ related lefts rights) :
    List.Forall₂ related (lefts.orderedInsert less first) (rights.orderedInsert below image) := by
  induction each with
  | nil => exact .cons stands .nil
  | @cons second other lefts rights also rest ih =>
    rw [List.orderedInsert_cons, List.orderedInsert_cons]
    by_cases before : less first second
    · rw [if_pos before, if_pos ((agrees first image second other stands also).mp before)]
      exact .cons stands (.cons also rest)
    · rw [if_neg before, if_neg fun after => before ((agrees first image second other stands also).mpr after)]
      exact .cons also ih

include agrees in
theorem sort_related (lefts : List α) (rights : List β) (each : List.Forall₂ related lefts rights) :
    List.Forall₂ related (lefts.insertionSort less) (rights.insertionSort below) := by
  induction each with
  | nil => exact .nil
  | cons first _ ih => exact insert_related less below related agrees _ _ first _ _ ih

end Sorting

section Programs

def OwnEntry (mark : Nat) (heap : Heap Obj) (ref : Ref) (entry : ProgramEntry) : Prop :=
  mark ≤ ref ∧ heap[ref]? = some (.program entry)

structure Listed (base before : Heap Obj) (programs : Dict Text ProgramEntry) (known : Dict Text Ref) (heap : Heap Obj) :
    Prop where
  left : Leaves base.length Obj.isProgram before heap
  paired : Paired (OwnEntry base.length heap) known programs
  keyed : Keyed programs

theorem listed_apart (base before : Heap Obj) (programs : Dict Text ProgramEntry) (known : Dict Text Ref) (heap : Heap Obj)
    (held : Listed base before programs known heap) (name other : Text) (ref : Ref) (found : known.get name = some ref)
    (also : known.get other = some ref) : name = other := by
  obtain ⟨first, isFirst, own⟩ := paired_some _ known programs held.paired name ref found
  obtain ⟨second, isSecond, same⟩ := paired_some _ known programs held.paired other ref also
  have equal := own.2.symm.trans same.2
  rw [Option.some.injEq, Obj.program.injEq] at equal
  have firstKey := held.keyed _ ((get_iff programs name first).mp isFirst)
  have secondKey := held.keyed _ ((get_iff programs other second).mp isSecond)
  rw [equal] at firstKey
  exact firstKey.symm.trans secondKey

theorem merge_program (base before : Heap Obj) (grown : Extends base before) (source : Ref) (entry : ProgramEntry)
    (programs : Dict Text ProgramEntry) (known : Dict Text Ref) (heap : Heap Obj)
    (stands : base[source]? = some (.program entry)) (held : Listed base before programs known heap) :
    Yields (mergeProgramAt known source) heap fun known after =>
      Listed base before (mergeProgram programs entry) known after := by
  have kept := extends_leaves _ base before heap grown held.left
  have keyed := merge_program_keyed programs entry held.keyed
  refine yields_step _ _ heap heap entry _ (load_of _ heap source _ entry (kept source _ stands) rfl) ?_
  cases found : known.get entry.programId with
  | none =>
    have absent := paired_none _ known programs held.paired entry.programId found
    refine yields_step _ _ heap _ heap.length _ rfl (yields_pure _ _ _ ⟨?_, ?_, keyed⟩)
    · exact leaves_trans _ _ before heap _ held.left (leaves_alloc _ _ heap _)
    · rw [mergeProgram, absent]
      refine paired_set _ _ known programs entry.programId heap.length entry held.paired
        ⟨extends_length base heap kept, read_new heap _⟩ fun name old image _ _ own => ?_
      exact ⟨own.1, extends_alloc heap _ old _ own.2⟩
  | some ref =>
    obtain ⟨first, isFirst, own⟩ := paired_some _ known programs held.paired entry.programId ref found
    refine yields_step _ _ heap heap first _ (load_of _ heap ref _ first own.2 rfl) ?_
    refine yields_step _ _ heap _ () _ (store_of heap ref _ _ own.2) (yields_pure _ _ _ ⟨?_, ?_, keyed⟩)
    · exact leaves_trans _ _ before heap _ held.left (leaves_store _ _ heap ref _ _ own.2 own.1 rfl)
    · rw [mergeProgram, isFirst]
      have same : known.set entry.programId ref = known := set_known known entry.programId ref found
      rw [← same]
      refine paired_set _ _ known programs entry.programId ref (first.combine entry) held.paired
        ⟨own.1, read_stored heap ref _ _ own.2⟩ fun name old image different isOld stays => ?_
      have apart : old ≠ ref := by
        intro equal
        rw [equal] at isOld
        exact different (listed_apart base before programs known heap held name _ ref isOld found)
      exact ⟨stays.1, (read_other heap ref old _ apart).trans stays.2⟩

theorem merge_programs (base before : Heap Obj) (grown : Extends base before) (sources : List Ref)
    (entries : List ProgramEntry) (stands : EntriesAt base sources entries) (programs : Dict Text ProgramEntry)
    (known : Dict Text Ref) (held : Listed base before programs known before) :
    Yields (sources.foldlM mergeProgramAt known) before fun known after =>
      Listed base before (entries.foldl mergeProgram programs) known after :=
  yields_fold_m _ _ _ (Listed base before) (merge_program base before grown) sources entries stands programs known before held

theorem keyed_read (heap : Heap Obj) (ref : Ref) (entry : ProgramEntry) (found : heap[ref]? = some (.program entry)) :
    keyedProgram ref heap = some ((entry.programId, ref), heap) := by
  simp only [keyedProgram, bind, StateT.bind, load_of Obj.asProgram heap ref _ entry found rfl]
  rfl

theorem own_keyed (mark : Nat) (heap : Heap Obj) (refs : List Ref) (entries : List ProgramEntry)
    (each : List.Forall₂ (OwnEntry mark heap) refs entries) :
    ∃ keyed, refs.mapM keyedProgram heap = some (keyed, heap) ∧
      Paired (OwnEntry mark heap) (Dict.of keyed) (programsById entries) := by
  refine ⟨List.zipWith (fun ref entry => (entry.programId, ref)) refs entries, map_m_reads _ _ _ heap ?_, paired_of _ _ _ ?_⟩
  · induction each with
    | nil => exact .nil
    | cons own _ ih => exact .cons (keyed_read heap _ _ own.2) ih
  · induction each with
    | nil => exact .nil
    | cons own _ ih => exact .cons ⟨rfl, own⟩ ih

theorem sort_programs (base before : Heap Obj) (programs : Dict Text ProgramEntry) (known : Dict Text Ref) (heap : Heap Obj)
    (held : Listed base before programs known heap) :
    ∃ sorted, sortPrograms known heap = some (sorted, heap) ∧
      List.Forall₂ (OwnEntry base.length heap) sorted ((programs.entries.map Prod.snd).insertionSort byId) := by
  have read : (known.entries.map Prod.snd).mapM keyedProgram heap = some (known.entries, heap) := by
    apply map_m_reads
    rw [List.forall₂_map_left_iff, List.forall₂_same]
    intro pair inside
    obtain ⟨entry, isEntry, own⟩ := paired_some _ known programs held.paired pair.1 pair.2 ((get_iff known _ _).mpr inside)
    have named := held.keyed _ ((get_iff programs pair.1 entry).mp isEntry)
    rw [keyed_read heap pair.2 entry own.2, named]
  refine ⟨(known.entries.insertionSort byKey).map Prod.snd, ?_, ?_⟩
  · simp only [sortPrograms, bind, StateT.bind, read]
    rfl
  · have each : List.Forall₂ (fun pair entry => pair.1 = entry.programId ∧ OwnEntry base.length heap pair.2 entry)
        known.entries (programs.entries.map Prod.snd) := by
      rw [List.forall₂_map_right_iff]
      have inside := (List.forall₂_and_left programs.entries known.entries).mpr ⟨fun _ inside => inside, held.paired.flip⟩
      refine inside.flip.imp fun pair entry both => ?_
      exact ⟨both.2.1.trans (held.keyed entry both.1).symm, both.2.2⟩
    rw [List.forall₂_map_left_iff]
    refine (sort_related byKey byId _ ?_ _ _ each).imp fun _ _ both => both.2
    intro first image second other isFirst isSecond
    rw [byKey, byId, isFirst.1, isSecond.1]

end Programs

def OwnFiles (mark : Nat) (heap : Heap Obj) : Option Ref → Tally Text Int Int → Prop
  | none, tally => tally = .empty
  | some files, tally => ∃ paths, OwnRows mark heap files paths tally

def OwnPrograms (mark : Nat) (heap : Heap Obj) : Option Ref → List ProgramEntry → Prop
  | none, entries => entries = []
  | some ref, entries => ∃ refs, heap[ref]? = some (.programs refs) ∧ List.Forall₂ (OwnEntry mark heap) refs entries

structure Owns (base heap : Heap Obj) (dst : Ref) (files programs : Option Ref) (report : WorkerReport) : Prop where
  grown : Extends base heap
  above : base.length ≤ dst
  found : heap[dst]? = some (.report files programs)
  files : OwnFiles base.length heap files report.files
  programs : OwnPrograms base.length heap programs report.programs

theorem own_files_left (mark : Nat) (touched : Obj → Bool) (heap after : Heap Obj) (left : Leaves mark touched heap after)
    (spared : ∀ object, Obj.isCount object = true → touched object = false) (files : Option Ref) (tally : Tally Text Int Int)
    (own : OwnFiles mark heap files tally) : OwnFiles mark after files tally := by
  cases files with
  | none => exact own
  | some ref =>
    obtain ⟨paths, held⟩ := own
    refine ⟨paths, held.above, left ref _ held.found (.inr (spared _ rfl)), ?_, held.own, held.apart⟩
    exact paired_imp _ _ paths tally held.rows fun into _ there => left into _ there (.inr (spared _ rfl))

theorem own_programs_left (mark : Nat) (touched : Obj → Bool) (heap after : Heap Obj) (left : Leaves mark touched heap after)
    (spared : ∀ refs, touched (.programs refs) = false) (alone : ∀ entry, touched (.program entry) = false)
    (programs : Option Ref) (entries : List ProgramEntry) (own : OwnPrograms mark heap programs entries) :
    OwnPrograms mark after programs entries := by
  cases programs with
  | none => exact own
  | some ref =>
    obtain ⟨refs, found, each⟩ := own
    exact ⟨refs, left ref _ found (.inr (spared refs)), each.imp fun _ entry held =>
      ⟨held.1, left _ _ held.2 (.inr (alone entry))⟩⟩

variable (base heap : Heap Obj) (dst : Ref) (files programs : Option Ref)

theorem owns_denotes (report : WorkerReport)
    (owns : Owns base heap dst files programs report) : Denotes heap dst report := by
  refine ⟨files, programs, owns.found, ?_, ?_⟩
  · cases files with
    | none => exact owns.files
    | some ref =>
      obtain ⟨paths, held⟩ := owns.files
      exact ⟨paths, held.found, held.rows⟩
  · cases programs with
    | none => exact owns.programs
    | some ref =>
      obtain ⟨refs, found, each⟩ := owns.programs
      exact ⟨refs, found, each.imp fun _ _ held => held.2⟩

theorem report_stored (mark : Nat) (heap : Heap Obj) (dst : Ref) (files programs : Option Ref) (above : mark ≤ dst)
    (found : heap[dst]? = some (.report files programs)) (fresh : Obj) (newFiles newPrograms : Option Ref) :
    ∃ after, store dst (.report newFiles newPrograms) (heap ++ [fresh]) = some ((), after) ∧
      Leaves mark Obj.isReport heap after ∧ after[dst]? = some (.report newFiles newPrograms) ∧
      after[heap.length]? = some fresh := by
  have there : (heap ++ [fresh])[dst]? = some (.report files programs) := extends_alloc heap fresh dst _ found
  refine ⟨_, store_of _ dst _ _ there, ?_, read_stored _ dst _ _ there, ?_⟩
  · exact leaves_trans _ _ heap _ _ (leaves_alloc _ _ heap fresh) (leaves_store _ _ _ dst _ _ there above rfl)
  · rw [read_other _ dst heap.length _ (Nat.ne_of_gt (ref_bound heap dst _ found))]
    exact read_new heap fresh

theorem count_not_report (object : Obj) (count : Obj.isCount object = true) : Obj.isReport object = false := by
  cases object <;> first | rfl | cases count

theorem count_not_program (object : Obj) (count : Obj.isCount object = true) : Obj.isProgram object = false := by
  cases object <;> first | rfl | cases count

theorem default_files (report : WorkerReport) (owns : Owns base heap dst files programs report) :
    Yields (setdefaultFiles dst) heap fun ref after => Owns base after dst (some ref) programs report := by
  refine yields_step _ _ heap heap (files, programs) _ (load_of _ heap dst _ (files, programs) owns.found rfl) ?_
  cases files with
  | some ref => exact yields_pure ref heap _ owns
  | none =>
    obtain ⟨after, stored, left, found, there⟩ := report_stored base.length heap dst none programs owns.above owns.found
      (.files .empty) (some heap.length) programs
    refine yields_step _ _ heap _ heap.length _ rfl (yields_step _ _ _ _ () _ stored (yields_pure _ _ _ ?_))
    refine ⟨extends_leaves _ base heap _ owns.grown left, owns.above, found, ⟨.empty, ?_⟩, ?_⟩
    · have blank : report.files = .empty := owns.files
      rw [blank]
      refine ⟨extends_length base heap owns.grown, there, paired_empty _, ?_, ?_⟩
      · intro path into known
        cases known
      · intro path other into known
        cases known
    · exact own_programs_left _ _ heap _ left (fun _ => rfl) (fun _ => rfl) programs report.programs owns.programs

theorem default_programs (report : WorkerReport) (owns : Owns base heap dst files programs report) :
    Yields (setdefaultPrograms dst) heap fun ref after => Owns base after dst files (some ref) report := by
  refine yields_step _ _ heap heap (files, programs) _ (load_of _ heap dst _ (files, programs) owns.found rfl) ?_
  cases programs with
  | some ref => exact yields_pure ref heap _ owns
  | none =>
    obtain ⟨after, stored, left, found, there⟩ := report_stored base.length heap dst files none owns.above owns.found
      (.programs []) files (some heap.length)
    refine yields_step _ _ heap _ heap.length _ rfl (yields_step _ _ _ _ () _ stored (yields_pure _ _ _ ?_))
    refine ⟨extends_leaves _ base heap _ owns.grown left, owns.above, found, ?_, [], there, ?_⟩
    · exact own_files_left _ _ heap _ left count_not_report files report.files owns.files
    · have blank : report.programs = [] := owns.programs
      rw [blank]
      exact .nil

theorem get_files (grown : Extends base heap) (src : Ref) (source : WorkerReport)
    (denotes : Denotes base src source) : ∃ paths, getFiles src heap = some (paths, heap) ∧ RowsAt base paths source.files := by
  obtain ⟨files, programs, found, filesAt, _⟩ := denotes
  have read := load_of Obj.asReport heap src _ (files, programs) (grown src _ found) rfl
  cases files with
  | none =>
    have blank : source.files = .empty := filesAt
    refine ⟨.empty, ?_, blank ▸ paired_empty _⟩
    simp only [getFiles, bind, StateT.bind, read]
    rfl
  | some ref =>
    obtain ⟨paths, there, rows⟩ := filesAt
    refine ⟨paths, ?_, rows⟩
    simp only [getFiles, bind, StateT.bind, read]
    exact load_of Obj.asFiles heap ref _ paths (grown ref _ there) rfl

theorem get_programs (grown : Extends base heap) (src : Ref) (source : WorkerReport)
    (denotes : Denotes base src source) : ∃ refs, getPrograms src heap = some (refs, heap) ∧ EntriesAt base refs source.programs := by
  obtain ⟨files, programs, found, _, programsAt⟩ := denotes
  have read := load_of Obj.asReport heap src _ (files, programs) (grown src _ found) rfl
  cases programs with
  | none =>
    have blank : source.programs = [] := programsAt
    refine ⟨[], ?_, blank ▸ .nil⟩
    simp only [getPrograms, bind, StateT.bind, read]
    rfl
  | some ref =>
    obtain ⟨refs, there, each⟩ := programsAt
    refine ⟨refs, ?_, each⟩
    simp only [getPrograms, bind, StateT.bind, read]
    exact load_of Obj.asPrograms heap ref _ refs (grown ref _ there) rfl

theorem merge_files_into (dst src : Ref) (files programs : Option Ref) (report source : WorkerReport)
    (owns : Owns base heap dst files programs report) (denotes : Denotes base src source) :
    Yields (mergeFilesInto dst src) heap fun _ after =>
      ∃ files, Owns base after dst files programs { report with files := absorb addCount report.files source.files } := by
  refine yields_bind _ _ heap _ _ (default_files base heap dst files programs report owns) fun ref middle owned => ?_
  obtain ⟨paths, read, stands⟩ := get_files base middle owned.grown src source denotes
  refine yields_step _ _ middle middle paths _ read ?_
  have started : Filed base middle ref report.files middle := ⟨leaves_refl _ _ middle, owned.files⟩
  refine yields_imp _ _ _ _ (merge_files base middle owned.grown ref paths source.files stands report.files started) ?_
  rintro _ after ⟨left, rows⟩
  refine ⟨some ref, extends_leaves _ base middle after owned.grown left, owned.above, left dst _ owned.found (.inr rfl), rows, ?_⟩
  exact own_programs_left _ _ middle after left (fun _ => rfl) (fun _ => rfl) programs report.programs owned.programs

theorem merge_programs_into (dst src : Ref) (files programs : Option Ref) (report source : WorkerReport)
    (owns : Owns base heap dst files programs report) (denotes : Denotes base src source) :
    Yields (mergeProgramsInto dst src) heap fun _ after =>
      ∃ programs, Owns base after dst files programs { report with programs := (mergeReports report source).programs } := by
  refine yields_bind _ _ heap _ _ (default_programs base heap dst files programs report owns) fun list middle owned => ?_
  obtain ⟨refs, listed, each⟩ := owned.programs
  obtain ⟨keyed, readKeyed, paired⟩ := own_keyed base.length middle refs report.programs each
  obtain ⟨sources, readSources, stands⟩ := get_programs base middle owned.grown src source denotes
  refine yields_step _ _ middle middle refs _ (load_of _ middle list _ refs listed rfl) ?_
  refine yields_step _ _ middle middle keyed _ readKeyed (yields_step _ _ middle middle sources _ readSources ?_)
  have started : Listed base middle (programsById report.programs) (.of keyed) middle :=
    ⟨leaves_refl _ _ middle, paired, by_id_keyed report.programs⟩
  refine yields_bind _ _ middle _ _ (merge_programs base middle owned.grown sources source.programs stands _ _ started) ?_
  intro known after held
  obtain ⟨sorted, readSorted, isSorted⟩ := sort_programs base middle _ known after held
  have reportAfter : after[dst]? = some (.report files (some list)) := held.left dst _ owned.found (.inr rfl)
  obtain ⟨final, stored, left, found, there⟩ := report_stored base.length after dst files (some list) owned.above reportAfter
    (.programs sorted) files (some after.length)
  have read := load_of Obj.asReport _ dst _ (files, some list) (extends_alloc after (.programs sorted) dst _ reportAfter) rfl
  refine yields_step _ _ after after sorted _ readSorted (yields_step _ _ after _ after.length _ rfl ?_)
  refine yields_step _ _ _ _ (files, some list) _ read ⟨(), final, stored, some after.length, ?_⟩
  refine ⟨extends_leaves _ base after final (extends_leaves _ base middle after owned.grown held.left) left, owned.above,
    found, ?_, sorted, there, ?_⟩
  · refine own_files_left _ _ after final left count_not_report files report.files ?_
    exact own_files_left _ _ middle after held.left count_not_program files report.files owned.files
  · exact isSorted.imp fun _ _ own => ⟨own.1, left _ _ own.2 (.inr rfl)⟩

theorem merge_reports_at (dst src : Ref) (report source : WorkerReport)
    (owns : ∃ files programs, Owns base heap dst files programs report) (denotes : Denotes base src source) :
    Yields (mergeReportsAt dst src) heap fun _ after =>
      ∃ files programs, Owns base after dst files programs (mergeReports report source) := by
  obtain ⟨files, programs, held⟩ := owns
  refine yields_bind _ _ heap _ _ (merge_files_into base heap dst src files programs report source held denotes) ?_
  rintro _ middle ⟨newFiles, counted⟩
  refine yields_imp _ _ _ _ (merge_programs_into base middle dst src newFiles programs _ source counted denotes) ?_
  rintro _ after ⟨newPrograms, merged⟩
  exact ⟨newFiles, newPrograms, merged⟩

end WakeSol.Coverage
