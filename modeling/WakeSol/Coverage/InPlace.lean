import WakeSol.Coverage.Workers
import WakeSol.Lib.Heap

/- Merging as it runs on the server: a report is a dictionary of dictionaries, and
   merge_reports changes the first of its two in place. The lines of the files
   come to the sums. -/
set_option autoImplicit false

namespace WakeSol.Coverage

open TextLib TallyLib HeapLib

inductive Obj where
  | report (files programs : Option Ref)
  | files (paths : Dict Text Ref)
  | lines (counts : Dict Int Int)
  | programs (entries : List Ref)
  | program (entry : ProgramEntry)

def Obj.asReport : Obj → Option (Option Ref × Option Ref)
  | .report covered listed => some (covered, listed)
  | _ => none

def Obj.asFiles : Obj → Option (Dict Text Ref)
  | .files paths => some paths
  | _ => none

def Obj.asLines : Obj → Option (Dict Int Int)
  | .lines counts => some counts
  | _ => none

def Obj.asPrograms : Obj → Option (List Ref)
  | .programs entries => some entries
  | _ => none

def Obj.asProgram : Obj → Option ProgramEntry
  | .program entry => some entry
  | _ => none

def addCount (slot : Option Int) (count : Int) : Int := slot.getD 0 + count

def mergeLine (into : Ref) (pair : Int × Int) : HeapM Obj Unit := do
  let counts ← load Obj.asLines into
  store into (.lines (counts.set pair.1 (addCount (counts.get pair.1) pair.2)))

def setdefaultLines (files : Ref) (path : Text) : HeapM Obj Ref := do
  let paths ← load Obj.asFiles files
  match paths.get path with
  | some into => pure into
  | none => do
      let into ← alloc (.lines .empty)
      store files (.files (paths.set path into))
      pure into

def mergeFile (files : Ref) (source : Text × Ref) : HeapM Obj Unit := do
  let into ← setdefaultLines files source.1
  let counts ← load Obj.asLines source.2
  forM counts.entries (mergeLine into)

def setdefaultFiles (dst : Ref) : HeapM Obj Ref := do
  let (files, programs) ← load Obj.asReport dst
  match files with
  | some ref => pure ref
  | none => do
      let ref ← alloc (.files .empty)
      store dst (.report (some ref) programs)
      pure ref

def setdefaultPrograms (dst : Ref) : HeapM Obj Ref := do
  let (files, programs) ← load Obj.asReport dst
  match programs with
  | some ref => pure ref
  | none => do
      let ref ← alloc (.programs [])
      store dst (.report files (some ref))
      pure ref

-- An absent key reads as an empty dictionary or list.
def getFiles (src : Ref) : HeapM Obj (Dict Text Ref) := do
  let (files, _) ← load Obj.asReport src
  match files with
  | some ref => load Obj.asFiles ref
  | none => pure .empty

def getPrograms (src : Ref) : HeapM Obj (List Ref) := do
  let (_, programs) ← load Obj.asReport src
  match programs with
  | some ref => load Obj.asPrograms ref
  | none => pure []

def keyedProgram (ref : Ref) : HeapM Obj (Text × Ref) := do
  let entry ← load Obj.asProgram ref
  pure (entry.programId, ref)

def mergeProgramAt (known : Dict Text Ref) (source : Ref) : HeapM Obj (Dict Text Ref) := do
  let entry ← load Obj.asProgram source
  match known.get entry.programId with
  | none => do
      let copy ← alloc (.program entry)
      pure (known.set entry.programId copy)
  | some ref => do
      let first ← load Obj.asProgram ref
      store ref (.program (first.combine entry))
      pure known

def byKey (left right : Text × Ref) : Prop := left.1 ≤ right.1

instance : DecidableRel byKey := fun left right => inferInstanceAs (Decidable (left.1 ≤ right.1))

def sortPrograms (known : Dict Text Ref) : HeapM Obj (List Ref) := do
  let keyed ← (known.entries.map Prod.snd).mapM keyedProgram
  pure ((keyed.insertionSort byKey).map Prod.snd)

def setPrograms (dst : Ref) (entries : List Ref) : HeapM Obj Unit := do
  let ref ← alloc (.programs entries)
  let (files, _) ← load Obj.asReport dst
  store dst (.report files (some ref))

def mergeFilesInto (dst src : Ref) : HeapM Obj Unit := do
  let files ← setdefaultFiles dst
  let paths ← getFiles src
  forM paths.entries (mergeFile files)

def mergeProgramsInto (dst src : Ref) : HeapM Obj Unit := do
  let list ← setdefaultPrograms dst
  let own ← load Obj.asPrograms list
  let keyed ← own.mapM keyedProgram
  let sources ← getPrograms src
  let known ← sources.foldlM mergeProgramAt (.of keyed)
  let sorted ← sortPrograms known
  setPrograms dst sorted

def mergeReportsAt (dst src : Ref) : HeapM Obj Unit := do
  mergeFilesInto dst src
  mergeProgramsInto dst src

def RowsAt (heap : Heap Obj) (paths : Dict Text Ref) (files : Tally Text Int Int) : Prop :=
  Paired (fun ref counts => heap[ref]? = some (.lines counts)) paths files

def FilesAt (heap : Heap Obj) : Option Ref → Tally Text Int Int → Prop
  | none, files => files = .empty
  | some ref, files => ∃ paths, heap[ref]? = some (.files paths) ∧ RowsAt heap paths files

def EntriesAt (heap : Heap Obj) (refs : List Ref) (entries : List ProgramEntry) : Prop :=
  List.Forall₂ (fun (ref : Ref) entry => heap[ref]? = some (.program entry)) refs entries

def ProgramsAt (heap : Heap Obj) : Option Ref → List ProgramEntry → Prop
  | none, entries => entries = []
  | some ref, entries => ∃ refs, heap[ref]? = some (.programs refs) ∧ EntriesAt heap refs entries

def Denotes (heap : Heap Obj) (ref : Ref) (report : WorkerReport) : Prop :=
  ∃ files programs, heap[ref]? = some (.report files programs) ∧ FilesAt heap files report.files ∧
    ProgramsAt heap programs report.programs

theorem files_at_extends (before after : Heap Obj) (grown : Extends before after) (ref : Option Ref)
    (files : Tally Text Int Int) (held : FilesAt before ref files) : FilesAt after ref files := by
  cases ref with
  | none => exact held
  | some ref =>
    obtain ⟨paths, found, rows⟩ := held
    exact ⟨paths, grown ref _ found, paired_imp _ _ paths files rows fun into _ there => grown into _ there⟩

theorem programs_at_extends (before after : Heap Obj) (grown : Extends before after) (ref : Option Ref)
    (entries : List ProgramEntry) (held : ProgramsAt before ref entries) : ProgramsAt after ref entries := by
  cases ref with
  | none => exact held
  | some ref =>
    obtain ⟨refs, found, each⟩ := held
    exact ⟨refs, grown ref _ found, each.imp fun entry _ there => grown entry _ there⟩

theorem denotes_extends (before after : Heap Obj) (grown : Extends before after) (ref : Ref) (report : WorkerReport)
    (denotes : Denotes before ref report) : Denotes after ref report := by
  obtain ⟨files, programs, found, filesAt, programsAt⟩ := denotes
  exact ⟨files, programs, grown ref _ found, files_at_extends before after grown files report.files filesAt,
    programs_at_extends before after grown programs report.programs programsAt⟩

structure OwnRows (mark : Nat) (heap : Heap Obj) (files : Ref) (paths : Dict Text Ref) (tally : Tally Text Int Int) : Prop where
  above : mark ≤ files
  found : heap[files]? = some (.files paths)
  rows : RowsAt heap paths tally
  own : ∀ path into, paths.get path = some into → mark ≤ into
  apart : ∀ path other into, paths.get path = some into → paths.get other = some into → path = other

def Obj.isCount : Obj → Bool
  | .files _ | .lines _ => true
  | _ => false

def Obj.isProgram : Obj → Bool
  | .program _ => true
  | _ => false

def Obj.isReport : Obj → Bool
  | .report _ _ => true
  | _ => false

section Files

variable (mark : Nat) (heap : Heap Obj) (files : Ref) (paths : Dict Text Ref) (tally : Tally Text Int Int)

theorem row_found (held : OwnRows mark heap files paths tally) (path : Text) (into : Ref) (found : paths.get path = some into) :
    tally.get path = some (row tally path) ∧ heap[into]? = some (.lines (row tally path)) := by
  obtain ⟨counts, known, there⟩ := paired_some _ paths tally held.rows path into found
  rw [row, known]
  exact ⟨rfl, there⟩

theorem row_stored (held : OwnRows mark heap files paths tally) (path : Text) (into : Ref) (counts : Dict Int Int)
    (found : paths.get path = some into) :
    OwnRows mark (heap.set into (.lines counts)) files paths (tally.set path counts) := by
  have there := (row_found mark heap files paths tally held path into found).2
  refine ⟨held.above, ?_, ?_, held.own, held.apart⟩
  · have apart : files ≠ into := by
      intro same
      rw [← same, held.found] at there
      cases there
    rw [read_other heap into files _ apart, held.found]
  · have same : paths.set path into = paths := set_known paths path into found
    rw [← same]
    refine paired_set _ _ paths tally path into counts held.rows (read_stored heap into _ _ there) ?_
    intro name old image different known stands
    have apart : old ≠ into := by
      intro equal
      rw [equal] at known
      exact different (held.apart name path into known found)
    rw [read_other heap into old _ apart, stands]

theorem row_default (held : OwnRows mark heap files paths tally) (within : mark ≤ heap.length) (path : Text) :
    Yields (setdefaultLines files path) heap fun into after => Leaves mark Obj.isCount heap after ∧
      ∃ paths, OwnRows mark after files paths (tally.set path (row tally path)) ∧ paths.get path = some into := by
  refine yields_step _ _ heap heap paths _ (load_of _ heap files _ paths held.found rfl) ?_
  cases known : paths.get path with
  | some into =>
    refine yields_pure into heap _ ⟨leaves_refl mark _ heap, paths, ?_, known⟩
    rw [set_known tally path _ (row_found mark heap files paths tally held path into known).1]
    exact held
  | none =>
    have kept : (heap ++ [Obj.lines .empty])[files]? = some (.files paths) :=
      extends_alloc heap _ files _ held.found
    have leaves : Leaves mark Obj.isCount heap ((heap ++ [Obj.lines .empty]).set files (.files (paths.set path heap.length))) :=
      leaves_trans mark _ heap _ _ (leaves_alloc mark _ heap _) (leaves_store mark _ _ files _ _ kept held.above rfl)
    have blank : row tally path = .empty := by
      rw [row, paired_none _ paths tally held.rows path known]
      rfl
    refine yields_step _ _ heap _ heap.length _ rfl ?_
    refine yields_step _ _ _ _ () _ (store_of _ files _ _ kept) ?_
    refine yields_pure heap.length _ _ ⟨leaves, paths.set path heap.length, ?_, ?_⟩
    · refine ⟨held.above, read_stored _ files _ _ kept, ?_, ?_, ?_⟩
      · -- The new row stands at the end, the others where they stood.
        have still : ∀ (ref : Ref) counts, (heap ++ [Obj.lines .empty])[ref]? = some (.lines counts) →
            ((heap ++ [Obj.lines .empty]).set files (.files (paths.set path heap.length)))[ref]? = some (.lines counts) := by
          intro ref counts there
          have apart : ref ≠ files := by
            intro same
            rw [same, kept] at there
            cases there
          rw [read_other _ files ref _ apart, there]
        rw [blank]
        refine paired_set _ _ paths tally path heap.length _ held.rows (still _ _ (read_new heap _)) ?_
        intro name old image _ _ stands
        exact still old image (extends_alloc heap _ old _ stands)
      · intro name into found
        rw [get_set] at found
        by_cases same : name = path
        · rw [if_pos same, Option.some.injEq] at found
          rw [← found]
          exact within
        · rw [if_neg same] at found
          exact held.own name into found
      · intro name other into found also
        have below : ∀ name into, paths.get name = some into → into < heap.length := fun name into known =>
          ref_bound heap into _ (row_found mark heap files paths tally held name into known).2
        rw [get_set] at found also
        by_cases first : name = path
        · by_cases second : other = path
          · rw [first, second]
          · rw [if_pos first, Option.some.injEq] at found
            rw [if_neg second] at also
            exact absurd (below other into also) (by rw [found]; exact Nat.lt_irrefl _)
        · rw [if_neg first] at found
          by_cases second : other = path
          · rw [if_pos second, Option.some.injEq] at also
            exact absurd (below name into found) (by rw [also]; exact Nat.lt_irrefl _)
          · rw [if_neg second] at also
            exact held.apart name other into found also
    · rw [get_set, if_pos rfl]

end Files

theorem merge_lines (heap : Heap Obj) (into : Ref) (counts : Dict Int Int) (found : heap[into]? = some (.lines counts))
    (entries : List (Int × Int)) :
    Yields (forM entries (mergeLine into)) heap fun _ after =>
      after = heap.set into (.lines (combineAll addCount counts entries)) := by
  have started : heap = heap.set into (.lines counts) := by
    obtain ⟨bound, same⟩ := List.getElem?_eq_some_iff.mp found
    rw [← same, List.set_getElem_self]
  refine yields_for_m _ _ Eq (fun counts after => after = heap.set into (.lines counts)) ?_ entries entries
    (List.forall₂_refl entries) counts heap started
  intro pair image counts after same held
  subst same
  have there : after[into]? = some (.lines counts) := by
    rw [held]
    exact read_stored heap into _ _ found
  refine yields_step _ _ after after counts _ (load_of _ after into _ counts there rfl) ?_
  refine ⟨(), _, store_of after into _ _ there, ?_⟩
  rw [held, List.set_set]

def addRow (old : Option (Dict Int Int)) (content : Dict Int Int) : Dict Int Int := (old.getD .empty).absorb addCount content

def Filed (base before : Heap Obj) (files : Ref) (tally : Tally Text Int Int) (heap : Heap Obj) : Prop :=
  Leaves base.length Obj.isCount before heap ∧ ∃ paths, OwnRows base.length heap files paths tally

theorem merge_file (base before : Heap Obj) (grown : Extends base before) (files : Ref) (source : Text × Ref)
    (content : Text × Dict Int Int) (tally : Tally Text Int Int) (heap : Heap Obj)
    (stands : Alike (fun (ref : Ref) counts => base[ref]? = some (.lines counts)) source content)
    (filed : Filed base before files tally heap) :
    Yields (mergeFile files source) heap fun _ after =>
      Filed base before files (tally.set content.1 (addRow (tally.get content.1) content.2)) after := by
  obtain ⟨left, paths, held⟩ := filed
  have within := extends_length base heap (extends_leaves _ base before heap grown left)
  refine yields_bind _ _ heap _ _ (row_default base.length heap files paths tally held within source.1) ?_
  rintro into middle ⟨leaves, newPaths, rows, found⟩
  have kept := leaves_trans _ _ before heap middle left leaves
  have counts : middle[source.2]? = some (.lines content.2) :=
    extends_leaves Obj.isCount base before middle grown kept source.2 _ stands.2
  have there := (row_found _ middle files newPaths _ rows source.1 into found).2
  refine yields_step _ _ middle middle content.2 _ (load_of _ middle source.2 _ content.2 counts rfl) ?_
  refine yields_imp _ _ _ _ (merge_lines middle into _ there content.2.entries) fun _ after same => ?_
  rw [same]
  refine ⟨leaves_trans _ _ before middle _ kept (leaves_store _ _ middle into _ _ there (rows.own source.1 into found) rfl), newPaths, ?_⟩
  have stored := row_stored base.length middle files newPaths _ rows source.1 into
    (addRow (tally.get source.1) content.2) found
  rw [set_set] at stored
  rw [row_set, if_pos rfl, ← stands.1]
  exact stored

theorem merge_files (base before : Heap Obj) (grown : Extends base before) (files : Ref) (sources : Dict Text Ref)
    (contents : Tally Text Int Int) (stands : RowsAt base sources contents) (tally : Tally Text Int Int)
    (filed : Filed base before files tally before) :
    Yields (forM sources.entries (mergeFile files)) before fun _ after =>
      Filed base before files (absorb addCount tally contents) after :=
  yields_for_m _ _ _ (Filed base before files) (merge_file base before grown files) sources.entries contents.entries stands
    tally before filed

end WakeSol.Coverage
