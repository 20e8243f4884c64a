import WakeSol.Coverage.Merging
import WakeSol.Lib.Interleave

/- Live coverage in a parallel run. Workers send what they have counted so far, some
   of it is lost, and the server keeps the last report of each worker and merges
   anew whenever it writes. -/
set_option autoImplicit false

namespace WakeSol.Coverage

open TextLib TallyLib HeapLib InterleaveLib

def unpickleLines (pair : Text × Dict Int Int) : HeapM Obj (Text × Ref) := do
  let ref ← alloc (.lines pair.2)
  pure (pair.1, ref)

def unpickle (report : WorkerReport) : HeapM Obj Ref := do
  let paths ← report.files.entries.mapM unpickleLines
  let files ← alloc (.files (.of paths))
  let entries ← report.programs.mapM fun entry => alloc (.program entry)
  let programs ← alloc (.programs entries)
  alloc (.report (some files) (some programs))

def slotAt (slots : Dict Nat Ref) (index : Nat) : HeapM Obj Ref := fun heap => (slots.get index).map fun ref => (ref, heap)

def mergedIn (slots : Dict Nat Ref) (order : List Nat) : HeapM Obj Ref := do
  let merged ← alloc (.report none none)
  forM order fun index => do
    let src ← slotAt slots index
    mergeReportsAt merged src
  pure merged

def sortedIndexes (slots : Dict Nat Ref) : List Nat := (slots.entries.map Prod.fst).insertionSort (· ≤ ·)

def mergedCoverageAt (slots : Dict Nat Ref) : HeapM Obj Ref := mergedIn slots (sortedIndexes slots)

structure Options where
  live : Bool
  report : Option Text

def writeCoverageReport (options : Options) (slots : Dict Nat Ref) : HeapM Obj (Option Ref) :=
  match options.report with
  | none => pure none
  | some _ => do
      let merged ← mergedCoverageAt slots
      pure (some merged)

def onCoverage (options : Options) (slots : Dict Nat Ref) (message : Nat × WorkerReport) : HeapM Obj (Dict Nat Ref) := do
  let report ← unpickle message.2
  let slots := slots.set message.1 report
  if options.live then
    let _ ← writeCoverageReport options slots
    pure slots
  else
    pure slots

def serve (options : Options) (messages : List (Nat × WorkerReport)) : HeapM Obj (Dict Nat Ref) :=
  messages.foldlM (onCoverage options) .empty

def recompute (slots : Dict Nat Ref) : Nat → HeapM Obj Unit
  | 0 => pure ()
  | times + 1 => do
      let _ ← mergedCoverageAt slots
      recompute slots times

theorem unpickle_adds (report : WorkerReport) (heap : Heap Obj) :
    Adds (unpickle report) heap fun ref after => Denotes after ref report := by
  have rows := adds_map_m unpickleLines
    (fun heap pair entry => Alike (fun (ref : Ref) counts => heap[ref]? = some (Obj.lines counts)) entry pair)
    (fun _ _ _ _ grown alike => ⟨alike.1, grown _ _ alike.2⟩)
    (fun pair heap => adds_bind _ _ heap _ _ (adds_alloc (Obj.lines pair.2) heap) fun ref after _ found =>
      adds_pure _ after _ ⟨rfl, found⟩)
  have entries := adds_map_m (fun entry => alloc (Obj.program entry))
    (fun heap entry (ref : Ref) => heap[ref]? = some (Obj.program entry)) (fun _ _ _ _ grown found => grown _ _ found)
    (fun entry heap => adds_alloc (Obj.program entry) heap)
  refine adds_bind _ _ heap _ _ (rows report.files.entries heap) fun paths first _ read => ?_
  refine adds_bind _ _ first _ _ (adds_alloc _ first) fun files second toSecond filesFound => ?_
  refine adds_bind _ _ second _ _ (entries report.programs second) fun refs third toThird programsRead => ?_
  refine adds_bind _ _ third _ _ (adds_alloc _ third) fun programs fourth toFourth programsFound => ?_
  refine yields_imp _ _ _ _ (adds_alloc _ fourth) ?_
  rintro ref after ⟨grown, found⟩
  have whole : Dict.of report.files.entries = report.files := of_entries report.files
  have fromThird := extends_trans third fourth after toFourth grown
  have fromSecond := extends_trans second third after toThird fromThird
  refine ⟨grown, some files, some programs, found, ⟨.of paths, fromSecond files _ filesFound, ?_⟩, refs, grown programs _ programsFound, ?_⟩
  · rw [← whole]
    refine paired_of _ paths report.files.entries (read.flip.imp fun entry pair alike => ⟨alike.1, ?_⟩)
    exact extends_trans first second after toSecond fromSecond _ _ alike.2
  · exact programsRead.flip.imp fun entry _ there => fromThird entry _ there

theorem merged_in (slots : Dict Nat Ref) (order : List Nat) (reports : List WorkerReport) (heap : Heap Obj)
    (each : List.Forall₂ (fun index report => ∃ ref, slots.get index = some ref ∧ Denotes heap ref report) order reports) :
    Adds (mergedIn slots order) heap fun merged after => Denotes after merged (reports.foldl mergeReports .empty) := by
  have started : ∃ files programs, Owns heap (heap ++ [Obj.report none none]) heap.length files programs .empty :=
    ⟨none, none, extends_alloc heap _, Nat.le_refl _, read_new heap _, rfl, rfl⟩
  refine yields_step _ _ heap _ heap.length _ rfl ?_
  refine yields_bind _ _ _ _ _ (yields_for_m _ mergeReports _
    (fun report after => ∃ files programs, Owns heap after heap.length files programs report) ?_ order reports each .empty _
      started) ?_
  · rintro index report merged after ⟨ref, found, denotes⟩ owns
    refine yields_step _ _ after after ref _ ?_ (merge_reports_at heap after heap.length ref merged report owns denotes)
    rw [slotAt, found]
    rfl
  · rintro _ after ⟨files, programs, owns⟩
    exact yields_pure _ after _ ⟨owns.grown, owns_denotes heap after heap.length files programs _ owns⟩

theorem slots_merged (slots : Dict Nat Ref) (images : Slots) (heap : Heap Obj) (paired : Paired (Denotes heap) slots images)
    (order : List Nat) (reports : List WorkerReport)
    (each : List.Forall₂ (fun index report => images.get index = some report) order reports) :
    Adds (mergedIn slots order) heap fun merged after => Denotes after merged (reports.foldl mergeReports .empty) := by
  refine merged_in slots order reports heap (each.imp fun index report found => ?_)
  exact paired_image _ slots images paired index report found

theorem indexes_sorted (slots : Dict Nat Ref) (images : Slots) (heap : Heap Obj) (paired : Paired (Denotes heap) slots images) :
    sortedIndexes slots = (images.entries.insertionSort byIndex).map Prod.fst := by
  rw [sortedIndexes, paired_keys _ slots images paired]
  exact (List.map_insertionSort byIndex (· ≤ ·) Prod.fst images.entries fun _ _ _ _ => Iff.rfl).symm

theorem merged_coverage_at (slots : Dict Nat Ref) (images : Slots) (heap : Heap Obj) (paired : Paired (Denotes heap) slots images) :
    Adds (mergedCoverageAt slots) heap fun merged after => Denotes after merged (mergedCoverage images) := by
  refine slots_merged slots images heap paired _ _ ?_
  rw [indexes_sorted slots images heap paired, contributors, List.forall₂_map_left_iff, List.forall₂_map_right_iff,
    List.forall₂_same]
  intro entry inside
  exact (get_iff images entry.1 entry.2).mpr ((List.mem_insertionSort _).mp inside)

theorem write_adds (options : Options) (slots : Dict Nat Ref) (images : Slots) (heap : Heap Obj)
    (paired : Paired (Denotes heap) slots images) : Adds (writeCoverageReport options slots) heap fun _ _ => True := by
  rw [writeCoverageReport]
  cases options.report with
  | none => exact adds_pure none heap _ trivial
  | some path =>
    exact adds_bind _ _ heap _ _ (merged_coverage_at slots images heap paired) fun _ after _ _ => adds_pure _ after _ trivial

theorem slots_last (slots : Dict Nat Ref) (images : Slots) (before after : Heap Obj) (grown : Extends before after)
    (paired : Paired (Denotes before) slots images) : Paired (Denotes after) slots images :=
  paired_imp _ _ slots images paired fun ref report denotes => denotes_extends before after grown ref report denotes

theorem on_coverage (options : Options) (message image : Nat × WorkerReport) (images : Slots) (slots : Dict Nat Ref)
    (heap : Heap Obj) (same : message = image) (paired : Paired (Denotes heap) slots images) :
    Yields (onCoverage options slots message) heap fun slots after =>
      Paired (Denotes after) slots (images.set image.1 image.2) := by
  subst same
  refine yields_bind _ _ heap _ _ (unpickle_adds message.2 heap) ?_
  rintro ref middle ⟨grown, denotes⟩
  have replaced : Paired (Denotes middle) (slots.set message.1 ref) (images.set message.1 message.2) :=
    paired_set _ _ slots images message.1 ref message.2 paired denotes fun _ old report _ _ held =>
      denotes_extends heap middle grown old report held
  by_cases live : options.live = true
  · rw [if_pos live]
    refine yields_bind _ _ middle _ _ (write_adds options _ _ middle replaced) ?_
    rintro _ after ⟨later, _⟩
    exact yields_pure _ after _ (slots_last _ _ middle after later replaced)
  · rw [if_neg live]
    exact yields_pure _ middle _ replaced

theorem serve_slots (options : Options) (messages : List (Nat × WorkerReport)) :
    Yields (serve options messages) [] fun slots heap => Paired (Denotes heap) slots (arrived messages) := by
  rw [arrived, ← fold_of]
  exact yields_fold_m _ _ Eq (fun images slots heap => Paired (Denotes heap) slots images)
    (fun message image images slots heap => on_coverage options message image images slots heap) messages messages
    (List.forall₂_refl messages) .empty .empty [] (paired_empty _)

theorem recompute_adds (slots : Dict Nat Ref) (images : Slots) (times : Nat) (heap : Heap Obj)
    (paired : Paired (Denotes heap) slots images) : Adds (recompute slots times) heap fun _ _ => True := by
  induction times generalizing heap with
  | zero => exact adds_pure () heap _ trivial
  | succ times ih =>
    refine adds_bind _ _ heap _ _ (merged_coverage_at slots images heap paired) fun _ after grown _ => ?_
    exact ih after (slots_last slots images heap after grown paired)

theorem arrived_last (messages : List (Nat × WorkerReport)) (worker : Nat) :
    (arrived messages).get worker = (lane worker messages).getLast? := by
  induction messages using List.reverseRecOn with
  | nil => rfl
  | append_singleton earlier message ih =>
    obtain ⟨index, report⟩ := message
    rw [arrived, of_append, get_set, lane_append]
    by_cases same : worker = index
    · rw [if_pos same, same, lane_cons_self, List.getLast?_append]
      rfl
    · rw [if_neg same, lane_cons_other worker index report [] (Ne.symm same)]
      exact ih.trans (congrArg List.getLast? (List.append_nil _).symm)

def counts (reports : List WorkerReport) (path : Text) (line : Int) : List Int :=
  reports.filterMap fun report => cell report.files path line

def total (reports : List WorkerReport) (path : Text) (line : Int) : Option Int :=
  if counts reports path line = [] then none else some (counts reports path line).sum

theorem merged_cell (reports : List WorkerReport) (start : WorkerReport) (path : Text) (line : Int) :
    cell (reports.foldl mergeReports start).files path line =
      if counts reports path line = [] then cell start.files path line
      else some ((cell start.files path line).getD 0 + (counts reports path line).sum) := by
  induction reports generalizing start with
  | nil => rfl
  | cons report rest ih =>
    have absorbed : (mergeReports start report).files = absorb addCount start.files report.files := rfl
    rw [List.foldl_cons, ih, absorbed, cell_absorb]
    cases known : cell report.files path line with
    | none =>
      have here : counts (report :: rest) path line = counts rest path line := List.filterMap_cons_none known
      rw [here]
    | some count =>
      have here : counts (report :: rest) path line = count :: counts rest path line := List.filterMap_cons_some known
      dsimp only
      rw [here, if_neg (List.cons_ne_nil _ _), List.sum_cons, Option.getD_some, addCount, add_assoc]
      by_cases last : counts rest path line = []
      · rw [if_pos last, last, List.sum_nil, add_zero]
      · rw [if_neg last]

theorem merged_total (reports : List WorkerReport) (path : Text) (line : Int) :
    cell (reports.foldl mergeReports .empty).files path line = total reports path line := by
  rw [merged_cell, total]
  simp only [WorkerReport.empty, cell_empty, Option.getD_none, zero_add]

theorem total_perm (reports others : List WorkerReport) (perm : reports.Perm others) (path : Text) (line : Int) :
    total reports path line = total others path line := by
  have same : (counts reports path line).Perm (counts others path line) := perm.filterMap _
  rw [total, total, same.sum_eq]
  have empty : counts reports path line = [] ↔ counts others path line = [] := by
    rw [← List.length_eq_zero_iff, same.length_eq, List.length_eq_zero_iff]
  simp only [empty]

theorem merged_file (reports : List WorkerReport) (start : WorkerReport) (path : Text) :
    ((reports.foldl mergeReports start).files.get path).isSome = true ↔
      (start.files.get path).isSome = true ∨ ∃ report ∈ reports, (report.files.get path).isSome = true := by
  induction reports generalizing start with
  | nil => simp
  | cons report rest ih =>
    have step : ((mergeReports start report).files.get path).isSome = true ↔
        (start.files.get path).isSome = true ∨ (report.files.get path).isSome = true := by
      rw [mergeReports, absorb, get_absorb]
      cases report.files.get path <;> simp
    rw [List.foldl_cons, ih, step, or_assoc, List.exists_mem_cons_iff]

structure CoverageRun where
  workers : List Nat
  distinct : workers.Nodup
  snapshots : Nat → List WorkerReport
  final : Nat → WorkerReport
  kept : Nat → List WorkerReport
  dropped : ∀ worker, (kept worker).Sublist (snapshots worker)
  received : List (Nat × WorkerReport)
  interleaved : Interleaves (fun worker => if worker ∈ workers then kept worker ++ [final worker] else []) received

theorem run_slots (run : CoverageRun) (worker : Nat) :
    (arrived run.received).get worker = if worker ∈ run.workers then some (run.final worker) else none := by
  rw [arrived_last, run.interleaved worker]
  beta_reduce
  by_cases collects : worker ∈ run.workers
  · rw [if_pos collects, if_pos collects, List.getLast?_append]
    rfl
  · rw [if_neg collects, if_neg collects]
    rfl

theorem run_indexes (run : CoverageRun) (slots : Dict Nat Ref) (heap : Heap Obj)
    (paired : Paired (Denotes heap) slots (arrived run.received)) : (sortedIndexes slots).Perm run.workers := by
  rw [sortedIndexes, paired_keys _ slots _ paired]
  refine (List.perm_insertionSort _ _).trans ((List.perm_ext_iff_of_nodup (arrived run.received).distinct run.distinct).mpr ?_)
  intro worker
  have found := run_slots run worker
  rw [List.mem_map]
  by_cases collects : worker ∈ run.workers
  · rw [if_pos collects, get_iff] at found
    exact ⟨fun _ => collects, fun _ => ⟨_, found, rfl⟩⟩
  · rw [if_neg collects] at found
    refine ⟨fun ⟨entry, inside, same⟩ => ?_, fun inside => absurd inside collects⟩
    rw [← same, (get_iff _ entry.1 entry.2).mpr inside] at found
    cases found

end WakeSol.Coverage
