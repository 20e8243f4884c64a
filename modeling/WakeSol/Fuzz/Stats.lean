import Mathlib.Algebra.Group.Int.Defs
import Mathlib.Algebra.Group.Prod
import WakeSol.Lib.Tally
import WakeSol.Lib.Text

/- The statistics of fuzz runs: what a run counts for each of its flows, the registry
   of a session to which finished runs are added, and the server's merge of the
   registries of its workers. -/
set_option autoImplicit false

namespace WakeSol.Fuzz

open TallyLib TextLib

structure Leaf where
  picked : Nat
  ran : Nat
  skipped : Nat
  reasons : Dict Text Nat

def Leaf.zero : Leaf := ⟨0, 0, 0, .empty⟩

abbrev FlowStats := Dict Text Leaf

structure Entry where
  sequences : Int
  steps : Int
  flows : FlowStats

def Entry.zero : Entry := ⟨0, 0, .empty⟩

abbrev Registry := Dict Text Entry

def Leaf.merge (leaf source : Leaf) : Leaf where
  picked := leaf.picked + source.picked
  ran := leaf.ran + source.ran
  skipped := leaf.skipped + source.skipped
  reasons := leaf.reasons.absorb (fun slot count => slot.getD 0 + count) source.reasons

def mergeFlowLeaves (dst src : FlowStats) : FlowStats :=
  dst.absorb (fun slot source => (slot.getD .zero).merge source) src

def Entry.merge (entry source : Entry) : Entry where
  sequences := entry.sequences + source.sequences
  steps := entry.steps + source.steps
  flows := mergeFlowLeaves entry.flows source.flows

def runEntry (sequencesCount flowsCount : Int) (stats : FlowStats) : Entry :=
  ⟨sequencesCount, sequencesCount * flowsCount, stats⟩

def recordRunStats (registry : Registry) (name : Text) (sequencesCount flowsCount : Int) (stats : FlowStats) : Registry :=
  registry.set name (((registry.get name).getD .zero).merge (runEntry sequencesCount flowsCount stats))

def mergeSessionStats (dst src : Registry) : Registry :=
  dst.absorb (fun slot entry => (slot.getD .zero).merge entry) src

structure RecordedRun where
  name : Text
  sequencesCount : Int
  flowsCount : Int
  stats : FlowStats

def record (registry : Registry) (run : RecordedRun) : Registry :=
  recordRunStats registry run.name run.sequencesCount run.flowsCount run.stats

def recordAll (runs : List RecordedRun) : Registry := runs.foldl record .empty

def mergeAll (registries : List Registry) : Registry := registries.foldl mergeSessionStats .empty

def Entry.budget (entry : Entry) : Option (Int × Int) := some (entry.sequences, entry.steps)

def Leaf.counts (leaf : Leaf) : Nat × Nat × Nat := (leaf.picked, leaf.ran, leaf.skipped)

def Entry.counts (flow : Text) (entry : Entry) : Option (Nat × Nat × Nat) := (entry.flows.get flow).map Leaf.counts

def Entry.reason (flow text : Text) (entry : Entry) : Option Nat := (entry.flows.get flow).bind fun leaf => leaf.reasons.get text

def observe {M : Type} (view : Entry → Option M) (name : Text) (registry : Registry) : Option M :=
  (registry.get name).bind view

structure SameTotals (left right : Registry) : Prop where
  budget : ∀ name, observe Entry.budget name left = observe Entry.budget name right
  counts : ∀ name flow, observe (Entry.counts flow) name left = observe (Entry.counts flow) name right
  reason : ∀ name flow text, observe (Entry.reason flow text) name left = observe (Entry.reason flow text) name right

structure Additive {M : Type} [AddCommSemigroup M] (view : Entry → Option M) : Prop where
  first : ∀ entry, view (Entry.zero.merge entry) = view entry
  adds : ∀ entry source, view (entry.merge source) = plus (view entry) (view source)

theorem zero_leaf_counts (leaf : Leaf) : (Leaf.zero.merge leaf).counts = leaf.counts := by
  simp [Leaf.merge, Leaf.counts, Leaf.zero]

theorem merge_leaf_reason (leaf source : Leaf) (text : Text) :
    (leaf.merge source).reasons.get text = plus (leaf.reasons.get text) (source.reasons.get text) := by
  simp only [Leaf.merge, get_absorb]
  cases leaf.reasons.get text <;> cases source.reasons.get text <;> simp [plus]

theorem budget_additive : Additive Entry.budget where
  first entry := by simp [Entry.budget, Entry.merge, Entry.zero]
  adds _ _ := rfl

theorem counts_additive (flow : Text) : Additive (Entry.counts flow) where
  first entry := by
    simp only [Entry.counts, Entry.merge, mergeFlowLeaves, get_absorb]
    cases entry.flows.get flow with
    | none => rfl
    | some leaf => exact congrArg some (zero_leaf_counts leaf)
  adds entry source := by
    simp only [Entry.counts, Entry.merge, mergeFlowLeaves, get_absorb]
    cases source.flows.get flow with
    | none => exact (plus_none _).symm
    | some leaf =>
      cases entry.flows.get flow with
      | none => exact congrArg some (zero_leaf_counts leaf)
      | some known => rfl

theorem reason_additive (flow text : Text) : Additive (Entry.reason flow text) where
  first entry := by
    simp only [Entry.reason, Entry.merge, mergeFlowLeaves, get_absorb]
    cases entry.flows.get flow with
    | none => rfl
    | some leaf => exact merge_leaf_reason .zero leaf text
  adds entry source := by
    simp only [Entry.reason, Entry.merge, mergeFlowLeaves, get_absorb]
    cases source.flows.get flow with
    | none => exact (plus_none _).symm
    | some leaf =>
      cases entry.flows.get flow with
      | none => exact merge_leaf_reason .zero leaf text
      | some known => exact merge_leaf_reason known leaf text

section observed

variable {M : Type} [AddCommSemigroup M] (view : Entry → Option M)

def runAmount (name : Text) (run : RecordedRun) : Option M :=
  if name = run.name then view (runEntry run.sequencesCount run.flowsCount run.stats) else none

variable (additive : Additive view)

include additive

theorem merge_into (slot : Option Entry) (entry : Entry) :
    view ((slot.getD .zero).merge entry) = plus (slot.bind view) (view entry) := by
  cases slot with
  | none => exact additive.first entry
  | some known => exact additive.adds known entry

theorem record_observed (name : Text) (registry : Registry) (run : RecordedRun) :
    observe view name (record registry run) = plus (observe view name registry) (runAmount view name run) := by
  rw [observe, record, recordRunStats, get_set, runAmount]
  by_cases same : name = run.name
  · rw [if_pos same, if_pos same, observe, same]
    exact merge_into view additive (registry.get run.name) _
  · rw [if_neg same, if_neg same, plus_none, observe]

theorem merge_observed (name : Text) (dst src : Registry) :
    observe view name (mergeSessionStats dst src) = plus (observe view name dst) (observe view name src) := by
  simp only [observe, mergeSessionStats, get_absorb]
  cases src.get name with
  | none => exact (plus_none _).symm
  | some entry => exact merge_into view additive (dst.get name) entry

theorem record_all_observed (name : Text) (runs : List RecordedRun) :
    observe view name (recordAll runs) = addUp (runs.map (runAmount view name)) :=
  fold_add_up (observe view name) record (runAmount view name) (record_observed view additive name) runs .empty

theorem merge_all_observed (name : Text) (registries : List Registry) :
    observe view name (mergeAll registries) = addUp (registries.map (observe view name)) :=
  fold_add_up (observe view name) mergeSessionStats (observe view name) (merge_observed view additive name) registries .empty

theorem partition_observed (workers : List (List RecordedRun)) (runs : List RecordedRun)
    (partition : workers.flatten.Perm runs) (name : Text) :
    observe view name (mergeAll (workers.map recordAll)) = observe view name (recordAll runs) := by
  rw [merge_all_observed view additive, record_all_observed view additive, List.map_map]
  calc addUp (workers.map (observe view name ∘ recordAll))
      = addUp ((workers.map (List.map (runAmount view name))).map addUp) := by
        rw [List.map_map]
        refine congrArg addUp (List.map_congr_left fun worker _ => ?_)
        exact record_all_observed view additive name worker
    _ = addUp (workers.flatten.map (runAmount view name)) := by rw [← add_up_flatten, List.map_flatten]
    _ = addUp (runs.map (runAmount view name)) := add_up_perm _ _ (partition.map _)

end observed

theorem partition_totals (workers : List (List RecordedRun)) (runs : List RecordedRun)
    (partition : workers.flatten.Perm runs) : SameTotals (mergeAll (workers.map recordAll)) (recordAll runs) where
  budget := partition_observed _ budget_additive workers runs partition
  counts name flow := partition_observed _ (counts_additive flow) workers runs partition name
  reason name flow text := partition_observed _ (reason_additive flow text) workers runs partition name

end WakeSol.Fuzz
