import WakeSol.Parallel.Server

/- A whole parallel run. The tests are shared out and run in order; every report is
   replayed once, unless the queue drops it or an earlier message ends the loop. -/
set_option autoImplicit false

namespace WakeSol.Parallel

open TextLib InterleaveLib

structure ParallelRun (Report : Type) where
  transport : Transport Report
  items : List Text
  count : Nat
  positive : 0 < count
  dist : Distribution
  script : Nat → Script Report
  received : List (Nat × Message Report)
  interleaves : Interleaves
    (fun worker =>
      if worker < count then
        (enqueued transport items (script worker) (assignment dist count items.length worker)).filter (carried transport)
      else [])
    received

section Run

variable {Report : Type} (run : ParallelRun Report)

def ParallelRun.assigned (worker : Nat) : List Nat := assignment run.dist run.count run.items.length worker

def ParallelRun.messages (worker : Nat) : List (Message Report) :=
  if worker < run.count then enqueued run.transport run.items (run.script worker) (run.assigned worker) else []

def ParallelRun.start : ServerState Report := ⟨List.range run.count, [], []⟩

def ParallelRun.outcome : ServerState Report × Ending := serve run.transport run.start run.received

def ParallelRun.Lossless : Prop := Shuffles (fun worker => (run.messages worker).filterMap Message.logged) run.outcome.1.reports

structure ParallelRun.Unbroken : Prop where
  carried : ∀ worker, ∀ message ∈ run.messages worker, message.logged ≠ none → carried run.transport message = true
  inTime : ∀ before entry after, run.received = before ++ entry :: after → raises run.transport entry.2 = true →
    ∀ later ∈ entry :: after, later.2.logged = none

theorem lane_received (worker : Nat) :
    lane worker run.received = (run.messages worker).filter (carried run.transport) := by
  have sent := run.interleaves worker
  rw [ParallelRun.messages, ParallelRun.assigned]
  by_cases inside : worker < run.count
  · simpa only [if_pos inside] using sent
  · simpa only [if_neg inside, List.filter_nil] using sent

theorem carried_closes (worker : Nat) (inside : worker < run.count) : Closes (lane worker run.received) := by
  rw [lane_received, ParallelRun.messages, if_pos inside, enqueued, List.filter_append]
  refine ⟨_, .sessionFinish (run.script worker).exitstatus, rfl, rfl, fun message isBody => ?_⟩
  exact body_finishes run.transport run.items _ _ message (List.mem_of_mem_filter isBody)

theorem start_expects : Expects run.start run.received := by
  constructor
  · exact List.nodup_range
  · intro worker running
    exact carried_closes run worker (List.mem_range.mp running)
  · intro worker absent
    rw [lane_received, ParallelRun.messages, if_neg fun inside => absent (List.mem_range.mpr inside)]
    rfl

def ParallelRun.replayed : List (Nat × Report) := pick Message.logged (handled run.transport run.received)

def ParallelRun.arrived : List (Nat × Report) := pick Message.logged run.received

theorem outcome_reports : run.outcome.1.reports = run.replayed.map Prod.snd := by
  rw [ParallelRun.replayed, pick_values]
  exact (serve_spec run.transport run.start run.received (start_expects run)).1

theorem lane_arrived (worker : Nat) :
    lane worker run.arrived = ((run.messages worker).filter (carried run.transport)).filterMap Message.logged := by
  rw [ParallelRun.arrived, lane_pick, lane_received]

theorem arrived_split :
    run.arrived = run.replayed ++
      pick Message.logged (run.received.dropWhile fun entry => !raises run.transport entry.2) := by
  rw [ParallelRun.replayed, ← pick_append, handled, List.takeWhile_append_dropWhile]
  rfl

theorem in_time_iff : run.arrived = run.replayed ↔
    ∀ before entry after, run.received = before ++ entry :: after → raises run.transport entry.2 = true →
      ∀ later ∈ entry :: after, later.2.logged = none := by
  have cuts := after_stop_iff (fun entry => !raises run.transport entry.2) (fun entry => entry.2.logged = none) run.received
  simp only [Bool.not_eq_false'] at cuts
  rw [← cuts, arrived_split, List.append_right_eq_self, pick, List.filterMap_eq_nil_iff]
  simp only [Option.map_eq_none_iff]

theorem lossless_of_unbroken (unbroken : run.Unbroken) : run.Lossless := by
  refine ⟨run.replayed, fun worker => ?_, (outcome_reports run).symm⟩
  rw [← (in_time_iff run).mpr unbroken.inTime, lane_arrived, List.filterMap_filter]
  apply List.filterMap_congr
  intro message inside
  by_cases logs : message.logged = none
  · rw [logs, ite_self]
  · rw [if_pos (unbroken.carried worker message inside logs)]

theorem arrived_within (worker : Nat) :
    (lane worker run.arrived).Sublist ((run.messages worker).filterMap Message.logged) := by
  rw [lane_arrived]
  exact List.filter_sublist.filterMap _

theorem unbroken_of_lossless (lossless : run.Lossless) : run.Unbroken := by
  obtain ⟨merged, interleaves, values⟩ := lossless
  rw [outcome_reports] at values
  have complete : ∀ worker, lane worker merged = (run.messages worker).filterMap Message.logged := interleaves
  have late : ∀ worker, (lane worker run.replayed).Sublist (lane worker run.arrived) := by
    intro worker
    rw [arrived_split, lane_append]
    exact List.sublist_append_left _ _
  have within : ∀ worker, (lane worker run.replayed).Sublist (lane worker merged) := by
    intro worker
    rw [complete worker]
    exact (late worker).trans (arrived_within run worker)
  have long : merged.length ≤ run.replayed.length := by
    have lengths := congrArg List.length values
    rw [List.length_map, List.length_map] at lengths
    exact Nat.le_of_eq lengths
  have same := lanes_eq_of_length run.replayed merged within long
  -- What arrives lies between what is replayed and what was sent, so it is both.
  have sent : ∀ worker, lane worker run.arrived = (run.messages worker).filterMap Message.logged := by
    intro worker
    apply (arrived_within run worker).eq_of_length_le
    rw [← complete worker, ← same worker]
    exact (late worker).length_le
  constructor
  · intro worker message inside logs
    have all := sent worker
    rw [lane_arrived] at all
    exact kept_of_filter_map (carried run.transport) Message.logged _ all message inside logs
  · apply (in_time_iff run).mp
    have nothing : pick Message.logged (run.received.dropWhile fun entry => !raises run.transport entry.2) = [] := by
      apply lanes_empty
      intro worker
      have whole := sent worker
      rw [← complete worker, ← same worker, arrived_split, lane_append, List.append_right_eq_self] at whole
      exact whole
    rw [arrived_split, nothing, List.append_nil]

theorem lossless_iff : run.Lossless ↔ run.Unbroken := ⟨unbroken_of_lossless run, lossless_of_unbroken run⟩

end Run

theorem parallel_run_iff {Report : Type} (run : ParallelRun Report) :
    ((List.range run.count).map (assignment .uniform run.count run.items.length)).flatten = List.range run.items.length ∧
    (∀ worker, assignment .duplicated run.count run.items.length worker = List.range run.items.length) ∧
    (∀ worker, worker < run.count →
      (run.messages worker).filterMap Message.nodeid =
          (ran (run.script worker) (run.assigned worker)).map (fun index => run.items.getD index []) ∧
        ran (run.script worker) (run.assigned worker) <+: run.assigned worker ∧
        ((∀ index ∈ run.assigned worker, (run.script worker).stopsAfter index = false) →
          ran (run.script worker) (run.assigned worker) = run.assigned worker)) ∧
    run.outcome.2 ≠ .waiting ∧
    (run.Lossless ↔ run.Unbroken) := by
  refine ⟨uniform_partition _ _ run.positive, duplicated_whole _ _, fun worker inside => ⟨?_, ?_, ?_⟩, ?_, lossless_iff run⟩
  · rw [ParallelRun.messages, if_pos inside]
    exact announces run.transport run.items _ _
  · exact ran_initial _ _
  · exact ran_all _ _
  · exact (serve_spec run.transport run.start run.received (start_expects run)).2

-- A test records a property that cannot be pickled. Its report is put on the queue
-- in the other form, which holds the property too, and the queue drops it.
def recordedLambda : Transport Nat := ⟨fun _ => false, fun _ => true, fun _ => false, fun _ => true⟩

def failingTest : Script Nat := ⟨[], fun _ => [.logReport 7], fun _ => false, false, [], 1⟩

def droppedReport : List (Nat × Message Nat) :=
  [(0, .protocol []), (0, .notice .fuzzTestStats), (0, .sessionFinish 1)]

theorem dropped_interleaves : Interleaves
    (fun worker =>
      if worker < 1 then
        (enqueued recordedLambda [[]] failingTest (assignment .duplicated 1 1 worker)).filter (carried recordedLambda)
      else [])
    droppedReport := by
  intro worker
  cases worker with
  | zero => rfl
  | succ worker => rfl

def lossyRun : ParallelRun Nat :=
  ⟨recordedLambda, [[]], 1, Nat.one_pos, .duplicated, fun _ => failingTest, droppedReport, dropped_interleaves⟩

theorem report_dropped :
    (lossyRun.messages 0).filterMap Message.logged = [7] ∧ lossyRun.outcome = (⟨[], [], []⟩, .returned) ∧
      ¬ lossyRun.Lossless := by
  have nothing : lossyRun.outcome = (⟨[], [], []⟩, .returned) := by decide
  refine ⟨rfl, nothing, ?_⟩
  rintro ⟨merged, interleaves, values⟩
  rw [nothing, List.map_eq_nil_iff] at values
  have sent := interleaves 0
  rw [values] at sent
  cases sent

end WakeSol.Parallel
