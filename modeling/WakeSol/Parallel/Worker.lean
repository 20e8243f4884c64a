import WakeSol.Lib.Text

/- The workers of a parallel run: which tests each of them is given, and the
   messages it puts on the queue while it runs them. -/
set_option autoImplicit false

namespace WakeSol.Parallel

open TextLib

inductive Distribution where
  | uniform
  | duplicated
deriving DecidableEq

-- Python's list(range(start, stop)).
def pyRange (start stop : Nat) : List Nat := List.range' start (stop - start)

def assignment (dist : Distribution) (count tests worker : Nat) : List Nat :=
  match dist with
  | .uniform =>
    let step := tests / count
    if worker = count - 1 then pyRange (worker * step) tests
    else pyRange (worker * step) ((worker + 1) * step)
  | .duplicated => pyRange 0 tests

theorem py_range_append (start middle stop : Nat) (before : start ≤ middle) (after : middle ≤ stop) :
    pyRange start middle ++ pyRange middle stop = pyRange start stop := by
  rw [pyRange, pyRange, pyRange]
  have joined : List.range' start (middle - start) ++ List.range' (start + (middle - start)) (stop - middle) =
      List.range' start (middle - start + (stop - middle)) := List.range'_append_1
  have reaches : start + (middle - start) = middle := by omega
  have total : middle - start + (stop - middle) = stop - start := by omega
  rw [reaches, total] at joined
  exact joined

theorem slices_flatten (count step : Nat) :
    ((List.range count).map fun worker => pyRange (worker * step) ((worker + 1) * step)).flatten = pyRange 0 (count * step) := by
  induction count with
  | zero => simp [pyRange]
  | succ count ih =>
    rw [List.range_succ, List.map_append, List.flatten_append, ih, List.map_singleton, List.flatten_singleton]
    apply py_range_append
    · exact Nat.zero_le _
    · exact Nat.mul_le_mul_right step (Nat.le_succ count)

theorem uniform_partition (count tests : Nat) (positive : 0 < count) :
    ((List.range count).map (assignment .uniform count tests)).flatten = List.range tests := by
  obtain ⟨others, rfl⟩ := Nat.exists_eq_add_of_lt positive
  rw [Nat.zero_add, List.range_succ, List.map_append, List.flatten_append, List.map_singleton, List.flatten_singleton]
  have full : (List.range others).map (assignment .uniform (others + 1) tests) =
      (List.range others).map fun worker => pyRange (worker * (tests / (others + 1))) ((worker + 1) * (tests / (others + 1))) := by
    apply List.map_congr_left
    intro worker inside
    have notLast : worker ≠ others + 1 - 1 := by
      have below := List.mem_range.mp inside
      omega
    simp only [assignment, if_neg notLast]
  have last : assignment .uniform (others + 1) tests others = pyRange (others * (tests / (others + 1))) tests := by
    simp [assignment]
  have fits : others * (tests / (others + 1)) ≤ tests := by
    calc others * (tests / (others + 1)) ≤ (others + 1) * (tests / (others + 1)) :=
          Nat.mul_le_mul_right _ (Nat.le_succ others)
      _ ≤ tests := Nat.mul_div_le tests (others + 1)
  rw [full, slices_flatten, last, py_range_append _ _ _ (Nat.zero_le _) fits, pyRange, Nat.sub_zero, List.range_eq_range']

theorem duplicated_whole (count tests worker : Nat) : assignment .duplicated count tests worker = List.range tests := by
  rw [assignment, pyRange, Nat.sub_zero, List.range_eq_range']

example : (List.range 3).map (assignment .uniform 3 2) = [[], [], [0, 1]] := by decide

inductive ReportKind where
  | pickle
  | json
deriving DecidableEq

-- What crosses the queue besides reports and the frame of a test. A warning is
-- pickled by the queue itself, an internal error by the worker; the server loads
-- both.
inductive Notice where
  | exception
  | breakpoint
  | warning (pickles loads : Bool)
  | internalError (loads : Bool)
  | fuzzTestStats
  | coverage
  | crashlogPath (nodeid relpath : Text)
  | keyboardInterrupt
deriving DecidableEq

inductive Message (Report : Type) where
  | protocol (nodeid : Text)
  | report (kind : ReportKind) (report : Report)
  | notice (notice : Notice)
  | sessionFinish (exitstatus : Int)
deriving DecidableEq

-- Whether a report can be pickled and loaded again, and whether the dictionary of
-- its other form can be moved by the queue and read. That dictionary still holds
-- the report's user properties as they are.
structure Transport (Report : Type) where
  pickles : Report → Bool
  loads : Report → Bool
  moves : Report → Bool
  reads : Report → Bool

inductive Activity (Report : Type) where
  | logReport (report : Report)
  | notice (notice : Notice)

-- One worker's session: what happens before its loop, while each test runs, and
-- after the loop, and after which tests it is told to stop.
structure Script (Report : Type) where
  before : List (Activity Report)
  during : Nat → List (Activity Report)
  stopsAfter : Nat → Bool
  collectsCoverage : Bool
  after : List (Activity Report)
  exitstatus : Int

section Worker

variable {Report : Type} (transport : Transport Report)

def dumpReport (report : Report) : Message Report :=
  if transport.pickles report then .report .pickle report else .report .json report

def loadReport (kind : ReportKind) (report : Report) : Option Report :=
  match kind with
  | .json => if transport.reads report then some report else none
  | .pickle => if transport.loads report then some report else none

-- The queue's own thread pickles a message; one that it cannot pickle is dropped.
def carried : Message Report → Bool
  | .report .json report => transport.moves report
  | .notice (.warning pickles _) => pickles
  | _ => true

def hook : Activity Report → Message Report
  | .logReport report => dumpReport transport report
  | .notice notice => .notice notice

def ran (script : Script Report) : List Nat → List Nat
  | [] => []
  | index :: rest => index :: if script.stopsAfter index then [] else ran script rest

def runtestloop (items : List Text) (script : Script Report) : List Nat → List (Message Report)
  | [] => []
  | index :: rest =>
    .protocol (items.getD index []) :: ((script.during index).map (hook transport) ++
      if script.stopsAfter index then [] else runtestloop items script rest)

def closing (script : Script Report) : List (Message Report) :=
  .notice .fuzzTestStats :: if script.collectsCoverage then [.notice .coverage] else []

def body (items : List Text) (script : Script Report) (indexes : List Nat) : List (Message Report) :=
  script.before.map (hook transport) ++ runtestloop transport items script indexes ++ closing script ++
    script.after.map (hook transport)

def enqueued (items : List Text) (script : Script Report) (indexes : List Nat) : List (Message Report) :=
  body transport items script indexes ++ [.sessionFinish script.exitstatus]

def Message.nodeid : Message Report → Option Text
  | .protocol nodeid => some nodeid
  | _ => none

def Message.logged : Message Report → Option Report
  | .report _ logged => some logged
  | _ => none

def Message.finishes : Message Report → Bool
  | .sessionFinish _ => true
  | _ => false

theorem hook_cases (activity : Activity Report) :
    (∃ kind report, hook transport activity = .report kind report) ∨ ∃ notice, hook transport activity = .notice notice := by
  cases activity with
  | notice notice => exact .inr ⟨notice, rfl⟩
  | logReport report =>
    rw [hook, dumpReport]
    split
    · exact .inl ⟨.pickle, report, rfl⟩
    · exact .inl ⟨.json, report, rfl⟩

theorem hooked (activities : List (Activity Report)) (message : Message Report)
    (inside : message ∈ activities.map (hook transport)) : message.nodeid = none ∧ message.finishes = false := by
  obtain ⟨activity, _, rfl⟩ := List.mem_map.mp inside
  rcases hook_cases transport activity with ⟨kind, report, same⟩ | ⟨notice, same⟩
  · rw [same]
    exact ⟨rfl, rfl⟩
  · rw [same]
    exact ⟨rfl, rfl⟩

theorem hooks_silent (activities : List (Activity Report)) : (activities.map (hook transport)).filterMap Message.nodeid = [] := by
  rw [List.filterMap_eq_nil_iff]
  intro message inside
  exact (hooked transport activities message inside).1

theorem loop_announces (items : List Text) (script : Script Report) (indexes : List Nat) :
    (runtestloop transport items script indexes).filterMap Message.nodeid =
      (ran script indexes).map fun index => items.getD index [] := by
  induction indexes with
  | nil => rfl
  | cons index rest ih =>
    rw [runtestloop, ran, List.filterMap_cons, List.filterMap_append, hooks_silent, List.nil_append, List.map_cons]
    cases script.stopsAfter index with
    | true => rfl
    | false => exact congrArg (List.cons (items.getD index [])) ih

theorem closing_nodeid (script : Script Report) : (closing script).filterMap Message.nodeid = [] := by
  rw [closing]
  cases script.collectsCoverage <;> rfl

theorem announces (items : List Text) (script : Script Report) (indexes : List Nat) :
    (enqueued transport items script indexes).filterMap Message.nodeid =
      (ran script indexes).map fun index => items.getD index [] := by
  rw [enqueued, body, List.filterMap_append, List.filterMap_append, List.filterMap_append, List.filterMap_append,
    hooks_silent, hooks_silent, closing_nodeid, loop_announces]
  simp [Message.nodeid]

theorem ran_initial (script : Script Report) (indexes : List Nat) : ran script indexes <+: indexes := by
  induction indexes with
  | nil => exact List.prefix_rfl
  | cons index rest ih =>
    rw [ran]
    apply List.cons_prefix_cons.mpr
    refine ⟨rfl, ?_⟩
    split
    · exact List.nil_prefix
    · exact ih

theorem ran_all (script : Script Report) (indexes : List Nat) (unstopped : ∀ index ∈ indexes, script.stopsAfter index = false) :
    ran script indexes = indexes := by
  induction indexes with
  | nil => rfl
  | cons index rest ih =>
    have goesOn := unstopped index List.mem_cons_self
    rw [ran, goesOn, ih fun other inside => unstopped other (List.mem_cons_of_mem _ inside)]
    rfl

theorem loop_finishes (items : List Text) (script : Script Report) (indexes : List Nat) :
    ∀ message ∈ runtestloop transport items script indexes, message.finishes = false := by
  induction indexes with
  | nil => simp [runtestloop]
  | cons index rest ih =>
    intro message inside
    rw [runtestloop, List.mem_cons, List.mem_append] at inside
    rcases inside with rfl | during | later
    · rfl
    · exact (hooked transport _ message during).2
    · split at later
      · cases later
      · exact ih message later

theorem body_finishes (items : List Text) (script : Script Report) (indexes : List Nat) :
    ∀ message ∈ body transport items script indexes, message.finishes = false := by
  intro message inside
  rw [body, List.mem_append, List.mem_append, List.mem_append] at inside
  rcases inside with ((before | looped) | closed) | after
  · exact (hooked transport _ message before).2
  · exact loop_finishes transport items script indexes message looped
  · rcases List.mem_cons.mp closed with rfl | covered
    · rfl
    · split at covered
      · obtain rfl := List.mem_singleton.mp covered
        rfl
      · cases covered
  · exact (hooked transport _ message after).2

end Worker

end WakeSol.Parallel
