import WakeSol.Lib.Interleave
import WakeSol.Parallel.Worker

/- The server's event loop. It takes messages off the queue until every worker has
   finished its session, keeps the reports, and replays them whichever way the loop
   ends. -/
set_option autoImplicit false

namespace WakeSol.Parallel

open TextLib InterleaveLib

structure ServerState (Report : Type) where
  processes : List Nat
  reports : List Report
  keyboardInterrupt : List Nat
deriving DecidableEq

inductive Ending where
  | returned
  | interrupted
  | raised
  | waiting
deriving DecidableEq

section Server

variable {Report : Type} (transport : Transport Report)

-- A worker whose exception the server cannot load stays blocked and never finishes
-- its session, so the load of an exception has no case here.
def handle (state : ServerState Report) (index : Nat) : Message Report → Option (ServerState Report)
  | .protocol _ => some state
  | .report kind report =>
    (loadReport transport kind report).map fun loaded => { state with reports := state.reports ++ [loaded] }
  | .notice (.warning _ loads) => if loads then some state else none
  | .notice (.internalError loads) => if loads then some state else none
  | .notice .keyboardInterrupt => some { state with keyboardInterrupt := index :: state.keyboardInterrupt }
  | .notice _ => some state
  | .sessionFinish _ =>
    if index ∈ state.processes then some { state with processes := state.processes.erase index } else none

def serve : ServerState Report → List (Nat × Message Report) → ServerState Report × Ending
  | state, [] =>
    if state.processes = [] then (state, if state.keyboardInterrupt = [] then .returned else .interrupted)
    else (state, .waiting)
  | state, (index, message) :: rest =>
    if state.processes = [] then (state, if state.keyboardInterrupt = [] then .returned else .interrupted)
    else
      match handle transport state index message with
      | none => (state, .raised)
      | some next => serve next rest

def raises : Message Report → Bool
  | .report kind report => (loadReport transport kind report).isNone
  | .notice (.warning _ loads) => !loads
  | .notice (.internalError loads) => !loads
  | _ => false

theorem load_report (kind : ReportKind) (report loaded : Report) (loads : loadReport transport kind report = some loaded) :
    loaded = report := by
  cases kind with
  | json =>
    rw [loadReport] at loads
    split at loads
    · exact (Option.some.inj loads).symm
    · cases loads
  | pickle =>
    rw [loadReport] at loads
    split at loads
    · exact (Option.some.inj loads).symm
    · cases loads

variable (state : ServerState Report) (index : Nat)

theorem handle_raises (message : Message Report)
    (isRaising : raises transport message = true) : handle transport state index message = none := by
  cases message with
  | protocol nodeid => cases isRaising
  | sessionFinish exitstatus => cases isRaising
  | report kind report =>
    have nothing := Option.isNone_iff_eq_none.mp isRaising
    rw [handle, nothing]
    rfl
  | notice notice =>
    cases notice with
    | warning pickles loads =>
      cases loads with
      | true => cases isRaising
      | false => rfl
    | internalError loads =>
      cases loads with
      | true => cases isRaising
      | false => rfl
    | _ => cases isRaising

theorem handle_finish (message : Message Report) (finishes : message.finishes = true) (running : index ∈ state.processes) :
    handle transport state index message = some { state with processes := state.processes.erase index } := by
  cases message with
  | sessionFinish exitstatus => exact if_pos running
  | _ => cases finishes

theorem handle_goes_on (message : Message Report)
    (fine : raises transport message = false) (goesOn : message.finishes = false) :
    ∃ next, handle transport state index message = some next ∧ next.processes = state.processes ∧
      next.reports = state.reports ++ message.logged.toList := by
  cases message with
  | protocol nodeid => exact ⟨state, rfl, rfl, (List.append_nil _).symm⟩
  | sessionFinish exitstatus => cases goesOn
  | report kind report =>
    have something := Option.isNone_eq_false_iff.mp fine
    obtain ⟨loaded, loads⟩ := Option.isSome_iff_exists.mp something
    obtain rfl := load_report transport kind report loaded loads
    refine ⟨{ state with reports := state.reports ++ [loaded] }, ?_, rfl, rfl⟩
    rw [handle, loads]
    rfl
  | notice notice =>
    cases notice with
    | warning pickles loads =>
      cases loads with
      | true => exact ⟨state, rfl, rfl, (List.append_nil _).symm⟩
      | false => cases fine
    | internalError loads =>
      cases loads with
      | true => exact ⟨state, rfl, rfl, (List.append_nil _).symm⟩
      | false => cases fine
    | keyboardInterrupt => exact ⟨_, rfl, rfl, (List.append_nil _).symm⟩
    | _ => exact ⟨state, rfl, rfl, (List.append_nil _).symm⟩

def Closes (messages : List (Message Report)) : Prop :=
  ∃ body last, messages = body ++ [last] ∧ last.finishes = true ∧ ∀ message ∈ body, message.finishes = false

theorem closes_tail (message : Message Report) (rest : List (Message Report)) (closes : Closes (message :: rest)) :
    (message.finishes = true ∧ rest = []) ∨ (message.finishes = false ∧ Closes rest) := by
  obtain ⟨body, last, split, finishes, earlier⟩ := closes
  cases body with
  | nil =>
    obtain ⟨rfl, rfl⟩ := List.cons.inj split
    exact .inl ⟨finishes, rfl⟩
  | cons first others =>
    obtain ⟨rfl, rfl⟩ := List.cons.inj split
    refine .inr ⟨earlier message List.mem_cons_self, others, last, rfl, finishes, fun other inside => ?_⟩
    exact earlier other (List.mem_cons_of_mem _ inside)

theorem closes_nonempty (messages : List (Message Report)) (closes : Closes messages) : messages ≠ [] := by
  obtain ⟨body, last, rfl, _⟩ := closes
  simp

structure Expects (state : ServerState Report) (received : List (Nat × Message Report)) : Prop where
  distinct : state.processes.Nodup
  running : ∀ index ∈ state.processes, Closes (lane index received)
  finished : ∀ index, index ∉ state.processes → lane index received = []

theorem expects_step (state next : ServerState Report) (index : Nat) (message : Message Report)
    (rest : List (Nat × Message Report)) (expects : Expects state ((index, message) :: rest))
    (same : next.processes = state.processes) (goesOn : message.finishes = false) : Expects next rest := by
  constructor
  · rw [same]
    exact expects.distinct
  · rw [same]
    intro other running
    have closes := expects.running other running
    by_cases here : index = other
    · rw [here, lane_cons_self] at closes
      rcases closes_tail message _ closes with ⟨finishes, _⟩ | ⟨_, later⟩
      · rw [goesOn] at finishes
        cases finishes
      · exact later
    · rwa [lane_cons_other other index message rest here] at closes
  · rw [same]
    intro other absent
    have nothing := expects.finished other absent
    by_cases here : index = other
    · rw [here, lane_cons_self] at nothing
      cases nothing
    · rwa [lane_cons_other other index message rest here] at nothing

theorem expects_finish (message : Message Report)
    (rest : List (Nat × Message Report)) (expects : Expects state ((index, message) :: rest))
    (running : index ∈ state.processes) (finishes : message.finishes = true) :
    Expects { state with processes := state.processes.erase index } rest := by
  have last : lane index rest = [] := by
    have closes := expects.running index running
    rw [lane_cons_self] at closes
    rcases closes_tail message _ closes with ⟨_, nothing⟩ | ⟨goesOn, _⟩
    · exact nothing
    · rw [finishes] at goesOn
      cases goesOn
  constructor
  · exact expects.distinct.erase index
  · intro other inside
    obtain ⟨differs, stillThere⟩ := (List.Nodup.mem_erase_iff expects.distinct).mp inside
    have closes := expects.running other stillThere
    rwa [lane_cons_other other index message rest (Ne.symm differs)] at closes
  · intro other absent
    by_cases here : index = other
    · rwa [← here]
    · have gone : other ∉ state.processes := fun inside =>
        absent ((List.Nodup.mem_erase_iff expects.distinct).mpr ⟨Ne.symm here, inside⟩)
      have nothing := expects.finished other gone
      rwa [lane_cons_other other index message rest here] at nothing

theorem expects_sender (message : Message Report)
    (rest : List (Nat × Message Report)) (expects : Expects state ((index, message) :: rest)) : index ∈ state.processes := by
  by_contra absent
  have nothing := expects.finished index absent
  rw [lane_cons_self] at nothing
  cases nothing

def handled (received : List (Nat × Message Report)) : List (Nat × Message Report) :=
  received.takeWhile fun entry => !raises transport entry.2

-- Induction on the messages: none of them comes after the loop has ended.
theorem serve_spec (received : List (Nat × Message Report)) (expects : Expects state received) :
    (serve transport state received).1.reports =
        state.reports ++ (handled transport received).filterMap (fun entry => entry.2.logged) ∧
      (serve transport state received).2 ≠ .waiting := by
  induction received generalizing state with
  | nil =>
    have empty : state.processes = [] := by
      apply List.eq_nil_iff_forall_not_mem.mpr
      intro index running
      exact closes_nonempty _ (expects.running index running) rfl
    rw [serve, if_pos empty]
    refine ⟨(List.append_nil _).symm, ?_⟩
    split <;> nofun
  | cons entry rest ih =>
    obtain ⟨index, message⟩ := entry
    have sender := expects_sender state index message rest expects
    have open_ : state.processes ≠ [] := List.ne_nil_of_mem sender
    rw [serve, if_neg open_, handled, List.takeWhile_cons]
    cases isRaising : raises transport message with
    | true =>
      rw [handle_raises transport state index message isRaising]
      exact ⟨(List.append_nil _).symm, nofun⟩
    | false =>
      cases finishes : message.finishes with
      | true =>
        rw [handle_finish transport state index message finishes sender]
        have unlogged : message.logged = none := by
          cases message with
          | sessionFinish exitstatus => rfl
          | _ => cases finishes
        have later := ih _ (expects_finish state index message rest expects sender finishes)
        simp only [Bool.not_false, if_true, List.filterMap_cons, unlogged]
        exact later
      | false =>
        obtain ⟨next, goesOn, same, reports⟩ := handle_goes_on transport state index message isRaising finishes
        have later := ih next (expects_step state next index message rest expects same finishes)
        rw [goesOn]
        refine ⟨?_, later.2⟩
        rw [later.1, reports, List.append_assoc]
        simp only [Bool.not_false, if_true, List.filterMap_cons]
        cases message.logged <;> rfl

end Server

end WakeSol.Parallel
