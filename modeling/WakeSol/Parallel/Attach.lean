import Mathlib.Logic.Function.Basic
import Mathlib.Data.List.Basic

/- The negotiation of a debugger session. A worker puts a message on the shared queue
   and waits on its pipe for the decision; the server sends it and waits on the same
   pipe for the acknowledgement. -/
set_option autoImplicit false

namespace WakeSol.Parallel

inductive Negotiation where
  | exception
  | breakpoint
deriving DecidableEq

inductive Phase where
  | running
  | awaitingDecision (negotiation : Negotiation)
  | prompt
  | postMortem
  | finished
  | exited
deriving DecidableEq

-- The commands that end a session of the debugger, and those that resume the test
-- until the debugger's next stop.
inductive DebuggerCommand where
  | doContinue
  | doQuit
  | doEof
  | stepping
deriving DecidableEq

inductive LogEvent where
  | started
  | acknowledged
deriving DecidableEq

-- A worker with its side of the queue, the two directions of its pipe, and a log of
-- its negotiations that the program does not keep.
structure AttachWorker where
  phase : Phase
  exceptionHandled : Bool
  breakpointAckPending : Bool
  debuggerSet : Bool
  outbox : List Negotiation
  decisions : List Bool
  acks : List Negotiation
  log : List LogEvent
deriving DecidableEq

namespace AttachWorker

def fresh : AttachWorker := ⟨.running, false, false, false, [], [], [], []⟩

-- Both handlers put their message and block on the pipe.
def negotiate (worker : AttachWorker) (negotiation : Negotiation) : AttachWorker :=
  { worker with
    phase := .awaitingDecision negotiation, outbox := worker.outbox ++ [negotiation], log := worker.log ++ [.started] }

def send (worker : AttachWorker) (negotiation : Negotiation) : AttachWorker :=
  { worker with acks := worker.acks ++ [negotiation], log := worker.log ++ [.acknowledged] }

def ackBreakpoint (worker : AttachWorker) : AttachWorker :=
  if worker.breakpointAckPending then { worker.send .breakpoint with breakpointAckPending := false } else worker

end AttachWorker

-- What happens in a worker. A stop is the debugger's prompt coming back, after a
-- step or at a breakpoint set from the prompt.
inductive Move where
  | breakpoint
  | exception
  | runtestSetup
  | decided
  | command (command : DebuggerCommand)
  | stop
  | leavePostMortem
  | sessionFinish
  | exit
deriving DecidableEq

-- The routing handler is installed under the attach option only. A move that the
-- worker's phase does not allow changes nothing.
def AttachWorker.move (attach : Bool) (worker : AttachWorker) : Move → AttachWorker
  | .breakpoint =>
    match worker.phase with
    | .running => worker.negotiate .breakpoint
    | _ => worker
  | .exception =>
    match worker.phase with
    | .running =>
      if attach ∧ worker.exceptionHandled = false then
        { worker.negotiate .exception with exceptionHandled := true }
      else worker
    | _ => worker
  | .runtestSetup =>
    match worker.phase with
    | .running => { worker with exceptionHandled := false }
    | _ => worker
  | .decided =>
    match worker.phase, worker.decisions with
    | .awaitingDecision .exception, accepted :: rest =>
      let worker := { worker with decisions := rest }
      if accepted then { worker with phase := .postMortem } else { worker.send .exception with phase := .running }
    | .awaitingDecision .breakpoint, accepted :: rest =>
      let worker := { worker with decisions := rest }
      if accepted then { worker with phase := .prompt, breakpointAckPending := true, debuggerSet := true }
      else { worker.send .breakpoint with phase := .running }
    | _, _ => worker
  | .command command =>
    match worker.phase with
    | .prompt =>
      match command with
      | .doContinue => { worker.ackBreakpoint with phase := .running }
      | .doQuit => { worker.ackBreakpoint with phase := .running, debuggerSet := false }
      | .doEof => { worker.ackBreakpoint with phase := .running, debuggerSet := false }
      | .stepping => { worker with phase := .running }
    | _ => worker
  | .stop =>
    match worker.phase with
    | .running => if worker.debuggerSet then { worker with phase := .prompt } else worker
    | _ => worker
  | .leavePostMortem =>
    match worker.phase with
    | .postMortem => { worker.send .exception with phase := .running }
    | _ => worker
  | .sessionFinish =>
    match worker.phase with
    | .running => { worker with phase := .finished }
    | _ => worker
  | .exit =>
    match worker.phase with
    | .finished => { worker.ackBreakpoint with phase := .exited }
    | _ => worker

structure AttachSystem (W : Type) where
  awaits : Option W
  worker : W → AttachWorker

def AttachSystem.start (W : Type) : AttachSystem W := ⟨none, fun _ => .fresh⟩

inductive AttachAction (W : Type) where
  | move (worker : W) (move : Move)
  | negotiate (worker : W) (answer : Bool)
  | released (worker : W)

-- The user is asked on a terminal only; elsewhere the answer is no.
structure AttachOptions where
  attach : Bool
  prompts : Bool

section System

variable {W : Type} [DecidableEq W] (options : AttachOptions)

def AttachSystem.step (system : AttachSystem W) : AttachAction W → AttachSystem W
  | .move index move =>
    { system with worker := Function.update system.worker index ((system.worker index).move options.attach move) }
  | .negotiate index answer =>
    match system.awaits, (system.worker index).outbox with
    | none, _ :: rest =>
      let worker := system.worker index
      ⟨some index, Function.update system.worker index
        { worker with outbox := rest, decisions := worker.decisions ++ [options.prompts && answer] }⟩
    | _, _ => system
  | .released index =>
    match (system.worker index).acks with
    | [] => system
    | _ :: rest =>
      if system.awaits = some index then
        ⟨none, Function.update system.worker index { system.worker index with acks := rest }⟩
      else system

structure Deadlocked (system : AttachSystem W) (index : W) : Prop where
  server : system.awaits = some index ∧ (system.worker index).acks = []
  worker : (∃ negotiation, (system.worker index).phase = .awaitingDecision negotiation) ∧ (system.worker index).decisions = []

def balance : Option Bool → LogEvent → Option Bool
  | some false, .started => some true
  | some true, .acknowledged => some false
  | _, _ => none

def opened (log : List LogEvent) : Option Bool := log.foldl balance (some false)

theorem opened_append (log : List LogEvent) (event : LogEvent) : opened (log ++ [event]) = balance (opened log) event := by
  rw [opened, List.foldl_append]
  rfl

structure Orderly (system : AttachSystem W) : Prop where
  live : ∀ index, ¬ Deadlocked system index
  acknowledged : ∀ index, opened (system.worker index).log ≠ none

def Nests (system : AttachSystem W) : AttachAction W → Prop
  | .move index .breakpoint =>
    (system.worker index).phase = .running ∧ (system.worker index).breakpointAckPending = true
  | .move index .exception =>
    (system.worker index).phase = .running ∧ (system.worker index).breakpointAckPending = true ∧
      options.attach = true ∧ (system.worker index).exceptionHandled = false
  | _ => False

def EveryState (good : AttachSystem W → Prop) : AttachSystem W → List (AttachAction W) → Prop
  | system, [] => good system
  | system, action :: rest => good system ∧ EveryState good (system.step options action) rest

def NeverNests : AttachSystem W → List (AttachAction W) → Prop
  | _, [] => True
  | system, action :: rest => ¬ Nests options system action ∧ NeverNests (system.step options action) rest

end System

end WakeSol.Parallel
