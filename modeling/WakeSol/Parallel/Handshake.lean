import WakeSol.Parallel.Attach

/- Where a worker stands in its negotiation, and whether the server waits for it.
   Every move keeps to these stages, except the start of a negotiation by a worker
   that owes an acknowledgement, which blocks both sides. -/
set_option autoImplicit false

namespace WakeSol.Parallel

def Phase.calm : Phase → Bool
  | .running => true
  | .prompt => true
  | .finished => true
  | .exited => true
  | .awaitingDecision _ => false
  | .postMortem => false

def Phase.traced : Phase → Bool
  | .running => true
  | .prompt => true
  | .finished => true
  | _ => false

inductive Sent : List Negotiation → Bool → Prop where
  | nothing : Sent [] false
  | ack (negotiation : Negotiation) : Sent [negotiation] true

inductive Stage : AttachWorker → Bool → Prop where
  | calm (phase : Phase) (handled set : Bool) (acks : List Negotiation) (log : List LogEvent) (serving : Bool)
      (sent : Sent acks serving) (isCalm : phase.calm = true) (closed : opened log = some false) :
      Stage ⟨phase, handled, false, set, [], [], acks, log⟩ serving
  | queued (negotiation : Negotiation) (handled set : Bool) (acks : List Negotiation) (log : List LogEvent) (serving : Bool)
      (sent : Sent acks serving) (unsettled : opened log = some true) :
      Stage ⟨.awaitingDecision negotiation, handled, false, set, [negotiation], [], acks, log⟩ serving
  | decided (negotiation : Negotiation) (handled set answer : Bool) (log : List LogEvent) (unsettled : opened log = some true) :
      Stage ⟨.awaitingDecision negotiation, handled, false, set, [], [answer], [], log⟩ true
  | debugging (phase : Phase) (handled set : Bool) (log : List LogEvent) (traced : phase.traced = true)
      (unsettled : opened log = some true) : Stage ⟨phase, handled, true, set, [], [], [], log⟩ true
  | inspecting (handled set : Bool) (log : List LogEvent) (unsettled : opened log = some true) :
      Stage ⟨.postMortem, handled, false, set, [], [], [], log⟩ true

theorem started_opens (log : List LogEvent) (closed : opened log = some false) : opened (log ++ [.started]) = some true := by
  rw [opened_append, closed]
  rfl

theorem acknowledged_closes (log : List LogEvent) (unsettled : opened log = some true) :
    opened (log ++ [.acknowledged]) = some false := by
  rw [opened_append, unsettled]
  rfl

section Moves

variable (attach : Bool)

theorem calm_moves (phase : Phase) (handled set : Bool) (acks : List Negotiation) (log : List LogEvent) (serving : Bool)
    (sent : Sent acks serving) (isCalm : phase.calm = true) (closed : opened log = some false) (move : Move) :
    Stage ((⟨phase, handled, false, set, [], [], acks, log⟩ : AttachWorker).move attach move) serving := by
  have still : ∀ handled set phase, phase.calm = true → Stage ⟨phase, handled, false, set, [], [], acks, log⟩ serving :=
    fun handled set phase isCalm => .calm phase handled set acks log serving sent isCalm closed
  have asks : ∀ handled negotiation,
      Stage ⟨.awaitingDecision negotiation, handled, false, set, [negotiation], [], acks, log ++ [.started]⟩ serving :=
    fun handled negotiation => .queued negotiation handled set acks _ serving sent (started_opens log closed)
  cases phase with
  | awaitingDecision negotiation => cases isCalm
  | postMortem => cases isCalm
  | exited => cases move <;> exact still handled set .exited rfl
  | finished =>
    cases move with
    | exit => exact still handled set .exited rfl
    | _ => exact still handled set .finished rfl
  | prompt =>
    cases move with
    | command command =>
      cases command with
      | doContinue => exact still handled set .running rfl
      | doQuit => exact still handled false .running rfl
      | doEof => exact still handled false .running rfl
      | stepping => exact still handled set .running rfl
    | _ => exact still handled set .prompt rfl
  | running =>
    cases move with
    | breakpoint => exact asks handled .breakpoint
    | exception =>
      simp only [AttachWorker.move]
      split
      · exact asks true .exception
      · exact still handled set .running rfl
    | runtestSetup => exact still false set .running rfl
    | stop =>
      cases set with
      | true => exact still handled true .prompt rfl
      | false => exact still handled false .running rfl
    | sessionFinish => exact still handled set .finished rfl
    | _ => exact still handled set .running rfl

theorem queued_moves (negotiation : Negotiation) (handled set : Bool) (acks : List Negotiation) (log : List LogEvent)
    (serving : Bool) (sent : Sent acks serving) (unsettled : opened log = some true) (move : Move) :
    Stage ((⟨.awaitingDecision negotiation, handled, false, set, [negotiation], [], acks, log⟩ : AttachWorker).move attach move)
      serving := by
  have still := Stage.queued negotiation handled set acks log serving sent unsettled
  cases move with
  | decided => cases negotiation <;> exact still
  | _ => exact still

theorem decided_moves (negotiation : Negotiation) (handled set answer : Bool) (log : List LogEvent)
    (unsettled : opened log = some true) (move : Move) :
    Stage ((⟨.awaitingDecision negotiation, handled, false, set, [], [answer], [], log⟩ : AttachWorker).move attach move)
      true := by
  cases move with
  | decided =>
    have declined : Stage ⟨.running, handled, false, set, [], [], [negotiation], log ++ [.acknowledged]⟩ true :=
      .calm .running handled set [negotiation] _ true (.ack negotiation) rfl (acknowledged_closes log unsettled)
    cases negotiation with
    | exception =>
      cases answer with
      | true => exact .inspecting handled set log unsettled
      | false => exact declined
    | breakpoint =>
      cases answer with
      | true => exact .debugging .prompt handled true log rfl unsettled
      | false => exact declined
  | _ => exact .decided negotiation handled set answer log unsettled

theorem inspecting_moves (handled set : Bool) (log : List LogEvent) (unsettled : opened log = some true) (move : Move) :
    Stage ((⟨.postMortem, handled, false, set, [], [], [], log⟩ : AttachWorker).move attach move) true := by
  cases move with
  | leavePostMortem =>
    exact .calm .running handled set [.exception] _ true (.ack .exception) rfl (acknowledged_closes log unsettled)
  | _ => exact .inspecting handled set log unsettled

def AttachWorker.Starts (worker : AttachWorker) : Move → Prop
  | .breakpoint => worker.phase = .running
  | .exception => worker.phase = .running ∧ attach = true ∧ worker.exceptionHandled = false
  | _ => False

theorem debugging_moves (phase : Phase) (handled set : Bool) (log : List LogEvent) (traced : phase.traced = true)
    (unsettled : opened log = some true) (move : Move)
    (quiet : ¬ AttachWorker.Starts attach ⟨phase, handled, true, set, [], [], [], log⟩ move) :
    Stage ((⟨phase, handled, true, set, [], [], [], log⟩ : AttachWorker).move attach move) true := by
  have still : ∀ handled set phase, phase.traced = true → Stage ⟨phase, handled, true, set, [], [], [], log⟩ true :=
    fun handled set phase traced => .debugging phase handled set log traced unsettled
  have acknowledges : ∀ set phase, phase.calm = true →
      Stage ⟨phase, handled, false, set, [], [], [.breakpoint], log ++ [.acknowledged]⟩ true :=
    fun set phase isCalm =>
      .calm phase handled set [.breakpoint] _ true (.ack .breakpoint) isCalm (acknowledged_closes log unsettled)
  cases phase with
  | awaitingDecision negotiation => cases traced
  | postMortem => cases traced
  | exited => cases traced
  | finished =>
    cases move with
    | exit => exact acknowledges set .exited rfl
    | _ => exact still handled set .finished rfl
  | prompt =>
    cases move with
    | command command =>
      cases command with
      | doContinue => exact acknowledges set .running rfl
      | doQuit => exact acknowledges false .running rfl
      | doEof => exact acknowledges false .running rfl
      | stepping => exact still handled set .running rfl
    | _ => exact still handled set .prompt rfl
  | running =>
    cases move with
    | breakpoint => exact absurd rfl quiet
    | exception =>
      simp only [AttachWorker.move]
      split
      · rename_i starts
        exact absurd ⟨rfl, starts.1, starts.2⟩ quiet
      · exact still handled set .running rfl
    | runtestSetup => exact still false set .running rfl
    | stop =>
      cases set with
      | true => exact still handled true .prompt rfl
      | false => exact still handled false .running rfl
    | sessionFinish => exact still handled set .finished rfl
    | _ => exact still handled set .running rfl

variable (worker : AttachWorker)

theorem move_stage (serving : Bool) (stage : Stage worker serving) (move : Move)
    (quiet : worker.breakpointAckPending = true → ¬ worker.Starts attach move) : Stage (worker.move attach move) serving := by
  cases stage with
  | calm phase handled set acks log serving sent isCalm closed =>
    exact calm_moves attach phase handled set acks log serving sent isCalm closed move
  | queued negotiation handled set acks log serving sent unsettled =>
    exact queued_moves attach negotiation handled set acks log serving sent unsettled move
  | decided negotiation handled set answer log unsettled =>
    exact decided_moves attach negotiation handled set answer log unsettled move
  | debugging phase handled set log traced unsettled =>
    exact debugging_moves attach phase handled set log traced unsettled move (quiet rfl)
  | inspecting handled set log unsettled => exact inspecting_moves attach handled set log unsettled move

end Moves

variable (worker : AttachWorker)

theorem negotiate_stage (stage : Stage worker false) (negotiation : Negotiation)
    (rest : List Negotiation) (waiting : worker.outbox = negotiation :: rest) (answer : Bool) :
    Stage { worker with outbox := rest, decisions := worker.decisions ++ [answer] } true := by
  cases stage with
  | calm phase handled set acks log serving sent isCalm closed => cases waiting
  | queued queued handled set acks log serving sent unsettled =>
    cases sent with
    | nothing =>
      cases waiting
      exact .decided negotiation handled set answer log unsettled

theorem released_stage (stage : Stage worker true) (negotiation : Negotiation)
    (rest : List Negotiation) (waiting : worker.acks = negotiation :: rest) : Stage { worker with acks := rest } false := by
  cases stage with
  | calm phase handled set acks log serving sent isCalm closed =>
    cases sent with
    | ack earlier =>
      cases waiting
      exact .calm phase handled set [] log false .nothing isCalm closed
  | queued queued handled set acks log serving sent unsettled =>
    cases sent with
    | ack earlier =>
      cases waiting
      exact .queued queued handled set [] log false .nothing unsettled
  | decided queued handled set answer log unsettled => cases waiting
  | debugging phase handled set log traced unsettled => cases waiting
  | inspecting handled set log unsettled => cases waiting

theorem stage_log (serving : Bool) (stage : Stage worker serving) : opened worker.log ≠ none := by
  cases stage with
  | calm phase handled set acks log serving sent isCalm closed => simp [closed]
  | queued negotiation handled set acks log serving sent unsettled => simp [unsettled]
  | decided negotiation handled set answer log unsettled => simp [unsettled]
  | debugging phase handled set log traced unsettled => simp [unsettled]
  | inspecting handled set log unsettled => simp [unsettled]

theorem stage_live (stage : Stage worker true) (unsent : worker.acks = []) (negotiation : Negotiation)
    (waits : worker.phase = .awaitingDecision negotiation) : worker.decisions ≠ [] := by
  cases stage with
  | calm phase handled set acks log serving sent isCalm closed =>
    cases sent with
    | ack earlier => cases unsent
  | queued queued handled set acks log serving sent unsettled =>
    cases sent with
    | ack earlier => cases unsent
  | decided queued handled set answer log unsettled => exact List.cons_ne_nil answer []
  | debugging phase handled set log traced unsettled =>
    cases phase with
    | awaitingDecision other => cases traced
    | _ => cases waits
  | inspecting handled set log unsettled => cases waits

theorem stage_owing (serving : Bool) (stage : Stage worker serving)
    (owes : worker.breakpointAckPending = true) : serving = true ∧ worker.acks = [] ∧ worker.decisions = [] := by
  cases stage with
  | debugging phase handled set log traced unsettled => exact ⟨rfl, rfl, rfl⟩
  | _ => cases owes

section Runs

variable {W : Type} [DecidableEq W] (options : AttachOptions)

def Staged (system : AttachSystem W) : Prop :=
  ∀ index, Stage (system.worker index) (decide (system.awaits = some index))

theorem start_staged : Staged (AttachSystem.start W) := by
  intro index
  exact .calm .running false false [] [] false .nothing rfl rfl

variable (system : AttachSystem W)

theorem staged_orderly (staged : Staged system) : Orderly system := by
  constructor
  · rintro index ⟨⟨waits, unsent⟩, ⟨negotiation, isWaiting⟩, undecided⟩
    have stage := staged index
    rw [decide_eq_true waits] at stage
    exact stage_live _ stage unsent negotiation isWaiting undecided
  · intro index
    exact stage_log _ _ (staged index)

theorem move_staged (staged : Staged system) (index : W) (move : Move)
    (quiet : ¬ Nests options system (.move index move)) : Staged (system.step options (.move index move)) := by
  intro other
  by_cases here : other = index
  · subst here
    simp only [AttachSystem.step, Function.update_self]
    apply move_stage options.attach _ _ (staged other)
    intro owes starts
    cases move with
    | breakpoint => exact quiet ⟨starts, owes⟩
    | exception => exact quiet ⟨starts.1, owes, starts.2⟩
    | _ => exact starts
  · simp only [AttachSystem.step, Function.update_of_ne here]
    exact staged other

theorem negotiate_staged (staged : Staged system) (index : W) (answer : Bool) :
    Staged (system.step options (.negotiate index answer)) := by
  cases free : system.awaits with
  | some waited => simpa only [AttachSystem.step, free] using staged
  | none =>
    cases waiting : (system.worker index).outbox with
    | nil => simpa only [AttachSystem.step, free, waiting] using staged
    | cons negotiation rest =>
      have before : ∀ other, Stage (system.worker other) false := by
        intro other
        have stage := staged other
        rwa [free] at stage
      simp only [AttachSystem.step, free, waiting]
      intro other
      by_cases here : other = index
      · subst here
        simp only [Function.update_self, decide_true]
        exact negotiate_stage _ (before other) negotiation rest waiting _
      · have elsewhere : ¬ some index = some other := fun same => here (Option.some.inj same).symm
        simp only [Function.update_of_ne here, decide_eq_false elsewhere]
        exact before other

theorem released_staged (staged : Staged system) (index : W) : Staged (system.step options (.released index)) := by
  cases waiting : (system.worker index).acks with
  | nil => simpa only [AttachSystem.step, waiting] using staged
  | cons negotiation rest =>
    by_cases awaited : system.awaits = some index
    · simp only [AttachSystem.step, waiting, if_pos awaited]
      intro other
      have stage := staged other
      by_cases here : other = index
      · subst here
        rw [decide_eq_true awaited] at stage
        simp only [Function.update_self]
        exact released_stage _ stage negotiation rest waiting
      · have elsewhere : ¬ system.awaits = some other := by
          rw [awaited]
          exact fun same => here (Option.some.inj same).symm
        rw [decide_eq_false elsewhere] at stage
        simp only [Function.update_of_ne here]
        exact stage
    · simpa only [AttachSystem.step, waiting, if_neg awaited] using staged

theorem step_staged (staged : Staged system) (action : AttachAction W)
    (quiet : ¬ Nests options system action) : Staged (system.step options action) := by
  cases action with
  | move index move => exact move_staged options system staged index move quiet
  | negotiate index answer => exact negotiate_staged options system staged index answer
  | released index => exact released_staged options system staged index

theorem nests_deadlocks (staged : Staged system) (action : AttachAction W)
    (nests : Nests options system action) : ∃ index, Deadlocked (system.step options action) index := by
  have blocked : ∀ index negotiation (after : AttachWorker), (system.worker index).breakpointAckPending = true →
      after.acks = (system.worker index).acks → after.decisions = (system.worker index).decisions →
      after.phase = .awaitingDecision negotiation →
      Deadlocked ⟨system.awaits, Function.update system.worker index after⟩ index := by
    intro index negotiation after owes acks decisions waits
    obtain ⟨serving, unsent, undecided⟩ := stage_owing _ _ (staged index) owes
    have here : Function.update system.worker index after index = after := Function.update_self index after system.worker
    refine ⟨⟨of_decide_eq_true serving, ?_⟩, ⟨negotiation, ?_⟩, ?_⟩
    · simp only [here, acks, unsent]
    · simp only [here, waits]
    · simp only [here, decisions, undecided]
  cases action with
  | negotiate index answer => cases nests
  | released index => cases nests
  | move index move =>
    refine ⟨index, ?_⟩
    cases move with
    | breakpoint =>
      obtain ⟨running, owes⟩ := nests
      apply blocked index .breakpoint _ owes
      all_goals simp only [AttachWorker.move, running, AttachWorker.negotiate]
    | exception =>
      obtain ⟨running, owes, installed, unhandled⟩ := nests
      apply blocked index .exception _ owes
      all_goals simp [AttachWorker.move, running, installed, unhandled, AttachWorker.negotiate]
    | _ => cases nests

-- Induction on the run: as long as nothing nests, every state is staged.
theorem run_orderly_iff (staged : Staged system) (actions : List (AttachAction W)) :
    EveryState options Orderly system actions ↔ NeverNests options system actions := by
  induction actions generalizing system with
  | nil => exact iff_of_true (staged_orderly system staged) trivial
  | cons action rest ih =>
    rw [EveryState, NeverNests]
    by_cases nests : Nests options system action
    · apply iff_of_false
      · rintro ⟨_, later⟩
        obtain ⟨index, deadlocked⟩ := nests_deadlocks options system staged action nests
        have orderly : Orderly (system.step options action) := by
          cases rest with
          | nil => exact later
          | cons next others => exact later.1
        exact orderly.live index deadlocked
      · exact fun quiet => quiet.1 nests
    · rw [ih _ (step_staged options system staged action nests)]
      constructor
      · exact fun orderly => ⟨nests, orderly.2⟩
      · exact fun quiet => ⟨staged_orderly system staged, quiet.2⟩

end Runs

theorem attach_orderly_iff {W : Type} [DecidableEq W] (options : AttachOptions) (actions : List (AttachAction W)) :
    EveryState options Orderly (AttachSystem.start W) actions ↔ NeverNests options (AttachSystem.start W) actions :=
  run_orderly_iff options (AttachSystem.start W) start_staged actions

-- The debugger is accepted at a breakpoint, and its next command steps over another
-- one.
def stepOverBreakpoint : List (AttachAction Unit) :=
  [.move () .breakpoint, .negotiate () true, .move () .decided, .move () (.command .stepping), .move () .breakpoint]

theorem stepping_deadlocks :
    let system := stepOverBreakpoint.foldl (AttachSystem.step ⟨false, true⟩) (AttachSystem.start Unit)
    Deadlocked system () ∧ opened (system.worker ()).log = none := by
  exact ⟨⟨⟨rfl, rfl⟩, ⟨.breakpoint, rfl⟩, rfl⟩, rfl⟩

end WakeSol.Parallel
