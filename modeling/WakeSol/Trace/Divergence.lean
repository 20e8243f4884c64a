import WakeSol.Trace.Loop
import WakeSol.Trace.Lines

set_option autoImplicit false

namespace WakeSol.Trace

open TextLib RadixLib RoseLib

def expectedPid (pids : List Text) (state : Attach) : Option Text :=
  (pids.drop state.next).find? fun pid => !isPrecompilePid pid

def openPid (pids : List Text) (state : Attach) : Option Text := state.stack.head?.bind fun idx => pids[idx]?

def Diverges (pids : List Text) (state : Attach) : LogLine → Prop
  | .invoke pid => expectedPid pids state ≠ some pid
  | .consumed pid _ => ∃ opened, openPid pids state = some opened ∧ opened ≠ pid
  | .success pid => ∃ opened, openPid pids state = some opened ∧ opened ≠ pid
  | .failed pid _ => ∃ opened, openPid pids state = some opened ∧ opened ≠ pid
  | .blank => False
  | .ret _ => False
  | .data _ => False
  | .message _ => False

def LogLine.isInvoke : LogLine → Bool
  | .invoke _ => true
  | _ => false

def LogLine.isConsumed : LogLine → Bool
  | .consumed _ _ => true
  | _ => false

def messages (logs : List Text) : List Text := logs.filterMap fun raw => messageOf (readLine raw)

-- The stop takes effect only through the alignment flag, which a message does
-- not ask for and a close never clears.
def StopHolds (state : Attach) (line : LogLine) (rest : List Text) : Prop :=
  (line.isInvoke = true ∨ state.aligned = false) ∧ (state.stack = [] ∨ messages rest = [])

theorem expected_pid_skip (pids : List Text) (state : Attach) :
    pids[skipPrecompiles pids state.next]? = expectedPid pids state := by
  have general : ∀ rest : List Text, rest[(rest.takeWhile isPrecompilePid).length]? =
      rest.find? fun pid => !isPrecompilePid pid := by
    intro rest
    induction rest with
    | nil => rfl
    | cons pid others ih =>
      by_cases precompile : isPrecompilePid pid = true
      · simp [precompile, ih]
      · simp [precompile]
  rw [expectedPid, ← general, skipPrecompiles, List.getElem?_drop]

theorem push_logs_unchanged (pids : List Text) (state : Attach) (sound : state.Sound pids) (texts : List Text) :
    (state.updateTop (pushLogs texts)).nodes = state.nodes ↔ state.stack = [] ∨ texts = [] := by
  have inStack := sound_stack_bound pids state sound
  obtain ⟨nodes, stack, next, aligned⟩ := state
  cases stack with
  | nil => simp [Attach.updateTop]
  | cons idx rest =>
    have bound : idx < nodes.length := inStack idx (by simp)
    simp only [Attach.updateTop, List.cons_ne_nil, false_or]
    constructor
    · intro same
      have here := congrArg (fun found => (nodeAt found idx).logs) same
      simp only [node_modify nodes idx idx _ bound, if_true, pushLogs] at here
      exact List.append_right_eq_self.mp here
    · intro empty
      rw [empty, push_logs_nil, List.modify_id]

theorem frozen_unchanged (pids : List Text) (state : Attach) (sound : state.Sound pids) (frozen : state.aligned = false)
    (rest : List Text) : (runLines pids state (rest.map readLine)).nodes = state.nodes ↔
      state.stack = [] ∨ messages rest = [] := by
  rw [run_frozen pids _ state frozen, List.filterMap_map, push_logs_unchanged pids state sound]
  rfl

theorem diverged_not_message (pids : List Text) (state : Attach) (line : LogLine) (diverges : Diverges pids state line) :
    messageOf line = none := by
  cases line with
  | message text => exact absurd diverges (by simp [Diverges])
  | blank => rfl
  | ret rest => rfl
  | data rest => rfl
  | invoke pid => rfl
  | consumed pid units => rfl
  | success pid => rfl
  | failed pid message => rfl

theorem diverged_invoke (pids : List Text) (state : Attach) (pid : Text) (aligned : state.aligned = true)
    (diverges : Diverges pids state (.invoke pid)) :
    stepLine pids state (.invoke pid) = { state with next := skipPrecompiles pids state.next, aligned := false } := by
  have unpaired : pids[skipPrecompiles pids state.next]? ≠ some pid := by
    rw [expected_pid_skip]
    exact diverges
  rw [stepLine, if_pos aligned, openFrame]
  exact if_neg unpaired

theorem closed_changed (pids : List Text) (state : Attach) (f : Enrichment → Enrichment) (sound : state.Sound pids)
    (settles : ∀ e, (f e).status ≠ .unknown) (opened : Text) (isOpen : openPid pids state = some opened)
    (rest : List LogLine) : (runLines pids (state.closeTop f) rest).nodes ≠ state.nodes := by
  cases top : state.stack with
  | nil => simp [openPid, top] at isOpen
  | cons idx below =>
    have settled : statusAt (state.closeTop f).nodes idx ≠ .unknown := by
      rw [close_status pids state f idx below sound top, if_pos rfl]
      exact settles _
    have final := settled_run pids rest _ (close_sound pids state f sound) idx settled
    intro same
    rw [same] at final
    exact final (sound.pending idx (by simp [top]))

theorem attribution_stops (tree : List Traced) (logs : List Text) (k : Nat) (raw : Text) (line : logs[k]? = some raw)
    (diverges : Diverges (collectPids tree) (reached tree (logs.take k)) (readLine raw)) :
    (StopHolds (reached tree (logs.take k)) (readLine raw) (logs.drop (k + 1)) →
      attachLogs tree logs = attachLogs tree (logs.take k)) ∧
    (¬ ((reached tree (logs.take k)).aligned = true ∧ (readLine raw).isConsumed = true) →
      attachLogs tree logs = attachLogs tree (logs.take k) →
      StopHolds (reached tree (logs.take k)) (readLine raw) (logs.drop (k + 1))) := by
  have split : logs = logs.take k ++ raw :: logs.drop (k + 1) := by
    obtain ⟨bound, here⟩ := List.getElem?_eq_some_iff.mp line
    rw [← here, List.getElem_cons_drop, List.take_append_drop]
  have sound := reached_sound tree (logs.take k)
  have compare : attachLogs tree logs = attachLogs tree (logs.take k) ↔
      (runLines (collectPids tree) (stepLine (collectPids tree) (reached tree (logs.take k)) (readLine raw))
        ((logs.drop (k + 1)).map readLine)).nodes = (reached tree (logs.take k)).nodes := by
    rw [attach_logs_eq_iff]
    nth_rewrite 1 [split]
    rw [reached_append]
    rfl
  rw [compare]
  generalize reached tree (logs.take k) = state at diverges sound ⊢
  generalize logs.drop (k + 1) = rest
  by_cases aligned : state.aligned = true
  · cases parsed : readLine raw with
    | blank => exact absurd (parsed ▸ diverges) (by simp [Diverges])
    | ret payload => exact absurd (parsed ▸ diverges) (by simp [Diverges])
    | data payload => exact absurd (parsed ▸ diverges) (by simp [Diverges])
    | message text => exact absurd (parsed ▸ diverges) (by simp [Diverges])
    | consumed pid units =>
      refine ⟨fun stop => ?_, fun other => absurd ⟨aligned, rfl⟩ other⟩
      simp [StopHolds, LogLine.isInvoke, aligned] at stop
    | success pid =>
      rw [parsed] at diverges
      obtain ⟨opened, isOpen, -⟩ := diverges
      refine ⟨fun stop => ?_, fun _ same => ?_⟩
      · simp [StopHolds, LogLine.isInvoke, aligned] at stop
      · rw [stepLine, if_pos aligned] at same
        exact absurd same (closed_changed _ state _ sound (by simp) opened isOpen _)
    | failed pid message =>
      rw [parsed] at diverges
      obtain ⟨opened, isOpen, -⟩ := diverges
      refine ⟨fun stop => ?_, fun _ same => ?_⟩
      · simp [StopHolds, LogLine.isInvoke, aligned] at stop
      · rw [stepLine, if_pos aligned] at same
        exact absurd same (closed_changed _ state _ sound (by simp) opened isOpen _)
    | invoke pid =>
      rw [parsed] at diverges
      rw [diverged_invoke _ state pid aligned diverges]
      have soundStep := step_sound (collectPids tree) state (.invoke pid) sound
      rw [diverged_invoke _ state pid aligned diverges] at soundStep
      have frozen := frozen_unchanged _ _ soundStep rfl rest
      refine ⟨fun stop => frozen.mpr stop.2, fun _ same => ⟨Or.inl rfl, frozen.mp same⟩⟩
  · have lost : state.aligned = false := by simpa using aligned
    have skipped : stepLine (collectPids tree) state (readLine raw) = state := by
      rw [step_frozen _ state _ lost, diverged_not_message _ state _ diverges]
      rfl
    have frozen := frozen_unchanged _ state sound lost rest
    rw [skipped]
    refine ⟨fun stop => frozen.mpr stop.2, fun _ same => ⟨Or.inr lost, frozen.mp same⟩⟩

def singleCall : List Traced := [.node ⟨⟨.fill 1, [], [], 1⟩, {}⟩ []]

theorem single_call_unpaired :
    expectedPid (collectPids singleCall) (reached singleCall [invokeLine (Address.fill 1).text 1]) ≠
      some (Address.fill 2).text := by
  decide +kernel

theorem attribution_stops_foreign_invoke :
    attachLogs singleCall [invokeLine (Address.fill 1).text 1, invokeLine (Address.fill 2).text 2, successLine (Address.fill 2).text] =
      attachLogs singleCall [invokeLine (Address.fill 1).text 1] := by
  refine (attribution_stops singleCall
    [invokeLine (Address.fill 1).text 1, invokeLine (Address.fill 2).text 2, successLine (Address.fill 2).text] 1
    (invokeLine (Address.fill 2).text 2) rfl ?_).1 ?_
  · rw [read_invoke _ _ (address_pid_text _)]
    exact single_call_unpaired
  · rw [read_invoke _ _ (address_pid_text _)]
    refine ⟨Or.inl rfl, Or.inr ?_⟩
    decide +kernel

theorem attribution_continues :
    (Diverges (collectPids singleCall) (reached singleCall [invokeLine (Address.fill 1).text 1])
        (readLine (invokeLine (Address.fill 2).text 2)) ∧
      attachLogs singleCall [invokeLine (Address.fill 1).text 1, invokeLine (Address.fill 2).text 2, logLine ['h', 'i']] ≠
        attachLogs singleCall [invokeLine (Address.fill 1).text 1]) ∧
    (Diverges (collectPids singleCall) (reached singleCall [invokeLine (Address.fill 1).text 1])
        (readLine (successLine (Address.fill 2).text)) ∧
      attachLogs singleCall [invokeLine (Address.fill 1).text 1, successLine (Address.fill 2).text] ≠
        attachLogs singleCall [invokeLine (Address.fill 1).text 1]) := by
  refine ⟨⟨?_, ?_⟩, ⟨?_, ?_⟩⟩
  · rw [read_invoke _ _ (address_pid_text _)]
    exact single_call_unpaired
  · rw [Ne, attach_logs_eq_iff]
    decide +kernel
  · rw [read_success _ (address_pid_text _)]
    exact ⟨(Address.fill 1).text, by decide +kernel, by decide +kernel⟩
  · rw [Ne, attach_logs_eq_iff]
    decide +kernel

end WakeSol.Trace
