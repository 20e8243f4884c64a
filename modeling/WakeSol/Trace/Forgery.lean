import WakeSol.Trace.Insertion
import WakeSol.Trace.Attribution

set_option autoImplicit false

namespace WakeSol.Trace

open TextLib RadixLib RoseLib

def addLog (idx p : Nat) (text : Text) (forest : List Traced) : List Traced :=
  (distribute forest (insertLog idx p text ((forestPreorder forest).map Record.toEnrichment))).1

theorem add_log_attached (tree : List Traced) (logs : List Text) (idx p : Nat) (text : Text) :
    addLog idx p text (attachLogs tree logs) = (distribute tree (insertLog idx p text (reached tree logs).nodes)).1 := by
  rw [addLog, attach_logs_reached, distribute_enrichments tree _ (reached_size tree logs), distribute_twice]

theorem pids_no_colon (tree : List Traced) (pid : Text) (member : pid ∈ collectPids tree) : ':' ∉ pid := by
  obtain ⟨record, -, rfl⟩ := List.mem_map.mp member
  exact (address_pid_text record.programId).noColon

theorem log_not_paired (tree : List Traced) (i : Nat) : (collectPids tree)[i]? ≠ some ['l', 'o', 'g', ':'] := by
  intro paired
  exact pids_no_colon tree _ (List.mem_of_getElem? paired) (by simp)

-- A line read as an invoke of the program "log:" stops the pairing. If the
-- frame open at that point is closed later, its status is lost; if not, every
-- later message is counted in both runs.
theorem stopped_total (tree : List Traced) (state : Attach) (sound : state.Sound (collectPids tree)) (cursor : Nat)
    (rest : List LogLine)
    (status : ∀ idx, statusAt (runLines (collectPids tree) { state with next := cursor, aligned := false } rest).nodes idx =
      statusAt (runLines (collectPids tree) state rest).nodes idx) :
    totalLogs (runLines (collectPids tree) { state with next := cursor, aligned := false } rest).nodes ≤
      totalLogs (runLines (collectPids tree) state rest).nodes := by
  have inStack := sound_stack_bound _ state sound
  have pending := sound.pending
  rw [run_frozen _ _ _ rfl] at status ⊢
  have grows := run_total_grows (collectPids tree) rest state sound
  have keepOpen := open_run (collectPids tree) rest state sound
  obtain ⟨nodes, stack, next, aligned⟩ := state
  cases stack with
  | nil => exact grows
  | cons idx below =>
    have bound : idx < nodes.length := inStack idx (by simp)
    rcases keepOpen idx (by simp) with settled | counted
    · have same := status idx
      simp only [Attach.updateTop] at same
      rw [statusAt, node_modify nodes idx idx _ bound, if_pos rfl] at same
      rw [← same] at settled
      exact absurd (pending idx (by simp)) settled
    · simp only [Attach.updateTop]
      rw [counted, total_modify nodes idx (rest.filterMap messageOf).length _ bound (by simp [pushLogs, logCount])]

-- A marker word never adds the text: the line is dropped, takes a frame away or
-- stops the pairing, and then a message or a status is missing.
theorem marker_word_changes (tree : List Traced) (before after : List Text) (idx : Nat) (text : Text)
    (nonempty : text ≠ []) (trimmed : Trimmed text) (inTree : idx < (forestPreorder tree).length) (verb : Verb)
    (marker : verbOf (firstWord text) = some verb) :
    (reached tree (before ++ logLine text :: after)).nodes ≠
      insertLog idx (logCount (reached tree before).nodes idx) text (reached tree (before ++ after)).nodes := by
  have sound := reached_sound tree before
  have bound : idx < (reached tree (before ++ after)).nodes.length := by rwa [reached_size]
  have line : readLine (logLine text) = readMarker (logLine text) ['l', 'o', 'g', ':'] verb := by
    rw [read_log text nonempty trimmed, marker]
  have quiet : messageOf (readMarker (logLine text) ['l', 'o', 'g', ':'] verb) = none := by cases verb <;> rfl
  rw [reached_append] at bound ⊢
  rw [reached_append, List.map_cons, line]
  generalize reached tree before = state at *
  generalize after.map readLine = rest at *
  intro same
  have room := run_count (collectPids tree) rest state sound idx
  have more := insert_log_total _ idx _ text bound room
  have status := fun other => insert_log_status (runLines (collectPids tree) state rest).nodes idx
    (logCount state.nodes idx) other text bound
  rw [← same] at more status
  have notFewer : ¬ totalLogs (runLines (collectPids tree)
      (stepLine (collectPids tree) state (readMarker (logLine text) ['l', 'o', 'g', ':'] verb)) rest).nodes ≤
        totalLogs (runLines (collectPids tree) state rest).nodes := by
    intro fewer
    exact Nat.not_succ_le_self _ (Nat.le_trans (Nat.le_of_eq more.symm) fewer)
  by_cases stops : state.aligned = true ∧ verb = .invoke
  · obtain ⟨aligned, rfl⟩ := stops
    have stopped : stepLine (collectPids tree) state (readMarker (logLine text) ['l', 'o', 'g', ':'] .invoke) =
        { state with next := skipPrecompiles (collectPids tree) state.next, aligned := false } := by
      rw [readMarker, stepLine, if_pos aligned, openFrame]
      exact if_neg (log_not_paired tree _)
    rw [stopped] at notFewer
    have sameStatus := status
    rw [runLines, List.foldl_cons, stopped] at sameStatus
    exact notFewer (stopped_total tree state sound _ rest sameStatus)
  · have behind := quiet_behind (collectPids tree) state _ sound quiet (by
      intro pid isInvoke
      cases verb with
      | invoke => simpa using stops
      | consumed => simp [readMarker] at isInvoke
      | success => simp [readMarker] at isInvoke
      | failed => simp [readMarker] at isInvoke)
    exact notFewer (run_behind (collectPids tree) rest _ state (step_sound _ state _ sound) sound behind).fewerLogs

theorem push_top_with_log (state : Attach) (top : Nat) (below : List Nat) (isOpen : state.stack = top :: below)
    (text : Text) : state.updateTop (pushLogs [text]) = state.withLog top (logCount state.nodes top) text := by
  have here : pushLogs [text] (nodeAt state.nodes top) =
      insertText (logCount state.nodes top) text (nodeAt state.nodes top) := by
    simp [pushLogs, insertText, logCount, List.insertIdx_length_self]
  rw [Attach.updateTop, isOpen]
  simp only [Attach.withLog, insertLog]
  rw [modify_agree state.nodes top _ _ here, isOpen]

theorem reached_insert (tree : List Traced) (before after : List Text) (text : Text) (top : Nat) (below : List Nat)
    (nonempty : text ≠ []) (trimmed : Trimmed text) (plain : verbOf (firstWord text) = none)
    (isOpen : (reached tree before).stack = top :: below) :
    (reached tree (before ++ logLine text :: after)).nodes =
      insertLog top (logCount (reached tree before).nodes top) text (reached tree (before ++ after)).nodes := by
  have sound := reached_sound tree before
  have pushed : stepLine (collectPids tree) (reached tree before) (.message text) =
      (reached tree before).withLog top (logCount (reached tree before).nodes top) text :=
    push_top_with_log (reached tree before) top below isOpen text
  have later := run_with_log (collectPids tree) (after.map readLine) (reached tree before) sound top
    (logCount (reached tree before).nodes top) text (Nat.le_refl _)
  rw [reached_append, reached_append, List.map_cons, read_log text nonempty trimmed, plain, runLines, List.foldl_cons, pushed]
  exact congrArg Attach.nodes later

theorem reached_dropped (tree : List Traced) (before after : List Text) (text : Text)
    (nonempty : text ≠ []) (trimmed : Trimmed text) (plain : verbOf (firstWord text) = none)
    (noneOpen : (reached tree before).stack = []) :
    reached tree (before ++ logLine text :: after) = reached tree (before ++ after) := by
  rw [reached_append, reached_append, List.map_cons, read_log text nonempty trimmed, plain, runLines, List.foldl_cons,
    stepLine, Attach.updateTop, noneOpen]
  rfl

theorem inert_iff (tree : List Traced) (before after : List Text) (idx : Nat) (text : Text)
    (nonempty : text ≠ []) (trimmed : Trimmed text) (inTree : idx < (forestPreorder tree).length) :
    attachLogs tree (before ++ logLine text :: after) =
        addLog idx (logCount (reached tree before).nodes idx) text (attachLogs tree (before ++ after)) ↔
      verbOf (firstWord text) = none ∧ (reached tree before).stack.head? = some idx := by
  have sizes := reached_size tree (before ++ after)
  have bound : idx < (reached tree (before ++ after)).nodes.length := by rwa [sizes]
  have room : logCount (reached tree before).nodes idx ≤ logCount (reached tree (before ++ after)).nodes idx := by
    rw [reached_append]
    exact run_count _ _ _ (reached_sound tree before) idx
  rw [attach_logs_reached, add_log_attached]
  constructor
  · intro same
    have nodes := distribute_injective tree _ _ (reached_size tree _) (by simpa [insertLog] using sizes) same
    have count := insert_log_count _ idx _ idx text bound room
    cases first : verbOf (firstWord text) with
    | some verb => exact absurd nodes (marker_word_changes tree before after idx text nonempty trimmed inTree verb first)
    | none =>
      refine ⟨rfl, ?_⟩
      rw [← nodes] at count
      cases isOpen : (reached tree before).stack with
      | nil =>
        rw [reached_dropped tree before after text nonempty trimmed first isOpen, if_pos rfl] at count
        omega
      | cons top below =>
        by_cases here : idx = top
        · rw [here]
          rfl
        · have topBound : top < (reached tree (before ++ after)).nodes.length := by
            have inside := sound_stack_bound _ _ (reached_sound tree before) top (by simp [isOpen])
            rwa [reached_size, ← sizes] at inside
          have topRoom : logCount (reached tree before).nodes top ≤ logCount (reached tree (before ++ after)).nodes top := by
            rw [reached_append]
            exact run_count _ _ _ (reached_sound tree before) top
          rw [reached_insert tree before after text top below nonempty trimmed first isOpen,
            insert_log_count _ top _ idx text topBound topRoom, if_neg here, if_pos rfl] at count
          omega
  · rintro ⟨plain, head⟩
    obtain ⟨below, isOpen⟩ := List.head?_eq_some_iff.mp head
    rw [reached_insert tree before after text idx below nonempty trimmed plain isOpen]

end WakeSol.Trace
