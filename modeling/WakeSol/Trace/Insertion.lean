import WakeSol.Trace.Loop
import WakeSol.Trace.Lines

set_option autoImplicit false

namespace WakeSol.Trace

open TextLib RadixLib RoseLib

def insertText (p : Nat) (text : Text) (e : Enrichment) : Enrichment := { e with logs := e.logs.insertIdx p text }

def insertLog (idx p : Nat) (text : Text) (nodes : List Enrichment) : List Enrichment :=
  nodes.modify idx (insertText p text)

def Attach.withLog (state : Attach) (idx p : Nat) (text : Text) : Attach :=
  { state with nodes := insertLog idx p text state.nodes }

def totalLogs (nodes : List Enrichment) : Nat := (nodes.map fun e => e.logs.length).sum

def logCount (nodes : List Enrichment) (idx : Nat) : Nat := (nodeAt nodes idx).logs.length

theorem total_modify (nodes : List Enrichment) (idx more : Nat) (f : Enrichment → Enrichment) (bound : idx < nodes.length)
    (grows : (f (nodeAt nodes idx)).logs.length = logCount nodes idx + more) :
    totalLogs (nodes.modify idx f) = totalLogs nodes + more := by
  induction nodes generalizing idx with
  | nil => simp at bound
  | cons head tail ih =>
    cases idx with
    | zero =>
      have grown : (f head).logs.length = head.logs.length + more := grows
      simp only [List.modify_zero_cons, totalLogs, List.map_cons, List.sum_cons, grown]
      omega
    | succ n =>
      have rest := ih n (by simpa using bound) grows
      simp only [totalLogs] at rest
      simp only [List.modify_succ_cons, totalLogs, List.map_cons, List.sum_cons, rest]
      omega

theorem insert_text_length (p : Nat) (text : Text) (e : Enrichment) (room : p ≤ e.logs.length) :
    (insertText p text e).logs.length = e.logs.length + 1 := by
  rw [insertText, List.length_insertIdx, if_pos room]

theorem insert_log_count (nodes : List Enrichment) (idx p other : Nat) (text : Text) (bound : idx < nodes.length)
    (room : p ≤ logCount nodes idx) :
    logCount (insertLog idx p text nodes) other = logCount nodes other + if other = idx then 1 else 0 := by
  rw [logCount, insertLog, node_modify nodes idx other _ bound]
  by_cases here : other = idx
  · subst here
    rw [if_pos rfl, if_pos rfl, insert_text_length p text _ room]
    rfl
  · rw [if_neg here, if_neg here]
    rfl

theorem insert_log_total (nodes : List Enrichment) (idx p : Nat) (text : Text) (bound : idx < nodes.length)
    (room : p ≤ logCount nodes idx) : totalLogs (insertLog idx p text nodes) = totalLogs nodes + 1 := by
  exact total_modify nodes idx 1 _ bound (insert_text_length p text _ room)

theorem insert_log_status (nodes : List Enrichment) (idx p other : Nat) (text : Text) (bound : idx < nodes.length) :
    statusAt (insertLog idx p text nodes) other = statusAt nodes other := by
  rw [statusAt, insertLog, node_modify nodes idx other _ bound]
  by_cases here : other = idx
  · rw [if_pos here]
    rfl
  · rw [if_neg here]
    rfl

section Step

variable (pids : List Text) (state : Attach) (line : LogLine)

theorem update_total (f : Enrichment → Enrichment) (more : Nat) (sound : state.Sound pids)
    (grows : ∀ e, (f e).logs.length = e.logs.length + more) :
    totalLogs (state.updateTop f).nodes = totalLogs state.nodes + if state.stack = [] then 0 else more := by
  have inStack := sound_stack_bound pids state sound
  obtain ⟨nodes, stack, next, aligned⟩ := state
  cases stack with
  | nil => simp [Attach.updateTop]
  | cons idx rest => simpa [Attach.updateTop] using total_modify nodes idx more f (inStack idx (by simp)) (grows _)

theorem step_total (sound : state.Sound pids) : totalLogs (stepLine pids state line).nodes =
    totalLogs state.nodes + if state.stack = [] then 0 else (messageOf line).toList.length := by
  have effect := step_effect pids state line
  generalize stepLine pids state line = after at effect ⊢
  cases effect with
  | none line quiet => simp [quiet]
  | message text => exact update_total pids state _ 1 sound (by simp [pushLogs])
  | edit line quiet f edits =>
    simpa [quiet] using update_total pids state f 0 sound (fun e => by rw [blind_logs f edits.blind e, Nat.add_zero])
  | close line quiet f closes =>
    simpa [quiet, Attach.closeTop] using
      update_total pids state f 0 sound (fun e => by rw [blind_logs f closes.blind e, Nat.add_zero])
  | invoke pid aligned =>
    rw [openFrame]
    split <;> simp [messageOf]

theorem open_step (idx : Nat) (sound : state.Sound pids) (member : idx ∈ state.stack) :
    idx ∈ (stepLine pids state line).stack ∨ statusAt (stepLine pids state line).nodes idx ≠ .unknown := by
  have effect := step_effect pids state line
  generalize stepLine pids state line = after at effect ⊢
  cases effect with
  | none line quiet => exact Or.inl member
  | message text => exact Or.inl (by rwa [(update_top_fields state _).1])
  | edit line quiet f edits => exact Or.inl (by rwa [(update_top_fields state _).1])
  | close line quiet f closes =>
    cases top : state.stack with
    | nil => simp [top] at member
    | cons innermost rest =>
      by_cases here : idx = innermost
      · apply Or.inr
        rw [close_status pids state f innermost rest sound top, if_pos here]
        exact closes.settles _
      · apply Or.inl
        rw [top] at member
        have later : idx ∈ rest := (List.mem_cons.mp member).resolve_left here
        simpa [Attach.closeTop, top] using later
  | invoke pid aligned =>
    rw [openFrame]
    split
    · exact Or.inl (List.mem_cons_of_mem _ member)
    · exact Or.inl member

theorem modify_swap (nodes : List Enrichment) (first second : Nat) (f g : Enrichment → Enrichment)
    (commutes : f (g (nodeAt nodes second)) = g (f (nodeAt nodes second))) :
    (nodes.modify second g).modify first f = (nodes.modify first f).modify second g := by
  induction nodes generalizing first second with
  | nil => simp
  | cons head tail ih =>
    cases first with
    | zero =>
      cases second with
      | zero =>
        have here : f (g head) = g (f head) := commutes
        simp [here]
      | succ n => simp
    | succ m =>
      cases second with
      | zero => simp
      | succ n => simpa using ih m n commutes

theorem modify_agree (nodes : List Enrichment) (idx : Nat) (f g : Enrichment → Enrichment)
    (agree : f (nodeAt nodes idx) = g (nodeAt nodes idx)) : nodes.modify idx f = nodes.modify idx g := by
  induction nodes generalizing idx with
  | nil => simp
  | cons head tail ih =>
    cases idx with
    | zero =>
      have here : f head = g head := agree
      simp [here]
    | succ n => simpa using ih n agree

theorem update_with_log (f : Enrichment → Enrichment) (idx p : Nat) (text : Text)
    (commutes : f (insertText p text (nodeAt state.nodes idx)) = insertText p text (f (nodeAt state.nodes idx))) :
    (state.withLog idx p text).updateTop f = (state.updateTop f).withLog idx p text := by
  obtain ⟨nodes, stack, next, aligned⟩ := state
  cases stack with
  | nil => rfl
  | cons top rest =>
    simp only [Attach.withLog, Attach.updateTop, insertLog]
    rw [modify_swap nodes top idx f (insertText p text) commutes]

theorem blind_insert (f : Enrichment → Enrichment) (blind : LogBlind f) (p : Nat) (text : Text) (e : Enrichment) :
    f (insertText p text e) = insertText p text (f e) := by
  rw [insertText, blind, insertText, blind_logs f blind]

theorem insert_before_append (first second : List Text) (p : Nat) (text : Text) (room : p ≤ first.length) :
    (first ++ second).insertIdx p text = first.insertIdx p text ++ second := by
  induction first generalizing p with
  | nil =>
    have zero : p = 0 := by simpa using room
    simp [zero]
  | cons head tail ih =>
    cases p with
    | zero => simp
    | succ n => simpa using ih n (by simpa using room)

theorem push_insert (texts : List Text) (p : Nat) (text : Text) (e : Enrichment) (room : p ≤ e.logs.length) :
    pushLogs texts (insertText p text e) = insertText p text (pushLogs texts e) := by
  simp only [pushLogs, insertText, insert_before_append e.logs texts p text room]

theorem step_with_log (idx p : Nat) (text : Text) (room : p ≤ logCount state.nodes idx) :
    stepLine pids (state.withLog idx p text) line = (stepLine pids state line).withLog idx p text := by
  have edit : ∀ f, LogBlind f → (state.withLog idx p text).updateTop f = (state.updateTop f).withLog idx p text :=
    fun f blind => update_with_log state f idx p text (blind_insert f blind p text _)
  have close : ∀ f, LogBlind f → (state.withLog idx p text).closeTop f = (state.closeTop f).withLog idx p text := by
    intro f blind
    rw [Attach.closeTop, edit f blind]
    rfl
  have deed := step_deed pids line
  change (stepLine pids · line) _ = ((stepLine pids · line) state).withLog idx p text
  generalize (stepLine pids · line) = act at deed ⊢
  cases deed with
  | none line quiet => rfl
  | message content => exact update_with_log state (pushLogs [content]) idx p text (push_insert [content] p text _ room)
  | edit line quiet f edits =>
    rw [apply_ite (Attach.withLog · idx p text), ← edit f edits.blind]
    rfl
  | close line quiet f closes =>
    rw [apply_ite (Attach.withLog · idx p text), ← close f closes.blind]
    rfl
  | invoke pid =>
    have opens : openFrame pids (state.withLog idx p text) pid = (openFrame pids state pid).withLog idx p text := by
      rw [openFrame, openFrame, apply_ite (Attach.withLog · idx p text)]
      rfl
    rw [apply_ite (Attach.withLog · idx p text), ← opens]
    rfl

theorem update_count (f : Enrichment → Enrichment) (idx : Nat) (sound : state.Sound pids)
    (grows : ∀ e, e.logs.length ≤ (f e).logs.length) :
    logCount state.nodes idx ≤ logCount (state.updateTop f).nodes idx := by
  have inStack := sound_stack_bound pids state sound
  obtain ⟨nodes, stack, next, aligned⟩ := state
  cases stack with
  | nil => exact Nat.le_refl _
  | cons top rest =>
    simp only [Attach.updateTop]
    rw [logCount, logCount, node_modify nodes top idx f (inStack top (by simp))]
    by_cases here : idx = top
    · rw [if_pos here]
      exact grows _
    · rw [if_neg here]

theorem step_count (idx : Nat) (sound : state.Sound pids) :
    logCount state.nodes idx ≤ logCount (stepLine pids state line).nodes idx := by
  have effect := step_effect pids state line
  generalize stepLine pids state line = after at effect ⊢
  cases effect with
  | none line quiet => exact Nat.le_refl _
  | message text => exact update_count pids state _ idx sound (fun e => by simp [pushLogs])
  | edit line quiet f edits => exact update_count pids state f idx sound (fun e => by rw [blind_logs f edits.blind e])
  | close line quiet f closes => exact update_count pids state f idx sound (fun e => by rw [blind_logs f closes.blind e])
  | invoke pid aligned =>
    rw [openFrame]
    split
    · exact Nat.le_refl _
    · exact Nat.le_refl _

end Step

theorem run_with_log (pids : List Text) (lines : List LogLine) (state : Attach) (sound : state.Sound pids) (idx p : Nat)
    (text : Text) (room : p ≤ logCount state.nodes idx) :
    runLines pids (state.withLog idx p text) lines = (runLines pids state lines).withLog idx p text := by
  induction lines generalizing state with
  | nil => rfl
  | cons line rest ih =>
    have later := ih (stepLine pids state line) (step_sound pids state line sound)
      (Nat.le_trans room (step_count pids state line idx sound))
    rw [runLines, List.foldl_cons, step_with_log pids state line idx p text room]
    exact later

theorem run_count (pids : List Text) (lines : List LogLine) (state : Attach) (sound : state.Sound pids) (idx : Nat) :
    logCount state.nodes idx ≤ logCount (runLines pids state lines).nodes idx := by
  induction lines generalizing state with
  | nil => exact Nat.le_refl _
  | cons line rest ih =>
    exact Nat.le_trans (step_count pids state line idx sound) (ih _ (step_sound pids state line sound))

theorem run_total_grows (pids : List Text) (lines : List LogLine) (state : Attach) (sound : state.Sound pids) :
    totalLogs state.nodes ≤ totalLogs (runLines pids state lines).nodes := by
  induction lines generalizing state with
  | nil => exact Nat.le_refl _
  | cons line rest ih =>
    refine Nat.le_trans ?_ (ih _ (step_sound pids state line sound))
    rw [step_total pids state line sound]
    exact Nat.le_add_right _ _

theorem open_run (pids : List Text) (lines : List LogLine) (state : Attach) (sound : state.Sound pids) (idx : Nat)
    (member : idx ∈ state.stack) : statusAt (runLines pids state lines).nodes idx ≠ .unknown ∨
      totalLogs (runLines pids state lines).nodes = totalLogs state.nodes + (lines.filterMap messageOf).length := by
  induction lines generalizing state with
  | nil => exact Or.inr rfl
  | cons line rest ih =>
    have soundStep := step_sound pids state line sound
    have isOpen : state.stack ≠ [] := List.ne_nil_of_mem member
    have total := step_total pids state line sound
    rw [if_neg isOpen] at total
    rcases open_step pids state line idx sound member with still | settled
    · rcases ih _ soundStep still with closed | counted
      · exact Or.inl closed
      · apply Or.inr
        rw [runLines, List.foldl_cons]
        rw [runLines] at counted
        rw [counted, total, List.filterMap_cons]
        cases messageOf line with
        | none => simp
        | some text => simp only [Option.toList_some, List.length_cons, List.length_nil]; omega
    · exact Or.inl (settled_run pids rest _ soundStep idx settled)

structure Behind (first second : Attach) : Prop where
  next : first.next = second.next
  aligned : first.aligned = second.aligned
  fewerOpen : first.stack.length ≤ second.stack.length
  fewerLogs : totalLogs first.nodes ≤ totalLogs second.nodes

theorem step_control (pids : List Text) (first second : Attach) (line : LogLine) (behind : Behind first second) :
    (stepLine pids first line).next = (stepLine pids second line).next ∧
      (stepLine pids first line).aligned = (stepLine pids second line).aligned ∧
      (stepLine pids first line).stack.length ≤ (stepLine pids second line).stack.length := by
  obtain ⟨next, flag, fewerOpen, -⟩ := behind
  have same := And.intro next (And.intro flag fewerOpen)
  have edit : ∀ f, (first.updateTop f).next = (second.updateTop f).next ∧
      (first.updateTop f).aligned = (second.updateTop f).aligned ∧
      (first.updateTop f).stack.length ≤ (second.updateTop f).stack.length := by
    intro f
    obtain ⟨firstStack, firstNext, firstFlag, -⟩ := update_top_fields first f
    obtain ⟨secondStack, secondNext, secondFlag, -⟩ := update_top_fields second f
    rw [firstStack, secondStack, firstNext, secondNext, firstFlag, secondFlag]
    exact same
  have deed := step_deed pids line
  change ((stepLine pids · line) first).next = ((stepLine pids · line) second).next ∧
    ((stepLine pids · line) first).aligned = ((stepLine pids · line) second).aligned ∧
    ((stepLine pids · line) first).stack.length ≤ ((stepLine pids · line) second).stack.length
  generalize (stepLine pids · line) = act at deed ⊢
  cases deed with
  | none line quiet => exact same
  | message text => exact edit _
  | edit line quiet f edits =>
    simp only [flag]
    split
    · exact edit f
    · exact same
  | close line quiet f closes =>
    simp only [flag]
    split
    · refine ⟨(edit f).1, (edit f).2.1, ?_⟩
      simp only [Attach.closeTop, List.length_tail]
      omega
    · exact same
  | invoke pid =>
    simp only [flag]
    split
    · simp only [openFrame, next]
      split
      · exact ⟨rfl, flag, Nat.succ_le_succ fewerOpen⟩
      · exact ⟨rfl, rfl, fewerOpen⟩
    · exact same

theorem behind_refl (state : Attach) : Behind state state := ⟨rfl, rfl, Nat.le_refl _, Nat.le_refl _⟩

theorem edit_behind (pids : List Text) (state : Attach) (f : Enrichment → Enrichment) (sound : state.Sound pids)
    (blind : LogBlind f) : Behind (state.updateTop f) state := by
  obtain ⟨sameStack, sameNext, sameFlag, -⟩ := update_top_fields state f
  have total := update_total pids state f 0 sound (fun e => by rw [blind_logs f blind e, Nat.add_zero])
  exact ⟨sameNext, sameFlag, by rw [sameStack], by simp [total]⟩

theorem close_behind (pids : List Text) (state : Attach) (f : Enrichment → Enrichment) (sound : state.Sound pids)
    (blind : LogBlind f) : Behind (state.closeTop f) state := by
  obtain ⟨sameNext, sameFlag, -, fewerLogs⟩ := edit_behind pids state f sound blind
  exact ⟨sameNext, sameFlag, by simp [Attach.closeTop], fewerLogs⟩

theorem quiet_behind (pids : List Text) (state : Attach) (line : LogLine) (sound : state.Sound pids)
    (quiet : messageOf line = none) (noInvoke : ∀ pid, line = .invoke pid → state.aligned = false) :
    Behind (stepLine pids state line) state := by
  have effect := step_effect pids state line
  generalize stepLine pids state line = after at effect ⊢
  cases effect with
  | none line quiet => exact behind_refl state
  | message text => cases quiet
  | edit line quiet f edits => exact edit_behind pids state f sound edits.blind
  | close line quiet f closes => exact close_behind pids state f sound closes.blind
  | invoke pid aligned => simp [noInvoke pid rfl] at aligned

theorem run_behind (pids : List Text) (lines : List LogLine) (first second : Attach) (soundFirst : first.Sound pids)
    (soundSecond : second.Sound pids) (behind : Behind first second) :
    Behind (runLines pids first lines) (runLines pids second lines) := by
  induction lines generalizing first second with
  | nil => exact behind
  | cons line rest ih =>
    obtain ⟨next, flag, fewerOpen⟩ := step_control pids first second line behind
    refine ih _ _ (step_sound pids first line soundFirst) (step_sound pids second line soundSecond)
      ⟨next, flag, fewerOpen, ?_⟩
    have fewerLogs := behind.fewerLogs
    have opens := behind.fewerOpen
    rw [step_total pids first line soundFirst, step_total pids second line soundSecond]
    by_cases noneOpen : second.stack = []
    · have empty : first.stack = [] := by
        rw [noneOpen] at opens
        exact List.length_eq_zero_iff.mp (Nat.le_zero.mp opens)
      rw [if_pos noneOpen, if_pos empty]
      exact fewerLogs
    · rw [if_neg noneOpen]
      split
      · omega
      · omega

end WakeSol.Trace
