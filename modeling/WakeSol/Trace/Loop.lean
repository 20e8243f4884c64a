import WakeSol.Trace.AttachLogs

set_option autoImplicit false

namespace WakeSol.Trace

open TextLib RadixLib RoseLib

def pushLogs (texts : List Text) (e : Enrichment) : Enrichment := { e with logs := e.logs ++ texts }

def LogBlind (f : Enrichment → Enrichment) : Prop :=
  ∀ (e : Enrichment) (logs : List Text), f { e with logs := logs } = { f e with logs := logs }

theorem blind_logs (f : Enrichment → Enrichment) (blind : LogBlind f) (e : Enrichment) : (f e).logs = e.logs := by
  calc (f e).logs = (f { e with logs := e.logs }).logs := rfl
    _ = e.logs := by rw [blind e e.logs]

theorem push_logs_nil : pushLogs [] = id := by
  funext e
  simp [pushLogs]

theorem push_logs_push (first second : List Text) : pushLogs second ∘ pushLogs first = pushLogs (first ++ second) := by
  funext e
  simp [pushLogs]

def messageOf : LogLine → Option Text
  | .message text => some text
  | .blank => none
  | .ret _ => none
  | .data _ => none
  | .invoke _ => none
  | .consumed _ _ => none
  | .success _ => none
  | .failed _ _ => none

structure Edits (f : Enrichment → Enrichment) : Prop where
  blind : LogBlind f
  keeps : ∀ e, (f e).status = e.status
  silent : ∀ e, (f e).errorMsg = e.errorMsg

structure Closes (f : Enrichment → Enrichment) : Prop where
  blind : LogBlind f
  settles : ∀ e, (f e).status ≠ .unknown
  explains : ∀ e, (f e).errorMsg ≠ e.errorMsg → (f e).status = .failed

-- Everything one line can ask of the loop. Only a message gets past a lost
-- alignment.
inductive Deed (pids : List Text) : LogLine → (Attach → Attach) → Prop where
  | none (line : LogLine) (quiet : messageOf line = none) : Deed pids line fun state => state
  | message (text : Text) : Deed pids (.message text) fun state => state.updateTop (pushLogs [text])
  | edit (line : LogLine) (quiet : messageOf line = none) (f : Enrichment → Enrichment) (edits : Edits f) :
      Deed pids line fun state => if state.aligned then state.updateTop f else state
  | close (line : LogLine) (quiet : messageOf line = none) (f : Enrichment → Enrichment) (closes : Closes f) :
      Deed pids line fun state => if state.aligned then state.closeTop f else state
  | invoke (pid : Text) : Deed pids (.invoke pid) fun state => if state.aligned then openFrame pids state pid else state

theorem step_deed (pids : List Text) (line : LogLine) : Deed pids line (stepLine pids · line) := by
  cases line with
  | blank => exact .none .blank rfl
  | message text => exact .message text
  | invoke pid => exact .invoke pid
  | consumed pid units => exact .edit _ rfl _ ⟨fun e logs => rfl, fun e => rfl, fun e => rfl⟩
  | success pid => exact .close _ rfl _ ⟨fun e logs => rfl, fun e => by simp, fun e changed => absurd rfl changed⟩
  | failed pid message => exact .close _ rfl _ ⟨fun e logs => rfl, fun e => by simp, fun e _ => rfl⟩
  | ret rest =>
    cases decoded : (splitOnce [' '] rest).bind fun pair => decode64 (trim pair.2) with
    | none => simpa only [stepLine, decoded, ite_self] using Deed.none (.ret rest) rfl
    | some bytes =>
      simp only [stepLine, decoded]
      exact .edit _ rfl _ ⟨fun e logs => rfl, fun e => rfl, fun e => rfl⟩
  | data rest =>
    cases decoded : decode64 ((splitWhitespace rest).headD []) with
    | none => simpa only [stepLine, decoded, ite_self] using Deed.none (.data rest) rfl
    | some bytes =>
      simp only [stepLine, decoded]
      exact .edit _ rfl _ ⟨fun e logs => rfl, fun e => rfl, fun e => rfl⟩

inductive Effect (pids : List Text) (state : Attach) : LogLine → Attach → Prop where
  | none (line : LogLine) (quiet : messageOf line = none) : Effect pids state line state
  | message (text : Text) : Effect pids state (.message text) (state.updateTop (pushLogs [text]))
  | edit (line : LogLine) (quiet : messageOf line = none) (f : Enrichment → Enrichment) (edits : Edits f) :
      Effect pids state line (state.updateTop f)
  | close (line : LogLine) (quiet : messageOf line = none) (f : Enrichment → Enrichment) (closes : Closes f) :
      Effect pids state line (state.closeTop f)
  | invoke (pid : Text) (aligned : state.aligned = true) : Effect pids state (.invoke pid) (openFrame pids state pid)

theorem step_effect (pids : List Text) (state : Attach) (line : LogLine) : Effect pids state line (stepLine pids state line) := by
  have deed := step_deed pids line
  change Effect pids state line ((stepLine pids · line) state)
  generalize (stepLine pids · line) = act at deed ⊢
  cases deed with
  | none line quiet => exact .none line quiet
  | message text => exact .message text
  | edit line quiet f edits =>
    beta_reduce
    split
    · exact .edit line quiet f edits
    · exact .none line quiet
  | close line quiet f closes =>
    beta_reduce
    split
    · exact .close line quiet f closes
    · exact .none line quiet
  | invoke pid =>
    beta_reduce
    split
    · exact .invoke pid (by assumption)
    · exact .none _ rfl

theorem step_frozen (pids : List Text) (state : Attach) (line : LogLine) (frozen : state.aligned = false) :
    stepLine pids state line = ((messageOf line).elim state fun text => state.updateTop (pushLogs [text])) := by
  have deed := step_deed pids line
  change (stepLine pids · line) state = _
  generalize (stepLine pids · line) = act at deed ⊢
  cases deed with
  | none line quiet => simp [quiet]
  | message text => rfl
  | edit line quiet f edits => simp [frozen, quiet]
  | close line quiet f closes => simp [frozen, quiet]
  | invoke pid => simp [frozen, messageOf]

def runLines (pids : List Text) (state : Attach) (lines : List LogLine) : Attach := lines.foldl (stepLine pids) state

theorem attach_run_lines (pids : List Text) (state : Attach) (logs : List Text) :
    attachRun pids state logs = runLines pids state (logs.map readLine) := by
  rw [attachRun, runLines, List.foldl_map]
  rfl

def nodeAt (nodes : List Enrichment) (idx : Nat) : Enrichment := nodes.getD idx {}

def statusAt (nodes : List Enrichment) (idx : Nat) : NodeStatus := (nodeAt nodes idx).status

theorem node_modify (nodes : List Enrichment) (idx other : Nat) (f : Enrichment → Enrichment) (bound : idx < nodes.length) :
    nodeAt (nodes.modify idx f) other = if other = idx then f (nodeAt nodes other) else nodeAt nodes other := by
  rw [nodeAt, nodeAt, List.getD_eq_getElem?_getD, List.getD_eq_getElem?_getD, List.getElem?_modify]
  by_cases same : idx = other
  · subst same
    simp [List.getElem?_eq_getElem bound]
  · simp [same, Ne.symm same]

-- The stack holds opened nodes, innermost first, none of them settled; nodes at
-- or past the cursor have no status yet.
structure Attach.Sound (pids : List Text) (state : Attach) : Prop where
  size : state.nodes.length = pids.length
  bound : state.next ≤ pids.length
  nested : state.stack.Pairwise (· > ·)
  below : ∀ idx ∈ state.stack, idx < state.next
  pending : ∀ idx ∈ state.stack, statusAt state.nodes idx = .unknown
  fresh : ∀ idx, state.next ≤ idx → statusAt state.nodes idx = .unknown

theorem sound_stack_bound (pids : List Text) (state : Attach) (sound : state.Sound pids) (idx : Nat)
    (member : idx ∈ state.stack) : idx < state.nodes.length := by
  have low := sound.below idx member
  have high := sound.bound
  rw [sound.size]
  omega

theorem skip_precompiles_bound (pids : List Text) (next : Nat) (bound : next ≤ pids.length) :
    next ≤ skipPrecompiles pids next ∧ skipPrecompiles pids next ≤ pids.length := by
  have taken := (List.takeWhile_sublist (l := pids.drop next) isPrecompilePid).length_le
  rw [List.length_drop] at taken
  exact ⟨Nat.le_add_right _ _, by rw [skipPrecompiles]; omega⟩

theorem update_status (pids : List Text) (state : Attach) (f : Enrichment → Enrichment) (sound : state.Sound pids)
    (keeps : ∀ e, (f e).status = e.status) (other : Nat) :
    statusAt (state.updateTop f).nodes other = statusAt state.nodes other := by
  have inStack := sound_stack_bound pids state sound
  obtain ⟨nodes, stack, next, aligned⟩ := state
  cases stack with
  | nil => rfl
  | cons idx rest =>
    simp only [Attach.updateTop]
    rw [statusAt, node_modify nodes idx other f (inStack idx (by simp))]
    by_cases here : other = idx
    · rw [if_pos here, keeps, statusAt]
    · rw [if_neg here, statusAt]

theorem update_top_fields (state : Attach) (f : Enrichment → Enrichment) :
    (state.updateTop f).stack = state.stack ∧ (state.updateTop f).next = state.next ∧
      (state.updateTop f).aligned = state.aligned ∧ (state.updateTop f).nodes.length = state.nodes.length := by
  obtain ⟨nodes, stack, next, aligned⟩ := state
  cases stack with
  | nil => exact ⟨rfl, rfl, rfl, rfl⟩
  | cons idx rest => exact ⟨rfl, rfl, rfl, List.length_modify f nodes idx⟩

theorem update_sound (pids : List Text) (state : Attach) (f : Enrichment → Enrichment) (sound : state.Sound pids)
    (keeps : ∀ e, (f e).status = e.status) : (state.updateTop f).Sound pids := by
  have status := update_status pids state f sound keeps
  obtain ⟨stack, next, -, length⟩ := update_top_fields state f
  obtain ⟨size, bound, nested, below, pending, fresh⟩ := sound
  refine ⟨by rw [length, size], by rw [next]; exact bound, by rw [stack]; exact nested, ?_, ?_, ?_⟩
  · rw [stack, next]
    exact below
  · intro other member
    rw [stack] at member
    rw [status, pending other member]
  · intro other high
    rw [next] at high
    rw [status, fresh other high]

theorem close_status (pids : List Text) (state : Attach) (f : Enrichment → Enrichment) (idx : Nat) (rest : List Nat)
    (sound : state.Sound pids) (top : state.stack = idx :: rest) (other : Nat) :
    statusAt (state.closeTop f).nodes other =
      if other = idx then (f (nodeAt state.nodes other)).status else statusAt state.nodes other := by
  have bound := sound_stack_bound pids state sound idx (by simp [top])
  have nodes : (state.closeTop f).nodes = state.nodes.modify idx f := by simp [Attach.closeTop, Attach.updateTop, top]
  rw [nodes, statusAt, node_modify _ _ _ _ bound]
  by_cases here : other = idx
  · rw [if_pos here, if_pos here]
  · rw [if_neg here, if_neg here, statusAt]

theorem close_sound (pids : List Text) (state : Attach) (f : Enrichment → Enrichment) (sound : state.Sound pids) :
    (state.closeTop f).Sound pids := by
  cases top : state.stack with
  | nil =>
    have same : state.closeTop f = state := by
      obtain ⟨nodes, stack, next, aligned⟩ := state
      have empty : stack = [] := top
      subst empty
      rfl
    rw [same]
    exact sound
  | cons idx rest =>
    have status := close_status pids state f idx rest sound top
    have shape : state.closeTop f = ⟨state.nodes.modify idx f, rest, state.next, state.aligned⟩ := by
      simp [Attach.closeTop, Attach.updateTop, top]
    rw [shape] at status ⊢
    obtain ⟨size, bound, nested, below, pending, fresh⟩ := sound
    rw [top] at nested below pending
    refine ⟨by simpa using size, bound, nested.of_cons, ?_, ?_, ?_⟩
    · intro other member
      exact below other (by simp [member])
    · intro other member
      have inner : idx > other := List.rel_of_pairwise_cons nested member
      rw [status other, if_neg (by omega)]
      exact pending other (by simp [member])
    · intro other high
      have opened : idx < state.next := below idx (by simp)
      have late : state.next ≤ other := high
      rw [status other, if_neg (by omega)]
      exact fresh other high

theorem open_sound (pids : List Text) (state : Attach) (pid : Text) (sound : state.Sound pids) :
    (openFrame pids state pid).Sound pids := by
  obtain ⟨size, bound, nested, below, pending, fresh⟩ := sound
  obtain ⟨forward, inside⟩ := skip_precompiles_bound pids state.next bound
  rw [openFrame]
  by_cases paired : pids[skipPrecompiles pids state.next]? = some pid
  · rw [if_pos paired]
    obtain ⟨within, -⟩ := List.getElem?_eq_some_iff.mp paired
    refine ⟨size, within, ?_, ?_, ?_, ?_⟩
    · refine List.pairwise_cons.mpr ⟨fun idx member => ?_, nested⟩
      exact Nat.lt_of_lt_of_le (below idx member) forward
    · intro idx member
      rcases List.mem_cons.mp member with rfl | earlier
      · exact Nat.lt_succ_self _
      · exact Nat.lt_succ_of_lt (Nat.lt_of_lt_of_le (below idx earlier) forward)
    · intro idx member
      rcases List.mem_cons.mp member with rfl | earlier
      · exact fresh _ forward
      · exact pending idx earlier
    · intro idx high
      exact fresh idx (Nat.le_trans forward (Nat.le_of_succ_le high))
  · rw [if_neg paired]
    refine ⟨size, inside, nested, ?_, pending, ?_⟩
    · intro idx member
      exact Nat.lt_of_lt_of_le (below idx member) forward
    · intro idx high
      exact fresh idx (Nat.le_trans forward high)

theorem step_sound (pids : List Text) (state : Attach) (line : LogLine) (sound : state.Sound pids) :
    (stepLine pids state line).Sound pids := by
  have effect := step_effect pids state line
  generalize stepLine pids state line = reached at effect ⊢
  cases effect with
  | none line quiet => exact sound
  | message text => exact update_sound pids state _ sound (fun e => rfl)
  | edit line quiet f edits => exact update_sound pids state f sound edits.keeps
  | close line quiet f closes => exact close_sound pids state f sound
  | invoke pid aligned => exact open_sound pids state pid sound

theorem run_sound (pids : List Text) (lines : List LogLine) (state : Attach) (sound : state.Sound pids) :
    (runLines pids state lines).Sound pids := by
  induction lines generalizing state with
  | nil => exact sound
  | cons line rest ih => exact ih _ (step_sound pids state line sound)

theorem init_sound (pids : List Text) : (attachInit pids.length).Sound pids where
  size := List.length_replicate
  bound := Nat.zero_le _
  nested := .nil
  below := by simp [attachInit]
  pending := by simp [attachInit]
  fresh := by
    intro idx _
    by_cases bound : idx < pids.length
    · simp [attachInit, statusAt, nodeAt, bound]
    · simp [attachInit, statusAt, nodeAt, bound]

def reached (tree : List Traced) (logs : List Text) : Attach :=
  attachRun (collectPids tree) (attachInit (collectPids tree).length) logs

theorem reached_sound (tree : List Traced) (logs : List Text) : (reached tree logs).Sound (collectPids tree) := by
  rw [reached, attach_run_lines]
  exact run_sound _ _ _ (init_sound _)

theorem reached_append (tree : List Traced) (before after : List Text) : reached tree (before ++ after) =
    runLines (collectPids tree) (reached tree before) (after.map readLine) := by
  rw [reached, reached, attachRun, List.foldl_append, ← attach_run_lines]
  rfl

theorem reached_size (tree : List Traced) (logs : List Text) :
    (reached tree logs).nodes.length = (forestPreorder tree).length := by
  rw [(reached_sound tree logs).size, collectPids, List.length_map]

theorem attach_logs_reached (tree : List Traced) (logs : List Text) :
    attachLogs tree logs = (distribute tree (reached tree logs).nodes).1 := by
  rw [attachLogs]
  by_cases empty : collectPids tree = []
  · have noTree : tree = [] := by
      cases tree with
      | nil => rfl
      | cons first rest =>
        cases first with
        | node record children => simp [collectPids, forestPreorder, preorder] at empty
    rw [if_pos empty, noTree]
    rfl
  · rw [if_neg empty]
    rfl

theorem attach_logs_eq_iff (tree : List Traced) (left right : List Text) :
    attachLogs tree left = attachLogs tree right ↔ (reached tree left).nodes = (reached tree right).nodes := by
  rw [attach_logs_reached, attach_logs_reached]
  constructor
  · exact distribute_injective tree _ _ (reached_size tree left) (reached_size tree right)
  · intro same
    rw [same]

theorem run_frozen (pids : List Text) (lines : List LogLine) (state : Attach) (frozen : state.aligned = false) :
    runLines pids state lines = state.updateTop (pushLogs (lines.filterMap messageOf)) := by
  obtain ⟨nodes, stack, next, aligned⟩ := state
  have lost : aligned = false := frozen
  subst lost
  induction lines generalizing nodes with
  | nil =>
    cases stack with
    | nil => rfl
    | cons idx rest => simp [runLines, Attach.updateTop, push_logs_nil, List.modify_id]
  | cons line rest ih =>
    rw [runLines, List.foldl_cons, step_frozen _ _ line rfl, List.filterMap_cons]
    cases messageOf line with
    | none => exact ih nodes frozen
    | some text =>
      cases stack with
      | nil => exact ih nodes frozen
      | cons idx others =>
        refine (ih (nodes.modify idx (pushLogs [text])) frozen).trans ?_
        simp [Attach.updateTop, List.modify_modify_eq, push_logs_push]

theorem settled_step (pids : List Text) (state : Attach) (line : LogLine) (sound : state.Sound pids) (idx : Nat)
    (settled : statusAt state.nodes idx ≠ .unknown) : statusAt (stepLine pids state line).nodes idx ≠ .unknown := by
  have effect := step_effect pids state line
  generalize stepLine pids state line = reached at effect ⊢
  cases effect with
  | none line quiet => exact settled
  | message text => rwa [update_status pids state (pushLogs [text]) sound (fun e => rfl)]
  | edit line quiet f edits => rwa [update_status pids state f sound edits.keeps]
  | close line quiet f closes =>
    cases top : state.stack with
    | nil => simpa [Attach.closeTop, Attach.updateTop, top] using settled
    | cons open_ rest =>
      rw [close_status pids state f open_ rest sound top]
      by_cases here : idx = open_
      · rw [if_pos here]
        exact closes.settles _
      · rwa [if_neg here]
  | invoke pid aligned =>
    rw [openFrame]
    split
    · exact settled
    · exact settled

theorem settled_run (pids : List Text) (lines : List LogLine) (state : Attach) (sound : state.Sound pids) (idx : Nat)
    (settled : statusAt state.nodes idx ≠ .unknown) : statusAt (runLines pids state lines).nodes idx ≠ .unknown := by
  induction lines generalizing state with
  | nil => exact settled
  | cons line rest ih =>
    exact ih _ (step_sound pids state line sound) (settled_step pids state line sound idx settled)

def Messaged (e : Enrichment) : Prop := e.errorMsg ≠ none → e.status = .failed

theorem update_messaged (pids : List Text) (state : Attach) (f : Enrichment → Enrichment) (sound : state.Sound pids)
    (keeps : ∀ e, e.status = .unknown → Messaged e → Messaged (f e)) (messaged : ∀ idx, Messaged (nodeAt state.nodes idx))
    (other : Nat) : Messaged (nodeAt (state.updateTop f).nodes other) := by
  have inStack := sound_stack_bound pids state sound
  have pending := sound.pending
  obtain ⟨nodes, stack, next, aligned⟩ := state
  cases stack with
  | nil => exact messaged other
  | cons idx rest =>
    simp only [Attach.updateTop]
    rw [node_modify nodes idx other f (inStack idx (by simp))]
    by_cases here : other = idx
    · rw [if_pos here]
      subst here
      exact keeps _ (pending other (by simp)) (messaged other)
    · rw [if_neg here]
      exact messaged other

theorem step_messaged (pids : List Text) (state : Attach) (line : LogLine) (sound : state.Sound pids)
    (messaged : ∀ idx, Messaged (nodeAt state.nodes idx)) (idx : Nat) :
    Messaged (nodeAt (stepLine pids state line).nodes idx) := by
  have update := fun f keeps => update_messaged pids state f sound keeps messaged idx
  have effect := step_effect pids state line
  generalize stepLine pids state line = reached at effect ⊢
  cases effect with
  | none line quiet => exact messaged idx
  | message text => exact update _ fun e _ held => held
  | edit line quiet f edits =>
    refine update f fun e _ held present => ?_
    rw [edits.silent] at present
    rw [edits.keeps, held present]
  | close line quiet f closes =>
    refine update f fun e pending held present => ?_
    by_cases same : (f e).errorMsg = e.errorMsg
    · have failed := held (by rwa [same] at present)
      rw [pending] at failed
      cases failed
    · exact closes.explains e same
  | invoke pid aligned =>
    rw [openFrame]
    split
    · exact messaged idx
    · exact messaged idx

theorem run_messaged (pids : List Text) (lines : List LogLine) (state : Attach) (sound : state.Sound pids)
    (messaged : ∀ idx, Messaged (nodeAt state.nodes idx)) (idx : Nat) :
    Messaged (nodeAt (runLines pids state lines).nodes idx) := by
  induction lines generalizing state with
  | nil => exact messaged idx
  | cons line rest ih => exact ih _ (step_sound pids state line sound) (step_messaged pids state line sound messaged)

theorem attach_messaged (tree : List Traced) (logs : List Text) :
    ∀ record ∈ forestPreorder (attachLogs tree logs), Messaged record.toEnrichment := by
  intro record inside
  have fresh : ∀ idx, Messaged (nodeAt (attachInit (collectPids tree).length).nodes idx) := by
    intro idx present
    by_cases bound : idx < (collectPids tree).length
    · simp [attachInit, nodeAt, bound] at present
    · simp [attachInit, nodeAt, bound] at present
  have messaged := run_messaged _ (logs.map readLine) _ (init_sound _) fresh
  rw [attach_logs_reached] at inside
  have listed := List.mem_map_of_mem (f := Record.toEnrichment) inside
  rw [distribute_enrichments tree _ (reached_size tree logs), reached, attach_run_lines] at listed
  obtain ⟨idx, bound, same⟩ := List.getElem_of_mem listed
  have here := messaged idx
  rwa [nodeAt, List.getD_eq_getElem _ _ bound, same] at here

end WakeSol.Trace
