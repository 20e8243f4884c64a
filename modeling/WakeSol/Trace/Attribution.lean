import WakeSol.Trace.Frames

set_option autoImplicit false

namespace WakeSol.Trace

open TextLib RadixLib RoseLib

def Item.record (e : Enrichment) : Item → Enrichment
  | .log text => { e with logs := e.logs ++ [text] }
  | .native text => { e with logs := e.logs ++ [text] }
  | .data payload => { e with eventData := e.eventData ++ [payload] }
  | .ret _ payload => if payload = [] then e else { e with returnData := some payload }

def Close.record (close : Close) (e : Enrichment) : Enrichment :=
  { e with
    computeUnits := (close.consumed.map Prod.fst).or e.computeUnits
    status := close.outcome.status
    errorMsg := close.outcome.error.or e.errorMsg }

theorem record_items (items : List Item) (e : Enrichment) : items.foldl Item.record e =
    { e with
      logs := e.logs ++ items.filterMap Item.message
      returnData := (items.filterMap Item.returned).getLast?.or e.returnData
      eventData := e.eventData ++ items.filterMap Item.event } := by
  induction items generalizing e with
  | nil => simp
  | cons item rest ih =>
    rw [List.foldl_cons, ih]
    cases item with
    | log text => simp [Item.record, List.filterMap_cons, Item.message, Item.returned, Item.event]
    | native text => simp [Item.record, List.filterMap_cons, Item.message, Item.returned, Item.event]
    | data payload => simp [Item.record, List.filterMap_cons, Item.message, Item.returned, Item.event]
    | ret program payload =>
      by_cases empty : payload = []
      · simp [Item.record, List.filterMap_cons, Item.message, Item.returned, Item.event, empty]
      · have last : ((payload :: rest.filterMap Item.returned).getLast?) =
            (rest.filterMap Item.returned).getLast?.or (some payload) := by
          rw [List.getLast?_cons]
          cases (rest.filterMap Item.returned).getLast? with
          | none => rfl
          | some final => rfl
        simp [Item.record, List.filterMap_cons, Item.message, Item.returned, Item.event, empty, last]

theorem record_frame (inner : Body) (close : Close) :
    close.record (inner.items.foldl Item.record {}) = ownEnrichment inner close := by
  simp [record_items, Close.record, ownEnrichment]

def Body.pids : Body → List Text
  | .done => []
  | .own _ rest => rest.pids
  | .call callee inner _ rest => callee.programId.text :: (inner.pids ++ rest.pids)

def Body.found : Body → List Enrichment
  | .done => []
  | .own _ rest => rest.found
  | .call _ inner close rest => ownEnrichment inner close :: (inner.found ++ rest.found)

def Body.idle (body : Body) : List Enrichment := List.replicate body.pids.length {}

theorem modify_at (before : List Enrichment) (e : Enrichment) (after : List Enrichment)
    (f : Enrichment → Enrichment) : (before ++ e :: after).modify before.length f = before ++ f e :: after := by
  induction before with
  | nil => rfl
  | cons head tail ih => rw [List.cons_append, List.length_cons, List.modify_succ_cons, ih, List.cons_append]

def opened (before : List Enrichment) (e : Enrichment) (after : List Enrichment) (below : List Nat) (next : Nat) : Attach :=
  ⟨before ++ e :: after, before.length :: below, next, true⟩

section Step

variable (pids : List Text) (before : List Enrichment) (e : Enrichment) (after : List Enrichment) (below : List Nat)
  (next : Nat)

theorem update_opened (f : Enrichment → Enrichment) :
    (opened before e after below next).updateTop f = opened before (f e) after below next := by
  simp [Attach.updateTop, opened, modify_at]

theorem close_opened (f : Enrichment → Enrichment) :
    (opened before e after below next).closeTop f = ⟨before ++ f e :: after, below, next, true⟩ := by
  rw [Attach.closeTop, update_opened]
  rfl

theorem attach_item (item : Item) (valid : item.Valid) :
    attachStep pids (opened before e after below next) item.line = opened before (item.record e) after below next := by
  cases item with
  | log text =>
    obtain ⟨nonempty, trimmed, noVerb⟩ := valid
    rw [attachStep, Item.line, read_log text nonempty trimmed, noVerb, stepLine, update_opened]
    rfl
  | native text =>
    rw [attachStep, Item.line, read_native text valid, stepLine, update_opened]
    rfl
  | data payload =>
    have chunk : (splitWhitespace (encode64 payload)).headD [] = encode64 payload := by
      rw [split_whitespace_word _ (encode64_nonempty payload valid) (encode64_solid payload)]
      rfl
    rw [attachStep, Item.line, read_data payload valid, stepLine, chunk, decode_encode64]
    exact update_opened before e after below next _
  | ret program payload =>
    have pidText := address_pid_text program
    by_cases empty : payload = []
    · rw [attachStep, Item.line, empty, read_empty_return _ pidText, stepLine,
        split_once_char_none ' ' _ (pid_no_blank _ pidText), Item.record, if_pos rfl]
      rfl
    · have trimmed : trim (encode64 payload) = encode64 payload := solid_trimmed _ (encode64_solid payload)
      rw [attachStep, Item.line, read_return _ payload empty, stepLine,
        split_once_char ' ' _ _ (pid_no_blank _ pidText), Item.record, if_neg empty]
      simp only [Option.bind_some, trimmed, decode_encode64]
      exact update_opened before e after below next _

theorem attach_outcome (outcome : Outcome) (valid : outcome.Valid) (address : Address) :
    attachStep pids (opened before e after below next) (outcome.line address.text) =
      ⟨before ++ { e with status := outcome.status, errorMsg := outcome.error.or e.errorMsg } :: after, below, next, true⟩ := by
  have pidText := address_pid_text address
  cases outcome with
  | success =>
    rw [attachStep, Outcome.line, read_success _ pidText]
    exact close_opened before e after below next _
  | failed error =>
    rw [attachStep, Outcome.line, read_failed _ error pidText valid.1 valid.2]
    exact close_opened before e after below next _

theorem attach_close (close : Close) (valid : close.Valid) (address : Address) :
    attachRun pids (opened before e after below next) (close.lines address.text) =
      ⟨before ++ close.record e :: after, below, next, true⟩ := by
  obtain ⟨consumed, outcome⟩ := close
  obtain ⟨units, validOutcome⟩ := valid
  cases consumed with
  | none => exact attach_outcome pids before e after below next outcome validOutcome address
  | some pair =>
    obtain ⟨spent, limit⟩ := pair
    have spends : attachStep pids (opened before e after below next) (consumedLine address.text spent limit) =
        opened before { e with computeUnits := some spent } after below next := by
      rw [attachStep, read_consumed _ spent limit (address_pid_text address) (units (spent, limit) rfl)]
      exact update_opened before e after below next _
    rw [Close.lines, attachRun, List.foldl_cons, spends]
    exact attach_outcome pids before _ after below next outcome validOutcome address

end Step

theorem skip_precompiles_here (front : List Text) (skipped : List Text) (pid : Text) (back : List Text)
    (precompiles : ∀ p ∈ skipped, isPrecompilePid p = true) (logged : isPrecompilePid pid = false) :
    skipPrecompiles (front ++ skipped ++ pid :: back) front.length = (front ++ skipped).length := by
  rw [skipPrecompiles, List.append_assoc, List.drop_left, List.takeWhile_append_of_pos precompiles,
    List.takeWhile_cons_of_neg (by simp [logged])]
  simp

theorem attach_invoke (front skipped : List Text) (callee : Call) (back : List Text) (found after : List Enrichment)
    (stack : List Nat) (precompiles : ∀ p ∈ skipped, isPrecompilePid p = true) (logged : callee.logged)
    (cursor : found.length = (front ++ skipped).length) :
    attachStep (front ++ skipped ++ callee.programId.text :: back) ⟨found ++ {} :: after, stack, front.length, true⟩
        (invokeLine callee.programId.text callee.stackHeight) = opened found {} after stack (found.length + 1) := by
  have skip := skip_precompiles_here front skipped callee.programId.text back precompiles logged
  have here : (front ++ skipped ++ callee.programId.text :: back)[(front ++ skipped).length]? =
      some callee.programId.text := by simp
  rw [attachStep, read_invoke _ _ (address_pid_text callee.programId)]
  simp only [stepLine, if_true, openFrame, skip, here, opened, cursor]

theorem found_length (body : Body) : body.found.length = body.pids.length := by
  induction body with
  | done => rfl
  | own item rest ih => exact ih
  | call callee inner close rest innerIh restIh => simp [Body.found, Body.pids, innerIh, restIh]

theorem idle_call (callee : Call) (inner : Body) (close : Close) (rest : Body) :
    (Body.call callee inner close rest).idle = {} :: (inner.idle ++ rest.idle) := by
  simp [Body.idle, Body.pids, List.replicate_succ]

-- Running a body inside its open frame: its own lines reach that frame's node,
-- and the nodes of its calls, found idle at the cursor, are filled in.
def Attaches (body : Body) : Prop :=
  ∀ (front back : List Text) (before done : List Enrichment) (e : Enrichment) (after : List Enrichment) (below : List Nat),
    (before ++ e :: done).length = front.length →
    attachRun (front ++ body.pids ++ back) (opened before e (done ++ body.idle ++ after) below front.length) body.lines =
      opened before (body.items.foldl Item.record e) (done ++ body.found ++ after) below (front ++ body.pids).length

theorem attach_frame (inner : Body) (attaches : Attaches inner) (callee : Call) (close : Close) (logged : callee.logged)
    (validClose : close.Valid) (front skipped back : List Text) (found after : List Enrichment) (stack : List Nat)
    (precompiles : ∀ p ∈ skipped, isPrecompilePid p = true) (cursor : found.length = (front ++ skipped).length) :
    attachRun (front ++ skipped ++ callee.programId.text :: (inner.pids ++ back))
        ⟨found ++ {} :: (inner.idle ++ after), stack, front.length, true⟩ (frameLines callee close inner.lines) =
      ⟨found ++ ownEnrichment inner close :: (inner.found ++ after), stack,
        (front ++ skipped ++ callee.programId.text :: inner.pids).length, true⟩ := by
  have invoked := attach_invoke front skipped callee (inner.pids ++ back) found (inner.idle ++ after) stack precompiles
    logged cursor
  have ran := attaches (front ++ skipped ++ [callee.programId.text]) back found [] {} after stack
    (by rw [List.length_append, List.length_append, cursor]; rfl)
  have closed := attach_close (front ++ skipped ++ callee.programId.text :: (inner.pids ++ back)) found
    (inner.items.foldl Item.record {}) (inner.found ++ after) stack
    (front ++ skipped ++ callee.programId.text :: inner.pids).length close validClose callee.programId
  rw [record_frame] at closed
  simp only [List.append_assoc, List.cons_append, List.nil_append, List.length_append, List.length_cons,
    List.length_nil] at invoked ran closed cursor ⊢
  rw [frameLines, attachRun, List.foldl_cons, invoked, List.foldl_append, cursor]
  rw [attachRun] at ran closed
  rw [show front.length + skipped.length + 1 = front.length + (skipped.length + (0 + 1)) by omega, ran, closed]

theorem attach_body (body : Body) (valid : body.Valid) : Attaches body := by
  induction body with
  | done =>
    intro front back before done e after below cursor
    simp [Body.lines, Body.pids, Body.idle, Body.found, Body.items, attachRun]
  | own item rest ih =>
    intro front back before done e after below cursor
    rw [Body.lines, attachRun, List.foldl_cons, attach_item _ _ _ _ _ _ item valid.1]
    exact ih valid.2 front back before done (item.record e) after below (by simpa using cursor)
  | call callee inner close rest innerIh restIh =>
    intro front back before done e after below cursor
    obtain ⟨logged, validInner, validClose, validRest⟩ := valid
    have framed := attach_frame inner (innerIh validInner) callee close logged validClose front [] (rest.pids ++ back)
      (before ++ e :: done) (rest.idle ++ after) (before.length :: below) (by simp) (by simpa using cursor)
    have resumed := restIh validRest (front ++ callee.programId.text :: inner.pids) back before
      (done ++ ownEnrichment inner close :: inner.found) e after below
      (by simp only [List.length_append, List.length_cons, found_length] at cursor ⊢; omega)
    simp only [opened, Body.lines, Body.pids, Body.found, Body.items, idle_call, attachRun, List.foldl_append,
      List.append_assoc, List.cons_append, List.nil_append] at framed resumed ⊢
    rw [framed, resumed]

def Entry.pids : Entry → List Text
  | .frame callee inner _ => callee.programId.text :: inner.pids
  | .precompile callee => [callee.programId.text]

def Entry.found : Entry → List Enrichment
  | .frame _ inner close => ownEnrichment inner close :: inner.found
  | .precompile _ => [{}]

def Entry.idle (entry : Entry) : List Enrichment := List.replicate entry.pids.length {}

theorem attach_entries (entries : List Entry) (valid : ∀ entry ∈ entries, entry.Valid) (front skipped back : List Text)
    (found after : List Enrichment) (precompiles : ∀ p ∈ skipped, isPrecompilePid p = true)
    (cursor : found.length = (front ++ skipped).length) :
    ∃ front' skipped', front' ++ skipped' = front ++ skipped ++ entries.flatMap Entry.pids ∧
      (∀ p ∈ skipped', isPrecompilePid p = true) ∧
      attachRun (front ++ skipped ++ (entries.flatMap Entry.pids ++ back))
          ⟨found ++ (entries.flatMap Entry.idle ++ after), [], front.length, true⟩ (entries.flatMap Entry.lines) =
        ⟨found ++ (entries.flatMap Entry.found ++ after), [], front'.length, true⟩ := by
  induction entries generalizing front skipped found with
  | nil => exact ⟨front, skipped, by simp, precompiles, by simp [attachRun]⟩
  | cons entry rest ih =>
    have validRest : ∀ entry ∈ rest, entry.Valid := fun other member => valid other (by simp [member])
    cases entry with
    | precompile callee =>
      have isPrecompile : isPrecompilePid callee.programId.text = true := valid (.precompile callee) (by simp)
      obtain ⟨front', skipped', shape, silent, ran⟩ := ih validRest front (skipped ++ [callee.programId.text])
        (found ++ [({} : Enrichment)])
        (by
          intro p member
          rcases List.mem_append.mp member with earlier | here
          · exact precompiles p earlier
          · rw [List.mem_singleton.mp here, isPrecompile])
        (by simp only [List.length_append, List.length_singleton] at cursor ⊢; omega)
      refine ⟨front', skipped', by simpa [Entry.pids] using shape, silent, ?_⟩
      simpa [Entry.pids, Entry.idle, Entry.found, Entry.lines] using ran
    | frame callee inner close =>
      obtain ⟨logged, validInner, validClose⟩ : callee.logged ∧ inner.Valid ∧ close.Valid :=
        valid (.frame callee inner close) (by simp)
      have framed := attach_frame inner (attach_body inner validInner) callee close logged validClose front skipped
        (rest.flatMap Entry.pids ++ back) found (rest.flatMap Entry.idle ++ after) [] precompiles cursor
      obtain ⟨front', skipped', shape, silent, ran⟩ := ih validRest
        (front ++ skipped ++ callee.programId.text :: inner.pids) []
        (found ++ ownEnrichment inner close :: inner.found) (by simp)
        (by simp only [List.length_append, List.length_cons, found_length, List.length_nil] at cursor ⊢; omega)
      refine ⟨front', skipped', by simpa [Entry.pids] using shape, silent, ?_⟩
      have idle : (Entry.frame callee inner close).idle = {} :: inner.idle := by
        simp [Entry.idle, Entry.pids, Body.idle, List.replicate_succ]
      simp only [List.flatMap_cons, Entry.pids, idle, Entry.found, Entry.lines, attachRun, List.foldl_append,
        List.append_assoc, List.cons_append, List.nil_append] at framed ran ⊢
      rw [framed, ran]

theorem distribute_append (left right : List Traced) (found : List Enrichment) :
    distribute (left ++ right) found = ((distribute left found).1 ++ (distribute right (distribute left found).2).1,
      (distribute right (distribute left found).2).2) := by
  induction left generalizing found with
  | nil => rfl
  | cons tree rest ih => simp only [List.cons_append, distribute, ih]

theorem distribute_body (mark : Body → Close → Enrichment) (body : Body) (after : List Enrichment) :
    distribute (body.forest mark) (body.found ++ after) = (body.forest ownEnrichment, after) := by
  induction body generalizing after with
  | done => rfl
  | own item rest ih => exact ih after
  | call callee inner close rest innerIh restIh =>
    simp [Body.forest, Body.found, distribute, distributeNode, innerIh, restIh]

theorem distribute_entries (mark : Body → Close → Enrichment) (entries : List Entry) (after : List Enrichment) :
    distribute (entries.map (Entry.tree mark)) (entries.flatMap Entry.found ++ after) =
      (entries.map (Entry.tree ownEnrichment), after) := by
  induction entries with
  | nil => rfl
  | cons entry rest ih =>
    cases entry with
    | frame callee inner close =>
      simp [Entry.tree, Entry.found, distribute, distributeNode, distribute_body, ih]
    | precompile callee => simp [Entry.tree, Entry.found, distribute, distributeNode, ih]

theorem distribute_pending (pending : List Call) :
    (distribute (pending.map fun callee => .node ⟨callee, {}⟩ []) (List.replicate pending.length {})).1 =
      pending.map fun callee => .node ⟨callee, {}⟩ [] := by
  induction pending with
  | nil => rfl
  | cons callee rest ih => simp [distribute, distributeNode, List.replicate_succ, ih]

theorem body_pids (mark : Body → Close → Enrichment) (body : Body) : collectPids (body.forest mark) = body.pids := by
  induction body with
  | done => rfl
  | own item rest ih => exact ih
  | call callee inner close rest innerIh restIh =>
    simp only [collectPids] at innerIh restIh
    simp [collectPids, Body.forest, Body.pids, forestPreorder, preorder, innerIh, restIh]

theorem run_pids (mark : Body → Close → Enrichment) (run : Run) : collectPids (run.forest mark) =
    run.entries.flatMap Entry.pids ++ run.pending.map fun callee => callee.programId.text := by
  have ran : collectPids (run.entries.map (Entry.tree mark)) = run.entries.flatMap Entry.pids := by
    induction run.entries with
    | nil => rfl
    | cons entry rest ih =>
      cases entry with
      | frame callee inner close =>
        have inside := body_pids mark inner
        simp only [collectPids] at ih inside
        simp [collectPids, Entry.tree, Entry.pids, forestPreorder, preorder, inside, ih]
      | precompile callee =>
        simp only [collectPids] at ih
        simp [collectPids, Entry.tree, Entry.pids, forestPreorder, preorder, ih]
  have waiting : collectPids (run.pending.map fun callee => .node ⟨callee, {}⟩ []) =
      run.pending.map fun callee => callee.programId.text := by
    induction run.pending with
    | nil => rfl
    | cons callee rest ih =>
      simp only [collectPids] at ih
      simp [collectPids, forestPreorder, preorder, ih]
  rw [← ran, ← waiting, Run.forest, collectPids, forest_preorder_append, List.map_append]
  rfl

theorem replicate_entries (entries : List Entry) :
    List.replicate (entries.flatMap Entry.pids).length ({} : Enrichment) = entries.flatMap Entry.idle := by
  induction entries with
  | nil => rfl
  | cons entry rest ih => rw [List.flatMap_cons, List.flatMap_cons, List.length_append, List.replicate_add, ih, Entry.idle]

theorem attach_init_run (run : Run) (mark : Body → Close → Enrichment) : attachInit (collectPids (run.forest mark)).length =
    ⟨run.entries.flatMap Entry.idle ++ List.replicate run.pending.length ({} : Enrichment), [], 0, true⟩ := by
  rw [attachInit, run_pids, List.length_append, List.replicate_add, replicate_entries, List.length_map]

theorem run_empty (run : Run) (mark : Body → Close → Enrichment) (empty : collectPids (run.forest mark) = []) :
    run = ⟨[], []⟩ := by
  obtain ⟨entries, pending⟩ := run
  rw [run_pids, List.append_eq_nil_iff, List.map_eq_nil_iff] at empty
  obtain ⟨noEntry, noPending⟩ := empty
  cases entries with
  | nil => rw [show pending = [] from noPending]
  | cons entry rest => cases entry <;> simp [Entry.pids] at noEntry

theorem attach_valid (run : Run) (valid : run.Valid) : attachLogs run.bare run.lines = run.traced := by
  obtain ⟨front, skipped, shape, silent, ran⟩ := attach_entries run.entries valid [] []
    (run.pending.map fun callee => callee.programId.text) [] (List.replicate run.pending.length {}) (by simp) rfl
  simp only [List.nil_append, List.length_nil] at ran
  by_cases empty : collectPids run.bare = []
  · rw [run_empty run _ empty]
    rfl
  · rw [attachLogs, if_neg empty, Run.bare, attach_init_run, run_pids, Run.lines, ran, Run.forest, distribute_append,
      distribute_entries, distribute_pending]
    rfl

theorem attach_logs_attributes (run : Run) (valid : run.Valid) : attachLogs run.bare run.lines = run.traced :=
  attach_valid run valid

def ed25519 : Address :=
  ⟨[3, 125, 70, 214, 124, 147, 251, 190, 18, 249, 66, 143, 131, 141, 64, 255, 5, 112, 116, 73, 39, 244, 138, 100, 252,
    202, 112, 68, 128, 0, 0, 0], rfl⟩

def failedTransfer : Run where
  entries :=
    [.precompile ⟨ed25519, [], [], 1⟩,
      .frame ⟨.fill 1, [], [], 1⟩
        (.own (.log ['h', 'i'])
          (.call ⟨.fill 2, [], [], 2⟩ (.own (.data [7, 8]) (.own (.ret (.fill 2) [9]) .done)) ⟨some (150, 200000), .success⟩
            (.own (.log ['b', 'y', 'e']) .done)))
        ⟨some (900, 200000), .failed ['c', 'u', 's', 't', 'o', 'm']⟩]
  pending := [⟨.fill 3, [], [], 1⟩]

theorem attach_failed_transfer : failedTransfer.Valid ∧ attachLogs failedTransfer.bare failedTransfer.lines = failedTransfer.traced := by
  have valid : failedTransfer.Valid := by decide +kernel
  exact ⟨valid, attach_logs_attributes failedTransfer valid⟩

end WakeSol.Trace
