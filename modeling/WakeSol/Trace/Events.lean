import WakeSol.Trace.Attribution
import WakeSol.Trace.Resolve

/- Anchor emits an event as a log line or as a call of the program to itself. The
   second kind is folded into the event list of the calling node. -/
set_option autoImplicit false

namespace WakeSol.Trace

open TextLib RadixLib RoseLib

def Call.isEvent (program : Address) (callee : Call) : Bool :=
  callee.programId == program && 16 ≤ callee.data.length && callee.data.take 8 == anchorEventCpiTag

def Call.payload (callee : Call) : Bytes := callee.data.drop 8

def Body.logEvents (inner : Body) : List Bytes := inner.items.filterMap Item.event

def Body.cpiEvents (program : Address) : Body → List Bytes
  | .done => []
  | .own _ rest => rest.cpiEvents program
  | .call callee _ _ rest => if callee.isEvent program then callee.payload :: rest.cpiEvents program else rest.cpiEvents program

def Body.emitted (program : Address) : Body → List Bytes
  | .done => []
  | .own item rest => item.event.toList ++ rest.emitted program
  | .call callee _ _ rest => if callee.isEvent program then callee.payload :: rest.emitted program else rest.emitted program

def emittingEnrichment (program : Address) (inner : Body) (close : Close) : Enrichment :=
  { ownEnrichment inner close with eventData := inner.emitted program }

-- The tree with the event calls taken out and nothing else: what an event call
-- itself called would move up to its place.
def Body.expected (program : Address) : Body → List Traced
  | .done => []
  | .own _ rest => rest.expected program
  | .call callee inner close rest =>
    if callee.isEvent program then inner.expected callee.programId ++ rest.expected program
    else .node ⟨callee, emittingEnrichment callee.programId inner close⟩ (inner.expected callee.programId) ::
      rest.expected program

def Entry.expected : Entry → Traced
  | .frame callee inner close =>
    .node ⟨callee, emittingEnrichment callee.programId inner close⟩ (inner.expected callee.programId)
  | .precompile callee => .node ⟨callee, {}⟩ []

def Run.expected (run : Run) : List Traced :=
  run.entries.map Entry.expected ++ run.pending.map fun callee => .node ⟨callee, {}⟩ []

def Body.Silent (program : Address) : Body → Prop
  | .done => True
  | .own _ rest => rest.Silent program
  | .call callee inner _ rest => callee.isEvent program = true ∧ inner.Silent callee.programId ∧ rest.Silent program

def Body.LogsFirst (program : Address) (inner : Body) : Prop :=
  inner.emitted program = inner.logEvents ++ inner.cpiEvents program

def Body.Ordered (program : Address) : Body → Prop
  | .done => True
  | .own _ rest => rest.Ordered program
  | .call callee inner _ rest =>
    (if callee.isEvent program then inner.Silent callee.programId
      else inner.LogsFirst callee.programId ∧ inner.Ordered callee.programId) ∧ rest.Ordered program

def Entry.Ordered : Entry → Prop
  | .frame callee inner _ => inner.LogsFirst callee.programId ∧ inner.Ordered callee.programId
  | .precompile _ => True

def Run.Ordered (run : Run) : Prop := ∀ entry ∈ run.entries, entry.Ordered

instance decideSilent (program : Address) : (body : Body) → Decidable (body.Silent program)
  | .done => .isTrue trivial
  | .own _ rest => decideSilent program rest
  | .call callee inner _ rest =>
    have := decideSilent callee.programId inner
    have := decideSilent program rest
    inferInstanceAs (Decidable (callee.isEvent program = true ∧ inner.Silent callee.programId ∧ rest.Silent program))

instance (program : Address) (inner : Body) : Decidable (inner.LogsFirst program) :=
  inferInstanceAs (Decidable (inner.emitted program = inner.logEvents ++ inner.cpiEvents program))

instance decideOrdered (program : Address) : (body : Body) → Decidable (body.Ordered program)
  | .done => .isTrue trivial
  | .own _ rest => decideOrdered program rest
  | .call callee inner _ rest =>
    have := decideOrdered callee.programId inner
    have := decideOrdered program rest
    inferInstanceAs (Decidable ((if callee.isEvent program then inner.Silent callee.programId
      else inner.LogsFirst callee.programId ∧ inner.Ordered callee.programId) ∧ rest.Ordered program))

instance : (entry : Entry) → Decidable entry.Ordered
  | .frame callee inner _ =>
    inferInstanceAs (Decidable (inner.LogsFirst callee.programId ∧ inner.Ordered callee.programId))
  | .precompile _ => .isTrue trivial

instance (run : Run) : Decidable run.Ordered := inferInstanceAs (Decidable (∀ entry ∈ run.entries, entry.Ordered))

def hoistedEnrichment (program : Address) (inner : Body) (close : Close) : Enrichment :=
  { ownEnrichment inner close with eventData := inner.logEvents ++ inner.cpiEvents program }

def Body.hoisted (program : Address) : Body → List Traced
  | .done => []
  | .own _ rest => rest.hoisted program
  | .call callee inner close rest =>
    if callee.isEvent program then rest.hoisted program
    else .node ⟨callee, hoistedEnrichment callee.programId inner close⟩ (inner.hoisted callee.programId) ::
      rest.hoisted program

def Entry.hoisted : Entry → Traced
  | .frame callee inner close =>
    .node ⟨callee, hoistedEnrichment callee.programId inner close⟩ (inner.hoisted callee.programId)
  | .precompile callee => .node ⟨callee, {}⟩ []

theorem hoisted_events_forest (mark : Body → Close → Enrichment) (parent : Record) (body : Body) :
    hoistedEvents parent (body.forest mark) = body.cpiEvents parent.programId := by
  induction body with
  | done => rfl
  | own item rest ih => exact ih
  | call callee inner close rest _ ih =>
    have test : isEventCall parent ⟨callee, mark inner close⟩ = callee.isEvent parent.programId := rfl
    rw [Body.forest, Body.cpiEvents, ← ih]
    by_cases event : callee.isEvent parent.programId = true
    · simp [hoistedEvents, Rose.label, test, event, Call.payload]
    · simp [hoistedEvents, Rose.label, test, event]

theorem hoist_children_forest (parent : Record) (body : Body) :
    hoistChildren parent (body.forest ownEnrichment) = body.hoisted parent.programId := by
  induction body generalizing parent with
  | done => rfl
  | own item rest ih => exact ih parent
  | call callee inner close rest ihInner ih =>
    rw [Body.forest, hoistChildren, Body.hoisted, ih parent, hoistNode, ihInner, hoisted_events_forest]
    rfl

theorem hoist_entry (entry : Entry) : hoistNode (entry.tree ownEnrichment) = entry.hoisted := by
  cases entry with
  | frame callee inner close =>
    rw [Entry.tree, hoistNode, hoist_children_forest, hoisted_events_forest]
    rfl
  | precompile callee => rfl

theorem hoist_traced (run : Run) : hoistCpiEvents run.traced =
    run.entries.map Entry.hoisted ++ run.pending.map fun callee => .node ⟨callee, {}⟩ [] := by
  rw [hoistCpiEvents, Run.traced, Run.forest, List.map_append, List.map_map, List.map_map]
  congr 1
  exact List.map_congr_left fun entry _ => hoist_entry entry

theorem silent_iff (program : Address) (body : Body) : body.Silent program ↔ body.expected program = [] := by
  induction body generalizing program with
  | done => simp [Body.Silent, Body.expected]
  | own item rest ih => exact ih program
  | call callee inner close rest ihInner ih =>
    rw [Body.Silent, Body.expected, ihInner, ih]
    by_cases event : callee.isEvent program = true
    · simp [event]
    · simp [event]

theorem hoisted_length (program : Address) (body : Body) :
    (body.hoisted program).length ≤ (body.expected program).length := by
  induction body with
  | done => exact Nat.le_refl 0
  | own item rest ih => exact ih
  | call callee inner close rest _ ih =>
    rw [Body.hoisted, Body.expected]
    by_cases event : callee.isEvent program = true
    · rw [if_pos event, if_pos event, List.length_append]
      omega
    · rw [if_neg event, if_neg event, List.length_cons, List.length_cons]
      omega

theorem enrichment_iff (callee : Call) (inner : Body) (close : Close) :
    (⟨callee, hoistedEnrichment callee.programId inner close⟩ : Record) =
      ⟨callee, emittingEnrichment callee.programId inner close⟩ ↔ inner.LogsFirst callee.programId := by
  simp only [hoistedEnrichment, emittingEnrichment, Record.mk.injEq, Enrichment.mk.injEq, true_and, Body.LogsFirst]
  exact eq_comm

theorem body_ordered (program : Address) (body : Body) :
    body.hoisted program = body.expected program ↔ body.Ordered program := by
  induction body generalizing program with
  | done => simp [Body.hoisted, Body.expected, Body.Ordered]
  | own item rest ih => exact ih program
  | call callee inner close rest ihInner ih =>
    rw [Body.hoisted, Body.expected, Body.Ordered]
    by_cases event : callee.isEvent program = true
    · rw [if_pos event, if_pos event, if_pos event, silent_iff, ← ih program]
      constructor
      · intro same
        have sizes := congrArg List.length same
        have bound := hoisted_length program rest
        rw [List.length_append] at sizes
        have nothing : inner.expected callee.programId = [] := List.length_eq_zero_iff.mp (by omega)
        exact ⟨nothing, by rwa [nothing, List.nil_append] at same⟩
      · intro ⟨nothing, same⟩
        rw [nothing, List.nil_append, same]
    · rw [if_neg event, if_neg event, if_neg event, List.cons.injEq, Rose.node.injEq, enrichment_iff, ihInner, ih program]

theorem entry_ordered (entry : Entry) : entry.hoisted = entry.expected ↔ entry.Ordered := by
  cases entry with
  | frame callee inner close =>
    rw [Entry.hoisted, Entry.expected, Entry.Ordered, Rose.node.injEq, enrichment_iff, body_ordered]
  | precompile callee => simp [Entry.hoisted, Entry.expected, Entry.Ordered]

theorem built_hoisted (message : Message) (innerInstructions : List (List InnerInstruction)) (run : Run)
    (valid : run.Valid) (executed : callTree message innerInstructions = run.bare) :
    buildCallTree message innerInstructions run.lines =
      run.entries.map Entry.hoisted ++ run.pending.map fun callee => .node ⟨callee, {}⟩ [] := by
  rw [buildCallTree, executed, attach_valid run valid, hoist_traced]

def eventMessage : Message where
  staticAccountKeys := [.fill 7]
  instructions := [⟨0, [], [1]⟩]
  addressTableLookups := []
  isSigner := fun _ => false
  isMaybeWritable := fun _ => false

def eventCall : Call := ⟨.fill 7, [], anchorEventCpiTag ++ [0, 1, 2, 3, 4, 5, 6, 7], 2⟩

def eventInner : List (List InnerInstruction) := [[⟨⟨0, [], eventCall.data⟩, 2⟩]]

def succeeded : Close := ⟨none, .success⟩

def eventRun (inside : Body) : Run := ⟨[.frame ⟨.fill 7, [], [1], 1⟩ inside succeeded], []⟩

def logThenCall : Run := eventRun (.own (.data [9]) (.call eventCall .done succeeded .done))

def callThenLog : Run := eventRun (.call eventCall .done succeeded (.own (.data [9]) .done))

end WakeSol.Trace
