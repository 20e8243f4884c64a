import WakeSol.Trace.Lines

set_option autoImplicit false

namespace WakeSol.Trace

open TextLib RadixLib RoseLib

-- What a frame writes itself: a logged message, a message without the log key,
-- one event chunk, or the return data some program set.
inductive Item where
  | log (text : Text)
  | native (text : Text)
  | data (payload : Bytes)
  | ret (program : Address) (payload : Bytes)

inductive Outcome where
  | success
  | failed (error : Text)

structure Close where
  consumed : Option (Nat × Nat)
  outcome : Outcome

-- The inside of a frame in log order. A call carries its own inside and the
-- lines that close it, then the caller goes on.
inductive Body where
  | done
  | own (item : Item) (rest : Body)
  | call (callee : Call) (inner : Body) (close : Close) (rest : Body)

inductive Entry where
  | frame (callee : Call) (inner : Body) (close : Close)
  | precompile (callee : Call)

-- A transaction: the top-level instructions that ran, and those after a failure
-- that never did.
structure Run where
  entries : List Entry
  pending : List Call

def Item.line : Item → Text
  | .log text => logLine text
  | .native text => text
  | .data payload => dataLine payload
  | .ret program payload => returnLine program.text payload

def Outcome.line (pid : Text) : Outcome → Text
  | .success => successLine pid
  | .failed error => failedLine pid error

def Close.lines (pid : Text) (close : Close) : List Text :=
  match close.consumed with
  | some (units, limit) => [consumedLine pid units limit, close.outcome.line pid]
  | none => [close.outcome.line pid]

def frameLines (callee : Call) (close : Close) (inside : List Text) : List Text :=
  invokeLine callee.programId.text callee.stackHeight :: (inside ++ close.lines callee.programId.text)

def Body.lines : Body → List Text
  | .done => []
  | .own item rest => item.line :: rest.lines
  | .call callee inner close rest => frameLines callee close inner.lines ++ rest.lines

def Entry.lines : Entry → List Text
  | .frame callee inner close => frameLines callee close inner.lines
  | .precompile _ => []

def Run.lines (run : Run) : List Text := run.entries.flatMap Entry.lines

def Item.message : Item → Option Text
  | .log text => some text
  | .native text => some text
  | .data _ => none
  | .ret _ _ => none

def Item.event : Item → Option Bytes
  | .log _ => none
  | .native _ => none
  | .data payload => some payload
  | .ret _ _ => none

def Item.returned : Item → Option Bytes
  | .log _ => none
  | .native _ => none
  | .data _ => none
  | .ret _ payload => if payload = [] then none else some payload

def Outcome.status : Outcome → NodeStatus
  | .success => .success
  | .failed _ => .failed

def Outcome.error : Outcome → Option Text
  | .success => none
  | .failed error => some error

def Body.items : Body → List Item
  | .done => []
  | .own item rest => item :: rest.items
  | .call _ _ _ rest => rest.items

def ownEnrichment (inner : Body) (close : Close) : Enrichment where
  logs := inner.items.filterMap Item.message
  computeUnits := close.consumed.map Prod.fst
  status := close.outcome.status
  errorMsg := close.outcome.error
  returnData := (inner.items.filterMap Item.returned).getLast?
  eventData := inner.items.filterMap Item.event

def Body.forest (mark : Body → Close → Enrichment) : Body → List Traced
  | .done => []
  | .own _ rest => rest.forest mark
  | .call callee inner close rest => .node ⟨callee, mark inner close⟩ (inner.forest mark) :: rest.forest mark

def Entry.tree (mark : Body → Close → Enrichment) : Entry → Traced
  | .frame callee inner close => .node ⟨callee, mark inner close⟩ (inner.forest mark)
  | .precompile callee => .node ⟨callee, {}⟩ []

def Run.forest (mark : Body → Close → Enrichment) (run : Run) : List Traced :=
  run.entries.map (Entry.tree mark) ++ run.pending.map fun callee => .node ⟨callee, {}⟩ []

def Run.bare (run : Run) : List Traced := run.forest fun _ _ => {}

def Run.traced (run : Run) : List Traced := run.forest ownEnrichment

def Item.Valid : Item → Prop
  | .log text => text ≠ [] ∧ Trimmed text ∧ verbOf (firstWord text) = none
  | .native text => NativeText text
  | .data payload => payload ≠ []
  | .ret _ _ => True

def Outcome.Valid : Outcome → Prop
  | .success => True
  | .failed error => error ≠ [] ∧ Trimmed error

structure Close.Valid (close : Close) : Prop where
  units : ∀ pair ∈ close.consumed, pair.1 < 2 ^ 64
  outcome : close.outcome.Valid

def Call.logged (callee : Call) : Prop := isPrecompilePid callee.programId.text = false

def Body.Valid : Body → Prop
  | .done => True
  | .own item rest => item.Valid ∧ rest.Valid
  | .call callee inner close rest => callee.logged ∧ inner.Valid ∧ close.Valid ∧ rest.Valid

def Entry.Valid : Entry → Prop
  | .frame callee inner close => callee.logged ∧ inner.Valid ∧ close.Valid
  | .precompile callee => isPrecompilePid callee.programId.text = true

def Run.Valid (run : Run) : Prop := ∀ entry ∈ run.entries, entry.Valid

instance (text : Text) : Decidable (NativeText text) :=
  decidable_of_iff (text ≠ [] ∧ Trimmed text ∧ ¬ returnKey <+: text ∧ ¬ dataKey <+: text ∧ ¬ logKey <+: text ∧
      (programKey <+: text → verbOf ((splitWhitespace text).getD 2 []) = none))
    ⟨fun ⟨nonempty, trimmed, notReturn, notData, notLog, noVerb⟩ => ⟨nonempty, trimmed, notReturn, notData, notLog, noVerb⟩,
      fun native => ⟨native.nonempty, native.trimmed, native.notReturn, native.notData, native.notLog, native.noVerb⟩⟩

instance decideItem : (item : Item) → Decidable item.Valid
  | .log text => inferInstanceAs (Decidable (text ≠ [] ∧ Trimmed text ∧ verbOf (firstWord text) = none))
  | .native text => inferInstanceAs (Decidable (NativeText text))
  | .data payload => inferInstanceAs (Decidable (payload ≠ []))
  | .ret _ _ => .isTrue trivial

instance decideOutcome : (outcome : Outcome) → Decidable outcome.Valid
  | .success => .isTrue trivial
  | .failed error => inferInstanceAs (Decidable (error ≠ [] ∧ Trimmed error))

instance (close : Close) : Decidable close.Valid :=
  decidable_of_iff ((∀ pair ∈ close.consumed, pair.1 < 2 ^ 64) ∧ close.outcome.Valid)
    ⟨fun ⟨units, outcome⟩ => ⟨units, outcome⟩, fun valid => ⟨valid.units, valid.outcome⟩⟩

instance (callee : Call) : Decidable callee.logged :=
  inferInstanceAs (Decidable (isPrecompilePid callee.programId.text = false))

instance decideBody : (body : Body) → Decidable body.Valid
  | .done => .isTrue trivial
  | .own item rest =>
    have := decideBody rest
    inferInstanceAs (Decidable (item.Valid ∧ rest.Valid))
  | .call callee inner close rest =>
    have := decideBody inner
    have := decideBody rest
    inferInstanceAs (Decidable (callee.logged ∧ inner.Valid ∧ close.Valid ∧ rest.Valid))

instance decideEntry : (entry : Entry) → Decidable entry.Valid
  | .frame callee inner close => inferInstanceAs (Decidable (callee.logged ∧ inner.Valid ∧ close.Valid))
  | .precompile callee => inferInstanceAs (Decidable (isPrecompilePid callee.programId.text = true))

instance (run : Run) : Decidable run.Valid := inferInstanceAs (Decidable (∀ entry ∈ run.entries, entry.Valid))

end WakeSol.Trace
