import WakeSol.Interface.Builder
import WakeSol.Trace.Events

/- The decoded return value of a transaction. The runtime gives the bytes and the
   program that set them; the instruction is looked for in the call tree. -/
set_option autoImplicit false

namespace WakeSol.Interface

open TextLib RadixLib RoseLib DictLib Codec Trace

abbrev Registry := List (Text × ProgramInterface)

def register (registry : Registry) (iface : ProgramInterface) : Registry := dictSet registry iface.programId iface

-- The source keeps one class and tells the cases apart in the text.
inductive ReturnDataError where
  | noInterface (programId : Text)
  | notAttributed (programId : Text)
  | noInstruction (programId : Text)
  | noReturnType (name : Name)
  | notDecoded (name : Name) (cause : Raised)

def decodeReturnValue (registry : Registry) (env : Env) (programId : Text) (ixData : Option Bytes) (raw : Bytes) :
    Except ReturnDataError Value :=
  match registry.lookup programId with
  | none => .error (.noInterface programId)
  | some iface =>
    match ixData with
    | none => .error (.notAttributed programId)
    | some data =>
      match matchDef iface.defs data with
      | none => .error (.noInstruction programId)
      | some d =>
        match d.decodeReturn with
        | none => .error (.noReturnType d.name)
        | some decodeReturn =>
          match decodeReturn env raw with
          | .ok value => .ok value
          | .error cause => .error (.notDecoded d.name cause)

mutual
def candidateWalkNode (programId : Address) (found : Option Bytes) : Traced → Option Bytes
  | .node record children =>
    candidateWalk programId (if record.programId = programId then some record.data else found) children
def candidateWalk (programId : Address) (found : Option Bytes) : List Traced → Option Bytes
  | [] => found
  | node :: rest => candidateWalk programId (candidateWalkNode programId found node) rest
end

def returnCandidate (tree : List Traced) (programId : Address) : Option Bytes := candidateWalk programId none tree

def splitReturnData (programId : Address) (data : Bytes) : Option (Bytes × Address) :=
  if data = [] then none else some (data, programId)

structure TransactionResult where
  returned : Option (Bytes × Address)
  trace : List Traced

def txResult (message : Message) (innerInstructions : List (List InnerInstruction)) (logs : List Text) (programId : Address)
    (data : Bytes) : TransactionResult :=
  ⟨splitReturnData programId data, buildCallTree message innerInstructions logs⟩

def TransactionResult.returnValue (registry : Registry) (env : Env) (result : TransactionResult) :
    Except ReturnDataError (Option Value) :=
  match result.returned with
  | none => .ok none
  | some (raw, programId) =>
    (decodeReturnValue registry env programId.text (returnCandidate result.trace programId) raw).map some

mutual
theorem candidate_walk_node (programId : Address) (found : Option Bytes) (tree : Traced) :
    candidateWalkNode programId found tree =
      ((((preorder tree).map Record.toCall).filter fun callee => callee.programId = programId).getLast?.map Call.data).or
        found := by
  cases tree with
  | node record children =>
    rw [candidateWalkNode, candidate_walk, preorder, List.map_cons]
    by_cases same : record.programId = programId
    · rw [if_pos same, List.filter_cons_of_pos (by simpa using same), List.getLast?_cons]
      cases (((forestPreorder children).map Record.toCall).filter fun callee => callee.programId = programId).getLast? <;> rfl
    · rw [if_neg same, List.filter_cons_of_neg (by simpa using same)]
theorem candidate_walk (programId : Address) (found : Option Bytes) (forest : List Traced) :
    candidateWalk programId found forest =
      ((((forestPreorder forest).map Record.toCall).filter fun callee => callee.programId = programId).getLast?.map
        Call.data).or found := by
  cases forest with
  | nil => rfl
  | cons tree rest =>
    rw [candidateWalk, candidate_walk, candidate_walk_node, forestPreorder, List.map_append, List.filter_append,
      List.getLast?_append]
    cases (((forestPreorder rest).map Record.toCall).filter fun callee => callee.programId = programId).getLast? <;> rfl
end

mutual
def keptNode : Traced → List Call
  | .node record children => record.toCall :: keptBelow record children
def keptBelow (parent : Record) : List Traced → List Call
  | [] => []
  | child :: rest => if isEventCall parent child.label then keptBelow parent rest else keptNode child ++ keptBelow parent rest
end

def keptCalls (tree : List Traced) : List Call := tree.flatMap keptNode

mutual
theorem hoist_node_kept (tree : Traced) : (preorder (hoistNode tree)).map Record.toCall = keptNode tree := by
  cases tree with
  | node record children => rw [hoistNode, preorder, List.map_cons, hoist_children_kept, keptNode]
theorem hoist_children_kept (parent : Record) (children : List Traced) :
    (forestPreorder (hoistChildren parent children)).map Record.toCall = keptBelow parent children := by
  cases children with
  | nil => rfl
  | cons child rest =>
    rw [hoistChildren, keptBelow]
    by_cases event : isEventCall parent child.label = true
    · rw [if_pos event, if_pos event, hoist_children_kept]
    · rw [if_neg event, if_neg event, forestPreorder, List.map_append, hoist_node_kept, hoist_children_kept]
end

theorem hoist_kept (forest : List Traced) :
    (forestPreorder (hoistCpiEvents forest)).map Record.toCall = keptCalls forest := by
  induction forest with
  | nil => rfl
  | cons tree rest ih =>
    rw [hoistCpiEvents, List.map_cons, forestPreorder, List.map_append, hoist_node_kept, keptCalls, List.flatMap_cons]
    rw [hoistCpiEvents] at ih
    rw [ih]
    rfl

theorem event_call_distributed (left right : Record) (same : left.toCall = right.toCall) (child : Traced)
    (found : List Enrichment) : isEventCall left (distributeNode child found).1.label = isEventCall right child.label := by
  cases child with
  | node record children => rw [isEventCall, isEventCall, same]; rfl

mutual
theorem distribute_node_kept (tree : Traced) (found : List Enrichment) :
    keptNode (distributeNode tree found).1 = keptNode tree := by
  cases tree with
  | node record children =>
    have below := distribute_kept { record with toEnrichment := found.headD {} } record rfl children found.tail
    simp only [distributeNode, keptNode, below]
theorem distribute_kept (left right : Record) (same : left.toCall = right.toCall) (children : List Traced)
    (found : List Enrichment) : keptBelow left (distribute children found).1 = keptBelow right children := by
  cases children with
  | nil => rfl
  | cons child rest =>
    rw [distribute, keptBelow, keptBelow, event_call_distributed left right same, distribute_node_kept,
      distribute_kept left right same rest]
end

theorem distribute_calls_kept (forest : List Traced) (found : List Enrichment) :
    keptCalls (distribute forest found).1 = keptCalls forest := by
  induction forest generalizing found with
  | nil => rfl
  | cons tree rest ih =>
    have others := ih (distributeNode tree found).2
    rw [keptCalls, keptCalls] at others
    rw [distribute, keptCalls, keptCalls, List.flatMap_cons, List.flatMap_cons, distribute_node_kept, others]

theorem built_calls (message : Message) (innerInstructions : List (List InnerInstruction)) (logs : List Text) :
    (forestPreorder (buildCallTree message innerInstructions logs)).map Record.toCall =
      keptCalls (callTree message innerInstructions) := by
  rw [buildCallTree, hoist_kept, attach_logs_reached, distribute_calls_kept]

def lastInvocation (tree : List Traced) (programId : Address) : Option Call :=
  ((keptCalls tree).filter fun callee => callee.programId = programId).getLast?

theorem return_candidate_last (message : Message) (innerInstructions : List (List InnerInstruction)) (logs : List Text)
    (programId : Address) : returnCandidate (buildCallTree message innerInstructions logs) programId =
      (lastInvocation (callTree message innerInstructions) programId).map Call.data := by
  rw [returnCandidate, candidate_walk, built_calls, Option.or_none]
  rfl

def decodedFor (registry : Registry) (env : Env) (callee : Call) (raw : Bytes) : Except ReturnDataError Value :=
  decodeReturnValue registry env callee.programId.text (some callee.data) raw

def AttributedTo (registry : Registry) (env : Env) (setter : Call) (raw : Bytes) :
    Except ReturnDataError (Option Value) → Prop
  | .error _ => True
  | .ok none => False
  | .ok (some value) => decodedFor registry env setter raw = .ok value

theorem last_invocation_program (tree : List Traced) (programId : Address) (last : Call)
    (isLast : lastInvocation tree programId = some last) : last.programId = programId := by
  have inside := List.mem_of_getLast? isLast
  simpa using (List.mem_filter.mp inside).2

theorem not_attributed (registry : Registry) (env : Env) (programId : Text) (raw : Bytes) :
    ∃ error, decodeReturnValue registry env programId none raw = .error error := by
  rw [decodeReturnValue]
  cases registry.lookup programId with
  | none => exact ⟨_, rfl⟩
  | some iface => exact ⟨_, rfl⟩

theorem return_value_last (registry : Registry) (env : Env) (message : Message)
    (innerInstructions : List (List InnerInstruction)) (logs : List Text) (programId : Address) (raw : Bytes)
    (nonempty : raw ≠ []) (last : Call) (isLast : lastInvocation (callTree message innerInstructions) programId = some last) :
    (txResult message innerInstructions logs programId raw).returnValue registry env =
      (decodedFor registry env last raw).map some := by
  rw [txResult, splitReturnData, if_neg nonempty, TransactionResult.returnValue]
  simp only [return_candidate_last, isLast, Option.map_some]
  rw [decodedFor, last_invocation_program _ _ last isLast]

-- A program whose outer instruction returns a u8 and whose inner one an i8. The
-- outer one calls the inner one, then sets the return data.
def outerInstruction : InstructionDef :=
  ⟨['o'], [1], [], fun _ _ => .ok [], some (makeReturnsDecoder (.int 1 false))⟩

def innerInstruction : InstructionDef :=
  ⟨['i'], [2], [], fun _ _ => .ok [], some (makeReturnsDecoder (.int 1 true))⟩

def selfCalling : ProgramInterface := ⟨(Address.fill 7).text, ['p'], [outerInstruction, innerInstruction], []⟩

def selfRegistry : Registry := register [] selfCalling

def selfMessage (discriminator : UInt8) : Message where
  staticAccountKeys := [.fill 7]
  instructions := [⟨0, [], [discriminator]⟩]
  addressTableLookups := []
  isSigner := fun _ => false
  isMaybeWritable := fun _ => false

def selfInner : List (List InnerInstruction) := [[⟨⟨0, [], [2]⟩, 2⟩]]

def selfRun : Run :=
  ⟨[.frame ⟨.fill 7, [], [1], 1⟩ (.call ⟨.fill 7, [], [2], 2⟩ .done succeeded (.own (.ret (.fill 7) [255]) .done)) succeeded], []⟩

def outerCall : Call := ⟨.fill 7, [], [1], 1⟩

end WakeSol.Interface
