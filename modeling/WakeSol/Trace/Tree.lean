import WakeSol.Address
import WakeSol.Lib.Rose

set_option autoImplicit false

namespace WakeSol.Trace

open TextLib RadixLib RoseLib

inductive NodeStatus where
  | success
  | failed
  | unknown
deriving DecidableEq, Repr

-- What resolve fixes for one invocation: the accounts carry the signer and
-- writable flags of the message.
structure Call where
  programId : Address
  accounts : List (Address × Bool × Bool)
  data : Bytes
  stackHeight : Nat
deriving DecidableEq

-- What attach_logs recovers from the log stream. The initial value is what
-- resolve leaves in these fields.
structure Enrichment where
  logs : List Text := []
  computeUnits : Option Nat := none
  status : NodeStatus := .unknown
  errorMsg : Option Text := none
  returnData : Option Bytes := none
  eventData : List Bytes := []
deriving DecidableEq

structure Record extends Call, Enrichment
deriving DecidableEq

abbrev Traced := Rose Record

structure CompiledInstruction where
  programIdIndex : UInt8
  accounts : List UInt8
  data : Bytes
deriving DecidableEq

structure InnerInstruction where
  instruction : CompiledInstruction
  stackHeight : Nat
deriving DecidableEq

structure TableLookup where
  accountKey : Address
  writableIndexes : List UInt8
  readonlyIndexes : List UInt8
deriving DecidableEq

-- A legacy message has no lookups. The two privilege queries belong to the
-- message library; the tree only copies their answers.
structure Message where
  staticAccountKeys : List Address
  instructions : List CompiledInstruction
  addressTableLookups : List TableLookup
  isSigner : Nat → Bool
  isMaybeWritable : Nat → Bool

def resolveAccount (keys : List Address) (message : Message) (index : UInt8) : Address × Bool × Bool :=
  match keys[index.toNat]? with
  | some pubkey => (pubkey, message.isSigner index.toNat, message.isMaybeWritable index.toNat)
  | none => (Address.zero, false, false)

def resolve (ci : CompiledInstruction) (keys : List Address) (message : Message) (stackHeight : Nat) : Record where
  programId := (keys[ci.programIdIndex.toNat]?).getD Address.zero
  accounts := ci.accounts.map (resolveAccount keys message)
  data := ci.data
  stackHeight := stackHeight

-- The Vec of open nodes never becomes empty, so its top is a field of the path.
def nest (root : Traced) (inner : List InnerInstruction) (keys : List Address) (message : Message) : Traced :=
  (inner.foldl (fun stack entry =>
    let node := Rose.node (resolve entry.instruction keys message entry.stackHeight) []
    (stack.closeTo entry.stackHeight).open node) (OpenPath.mk root [])).collapse

def rootNode (message : Message) (ci : CompiledInstruction) : Traced :=
  .node (resolve ci message.staticAccountKeys message 1) []

def nestAt (message : Message) (innerInstructions : List (List InnerInstruction)) (i : Nat)
    (ci : CompiledInstruction) : Traced :=
  match innerInstructions[i]? with
  | some (entry :: rest) => nest (rootNode message ci) (entry :: rest) message.staticAccountKeys message
  | _ => rootNode message ci

def callTree (message : Message) (innerInstructions : List (List InnerInstruction)) : List Traced :=
  message.instructions.mapIdx (nestAt message innerInstructions)

def entryOf (keys : List Address) (message : Message) (entry : InnerInstruction) : Nat × Record :=
  (entry.stackHeight, resolve entry.instruction keys message entry.stackHeight)

theorem nest_rebuild (root : Traced) (inner : List InnerInstruction) (keys : List Address) (message : Message) :
    nest root inner keys message = rebuild root (inner.map (entryOf keys message)) := by
  rw [rebuild, List.foldl_map]
  rfl

-- The call tree an execution really had, as instructions only; its descendants
-- reach the harness flattened, each with the depth it ran at.
abbrev Execution := Rose CompiledInstruction

def descendants (tree : Execution) : List InnerInstruction :=
  (forestTagged 2 tree.children).map fun pair => ⟨pair.2, pair.1⟩

def resolveTree (keys : List Address) (message : Message) (tree : Execution) : Traced :=
  mapDepth (fun depth ci => resolve ci keys message depth) 1 tree

theorem nest_descendants (tree : Execution) (keys : List Address) (message : Message) :
    nest (.node (resolve tree.label keys message 1) []) (descendants tree) keys message =
      resolveTree keys message tree := by
  cases tree with
  | node label children =>
    have entries : (descendants (.node label children)).map (entryOf keys message) =
        forestTagged 2 (forestMapDepth (fun depth ci => resolve ci keys message depth) 2 children) := by
      rw [forest_tagged_map_depth, descendants, List.map_map]
      rfl
    rw [nest_rebuild, entries, rebuild_tagged]
    rfl

theorem nest_preorder (root : Traced) (inner : List InnerInstruction) (keys : List Address) (message : Message) :
    preorder (nest root inner keys message) =
      preorder root ++ inner.map fun entry => resolve entry.instruction keys message entry.stackHeight := by
  rw [nest_rebuild, rebuild_preorder, List.map_map]
  rfl

theorem nest_reconstructs (keys : List Address) (message : Message) :
    (∀ tree : Execution, nest (.node (resolve tree.label keys message 1) []) (descendants tree) keys message =
      resolveTree keys message tree) ∧
    (∀ (root : Traced) (inner : List InnerInstruction), preorder (nest root inner keys message) =
      preorder root ++ inner.map fun entry => resolve entry.instruction keys message entry.stackHeight) :=
  ⟨fun tree => nest_descendants tree keys message, fun root inner => nest_preorder root inner keys message⟩

end WakeSol.Trace
