import WakeSol.Trace.Loop
import Mathlib.Data.List.Forall2

set_option autoImplicit false

namespace WakeSol.Trace

open TextLib RadixLib RoseLib

def anchorEventCpiTag : Bytes := [0xe4, 0x45, 0xa5, 0x2e, 0x51, 0xcb, 0x9a, 0x1d]

def isEventCall (parent child : Record) : Bool :=
  child.programId == parent.programId && 16 ≤ child.data.length && child.data.take 8 == anchorEventCpiTag

def hoistedEvents (parent : Record) (children : List Traced) : List Bytes :=
  (children.filter fun child => isEventCall parent child.label).map fun child => child.label.data.drop 8

mutual
def hoistNode : Traced → Traced
  | .node record children =>
    .node { record with eventData := record.eventData ++ hoistedEvents record children } (hoistChildren record children)
def hoistChildren (parent : Record) : List Traced → List Traced
  | [] => []
  | child :: rest =>
    if isEventCall parent child.label then hoistChildren parent rest
    else hoistNode child :: hoistChildren parent rest
end

def hoistCpiEvents (nodes : List Traced) : List Traced := nodes.map hoistNode

def buildCallTree (message : Message) (innerInstructions : List (List InnerInstruction)) (logs : List Text) : List Traced :=
  hoistCpiEvents (attachLogs (callTree message innerInstructions) logs)

def executed (message : Message) (innerInstructions : List (List InnerInstruction)) : List InnerInstruction :=
  (message.instructions.mapIdx fun i ci => ⟨ci, 1⟩ :: innerInstructions.getD i []).flatten

def loadIndexes (addresses : List Address) (indexes : List UInt8) : Option (List Address) :=
  indexes.mapM fun index => addresses[index.toNat]?

def loadAddresses (tables : Address → Option (List Address)) (lookups : List TableLookup)
    (side : TableLookup → List UInt8) : Option (List Address) :=
  (lookups.mapM fun lookup => (tables lookup.accountKey).bind fun addresses => loadIndexes addresses (side lookup)).map
    List.flatten

def accountKeys (tables : Address → Option (List Address)) (message : Message) : Option (List Address) :=
  (loadAddresses tables message.addressTableLookups TableLookup.writableIndexes).bind fun writable =>
    (loadAddresses tables message.addressTableLookups TableLookup.readonlyIndexes).map fun readonly =>
      message.staticAccountKeys ++ (writable ++ readonly)

def EntryAt (keys : List Address) (index : UInt8) (address : Address) : Prop :=
  ∀ entry, keys[index.toNat]? = some entry → address = entry

structure Resolved (keys : List Address) (ci : CompiledInstruction) (call : Call) : Prop where
  program : EntryAt keys ci.programIdIndex call.programId
  accounts : List.Forall₂ (fun index account => EntryAt keys index account.1) ci.accounts call.accounts

def CallsResolved (keys : List Address) (message : Message) (innerInstructions : List (List InnerInstruction))
    (logs : List Text) : Prop :=
  List.Forall₂ (Resolved keys) ((executed message innerInstructions).map InnerInstruction.instruction)
    ((forestPreorder (attachLogs (callTree message innerInstructions) logs)).map Record.toCall)

def StaticIndexes (keys : List Address) (message : Message) (innerInstructions : List (List InnerInstruction)) : Prop :=
  ∀ entry ∈ executed message innerInstructions,
    ∀ index ∈ entry.instruction.programIdIndex :: entry.instruction.accounts,
      ∀ address, keys[index.toNat]? = some address →
        index.toNat < message.staticAccountKeys.length ∨ address = Address.zero

theorem forest_preorder_flatten (forest : List Traced) : forestPreorder forest = (forest.map preorder).flatten := by
  induction forest with
  | nil => rfl
  | cons tree rest ih => rw [forestPreorder, ih, List.map_cons, List.flatten_cons]

theorem nest_at_preorder (message : Message) (innerInstructions : List (List InnerInstruction)) (i : Nat)
    (ci : CompiledInstruction) : preorder (nestAt message innerInstructions i ci) =
      (⟨ci, 1⟩ :: innerInstructions.getD i [] : List InnerInstruction).map fun entry =>
        resolve entry.instruction message.staticAccountKeys message entry.stackHeight := by
  rw [nestAt, List.getD_eq_getElem?_getD]
  cases innerInstructions[i]? with
  | none => rfl
  | some inner =>
    cases inner with
    | nil => rfl
    | cons entry rest =>
      simp only [nest_preorder]
      rfl

theorem call_tree_preorder (message : Message) (innerInstructions : List (List InnerInstruction)) :
    forestPreorder (callTree message innerInstructions) = (executed message innerInstructions).map fun entry =>
      resolve entry.instruction message.staticAccountKeys message entry.stackHeight := by
  rw [forest_preorder_flatten, callTree, executed, List.map_flatten]
  simp only [List.mapIdx_eq_zipIdx_map, List.map_map, Function.comp_def, nest_at_preorder]

theorem attached_calls (tree : List Traced) (logs : List Text) :
    (forestPreorder (attachLogs tree logs)).map Record.toCall = (forestPreorder tree).map Record.toCall := by
  rw [attach_logs_reached, distribute_calls]

mutual
theorem hoist_node_calls (tree : Traced) :
    List.Sublist ((preorder (hoistNode tree)).map Record.toCall) ((preorder tree).map Record.toCall) := by
  cases tree with
  | node record children =>
    simp only [hoistNode, preorder, List.map_cons]
    exact (hoist_children_calls record children).cons_cons _
theorem hoist_children_calls (parent : Record) (children : List Traced) :
    List.Sublist ((forestPreorder (hoistChildren parent children)).map Record.toCall)
      ((forestPreorder children).map Record.toCall) := by
  cases children with
  | nil => exact List.Sublist.refl _
  | cons child rest =>
    rw [hoistChildren, forestPreorder, List.map_append]
    by_cases event : isEventCall parent child.label = true
    · rw [if_pos event]
      exact (hoist_children_calls parent rest).trans (List.sublist_append_right _ _)
    · rw [if_neg event, forestPreorder, List.map_append]
      exact (hoist_node_calls child).append (hoist_children_calls parent rest)
end

theorem hoist_calls (forest : List Traced) :
    List.Sublist ((forestPreorder (hoistCpiEvents forest)).map Record.toCall) ((forestPreorder forest).map Record.toCall) := by
  induction forest with
  | nil => exact List.Sublist.refl _
  | cons tree rest ih =>
    simp only [hoistCpiEvents, List.map_cons, forestPreorder, List.map_append]
    exact (hoist_node_calls tree).append ih

theorem resolved_entry (static loaded : List Address) (index : UInt8) :
    EntryAt (static ++ loaded) index ((static[index.toNat]?).getD Address.zero) ↔
      ∀ address, (static ++ loaded)[index.toNat]? = some address → index.toNat < static.length ∨ address = Address.zero := by
  by_cases inside : index.toNat < static.length
  · refine ⟨fun _ address _ => Or.inl inside, fun _ entry found => ?_⟩
    rw [List.getElem?_append_left inside] at found
    rw [found]
    rfl
  · have missing : static[index.toNat]? = none := List.getElem?_eq_none (Nat.le_of_not_lt inside)
    rw [missing]
    constructor
    · intro entry address found
      exact Or.inr (entry address found).symm
    · intro loadedZero entry found
      exact ((loadedZero entry found).resolve_left inside).symm

theorem resolve_account_address (keys : List Address) (message : Message) (index : UInt8) :
    (resolveAccount keys message index).1 = (keys[index.toNat]?).getD Address.zero := by
  rw [resolveAccount]
  cases keys[index.toNat]? with
  | none => rfl
  | some pubkey => rfl

theorem resolve_resolved (static loaded : List Address) (message : Message) (ci : CompiledInstruction) (height : Nat) :
    Resolved (static ++ loaded) ci (resolve ci static message height).toCall ↔
      ∀ index ∈ ci.programIdIndex :: ci.accounts,
        ∀ address, (static ++ loaded)[index.toNat]? = some address → index.toNat < static.length ∨ address = Address.zero := by
  have accounts : List.Forall₂ (fun index account => EntryAt (static ++ loaded) index account.1) ci.accounts
      (resolve ci static message height).accounts ↔ ∀ index ∈ ci.accounts,
        EntryAt (static ++ loaded) index ((static[index.toNat]?).getD Address.zero) := by
    simp only [resolve, List.forall₂_map_right_iff, List.forall₂_same, resolve_account_address]
  rw [List.forall_mem_cons, ← resolved_entry]
  constructor
  · intro resolved
    refine ⟨resolved.program, fun index member => ?_⟩
    rw [← resolved_entry]
    exact accounts.mp resolved.accounts index member
  · rintro ⟨program, others⟩
    refine ⟨program, accounts.mpr fun index member => ?_⟩
    rw [resolved_entry]
    exact others index member

theorem calls_resolved_static (message : Message) (innerInstructions : List (List InnerInstruction)) (logs : List Text)
    (loaded : List Address) : CallsResolved (message.staticAccountKeys ++ loaded) message innerInstructions logs ↔
      StaticIndexes (message.staticAccountKeys ++ loaded) message innerInstructions := by
  rw [CallsResolved, attached_calls, call_tree_preorder, List.map_map, List.forall₂_map_left_iff,
    List.forall₂_map_right_iff, List.forall₂_same]
  constructor
  · intro resolved entry member
    exact (resolve_resolved _ _ message _ _).mp (resolved entry member)
  · intro static entry member
    exact (resolve_resolved _ _ message _ _).mpr (static entry member)

theorem no_lookups (tables : Address → Option (List Address)) (side : TableLookup → List UInt8) :
    loadAddresses tables [] side = some [] := rfl

theorem calls_resolved_iff (tables : Address → Option (List Address)) (message : Message)
    (innerInstructions : List (List InnerInstruction)) (logs : List Text) (keys : List Address)
    (loaded : accountKeys tables message = some keys) :
    (CallsResolved keys message innerInstructions logs ↔ StaticIndexes keys message innerInstructions) ∧
      (message.addressTableLookups = [] → CallsResolved keys message innerInstructions logs) ∧
      List.Sublist ((forestPreorder (buildCallTree message innerInstructions logs)).map Record.toCall)
        ((forestPreorder (attachLogs (callTree message innerInstructions) logs)).map Record.toCall) := by
  obtain ⟨writable, loadedWritable, rest⟩ := Option.bind_eq_some_iff.mp loaded
  obtain ⟨readonly, loadedReadonly, rfl⟩ := Option.map_eq_some_iff.mp rest
  have resolvedIff := calls_resolved_static message innerInstructions logs (writable ++ readonly)
  refine ⟨resolvedIff, fun legacy => resolvedIff.mpr ?_, hoist_calls _⟩
  rw [legacy, no_lookups] at loadedWritable loadedReadonly
  intro entry _ index _ address found
  rw [← Option.some.inj loadedWritable, ← Option.some.inj loadedReadonly, List.append_nil, List.append_nil] at found
  exact Or.inl (List.getElem?_eq_some_iff.mp found).1

def tableAddress : Address := .fill 9

def lookupTables (key : Address) : Option (List Address) := if key = tableAddress then some [.fill 7] else none

def lookupMessage : Message where
  staticAccountKeys := [.fill 1, .fill 2]
  instructions := [⟨1, [0, 2], []⟩]
  addressTableLookups := [⟨tableAddress, [0], []⟩]
  isSigner := fun i => i == 0
  isMaybeWritable := fun i => i == 0

theorem static_call_resolved : accountKeys lookupTables { lookupMessage with instructions := [⟨1, [0], []⟩] } =
      some [.fill 1, .fill 2, .fill 7] ∧
    CallsResolved [.fill 1, .fill 2, .fill 7] { lookupMessage with instructions := [⟨1, [0], []⟩] } [] [] := by
  have loaded : accountKeys lookupTables { lookupMessage with instructions := [⟨1, [0], []⟩] } =
      some [.fill 1, .fill 2, .fill 7] := by decide
  refine ⟨loaded, (calls_resolved_iff lookupTables _ [] [] _ loaded).1.mpr ?_⟩
  intro entry member index used address _
  have only : entry = ⟨⟨1, [0], []⟩, 1⟩ := by simpa [executed] using member
  subst only
  have small : index = 1 ∨ index = 0 := by simpa using used
  rcases small with rfl | rfl
  · exact Or.inl (by decide)
  · exact Or.inl (by decide)

theorem lookup_account_lost : accountKeys lookupTables lookupMessage = some [.fill 1, .fill 2, .fill 7] ∧
    ¬ CallsResolved [.fill 1, .fill 2, .fill 7] lookupMessage [] [] ∧
    (forestPreorder (buildCallTree lookupMessage [] [])).map (fun record => record.accounts.map Prod.fst) =
      [[.fill 1, Address.zero]] := by
  refine ⟨by decide, ?_, by decide +kernel⟩
  intro resolved
  have static := (calls_resolved_static lookupMessage [] [] [.fill 7]).mp resolved
  rcases static ⟨⟨1, [0, 2], []⟩, 1⟩ (by decide) 2 (by decide) (.fill 7) (by decide) with inside | zero
  · exact absurd inside (by decide)
  · exact absurd zero (by decide)

end WakeSol.Trace
