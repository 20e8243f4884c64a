import WakeSol.Trace.Tree

set_option autoImplicit false

namespace WakeSol.Trace

open TextLib RadixLib RoseLib

-- The fixed words of the log format. They are spelled out as characters, so
-- that a rewrite never has to decode a string literal.
def programKey : Text := ['P', 'r', 'o', 'g', 'r', 'a', 'm', ' ']
def returnKey : Text := programKey ++ ['r', 'e', 't', 'u', 'r', 'n', ':', ' ']
def dataKey : Text := programKey ++ ['d', 'a', 't', 'a', ':', ' ']
def logKey : Text := programKey ++ ['l', 'o', 'g', ':', ' ']
def invokeWord : Text := ['i', 'n', 'v', 'o', 'k', 'e']
def consumedWord : Text := ['c', 'o', 'n', 's', 'u', 'm', 'e', 'd']
def successWord : Text := ['s', 'u', 'c', 'c', 'e', 's', 's']
def failedWord : Text := ['f', 'a', 'i', 'l', 'e', 'd', ':']

inductive Verb where
  | invoke
  | consumed
  | success
  | failed
deriving DecidableEq, Repr

def verbOf (word : Text) : Option Verb :=
  if word = invokeWord then some .invoke
  else if word = consumedWord then some .consumed
  else if word = successWord then some .success
  else if word = failedWord then some .failed
  else none

def markerVerb (l : Text) : Option (Text × Verb) :=
  if programKey.isPrefixOf l then
    match splitWhitespace l with
    | _ :: pid :: rest => (verbOf (rest.headD [])).map fun verb => (pid, verb)
    | _ => none
  else none

def isPrecompilePid (pid : Text) : Bool :=
  pid == "Ed25519SigVerify111111111111111111111111111".toList ||
    pid == "KeccakSecp256k11111111111111111111111111111".toList ||
    pid == "Secp256r1SigVerify1111111111111111111111111".toList

def consumedUnits : List Text → Option Nat
  | [] => none
  | token :: rest =>
    if token = consumedWord then (rest.head?).bind (parseUnsigned 64) else consumedUnits rest

def parseConsumed (l : Text) : Option Nat := consumedUnits (splitWhitespace l)

-- How the loop reads one line. The reading never depends on the loop's state,
-- so it is a function of the line alone; the branches come in source order.
inductive LogLine where
  | blank
  | ret (rest : Text)
  | data (rest : Text)
  | invoke (pid : Text)
  | consumed (pid : Text) (units : Option Nat)
  | success (pid : Text)
  | failed (pid : Text) (message : Option Text)
  | message (text : Text)
deriving DecidableEq

def readMarker (l pid : Text) : Verb → LogLine
  | .invoke => .invoke pid
  | .consumed => .consumed pid (parseConsumed l)
  | .success => .success pid
  | .failed => .failed pid ((splitOnce (failedWord ++ [' ']) l).map fun pair => trim pair.2)

def readTrimmed (l : Text) : LogLine :=
  if l = [] then .blank
  else match stripPrefix returnKey l with
    | some rest => .ret rest
    | none =>
      match stripPrefix dataKey l with
      | some rest => .data rest
      | none =>
        match markerVerb l with
        | some (pid, verb) => readMarker l pid verb
        | none => .message ((stripPrefix logKey l).getD l)

def readLine (raw : Text) : LogLine := readTrimmed (trim raw)

-- The parallel vectors of the source are one list of records, indexed by the
-- pre-order position of the node; the stack of open frames is top first.
structure Attach where
  nodes : List Enrichment
  stack : List Nat
  next : Nat
  aligned : Bool
deriving DecidableEq

def Attach.updateTop (state : Attach) (f : Enrichment → Enrichment) : Attach :=
  match state.stack with
  | [] => state
  | idx :: _ => { state with nodes := state.nodes.modify idx f }

def Attach.closeTop (state : Attach) (f : Enrichment → Enrichment) : Attach :=
  { state.updateTop f with stack := state.stack.tail }

def skipPrecompiles (pids : List Text) (next : Nat) : Nat :=
  next + ((pids.drop next).takeWhile isPrecompilePid).length

def openFrame (pids : List Text) (state : Attach) (pid : Text) : Attach :=
  let next := skipPrecompiles pids state.next
  if pids[next]? = some pid then { state with stack := next :: state.stack, next := next + 1 }
  else { state with next := next, aligned := false }

def stepLine (pids : List Text) (state : Attach) : LogLine → Attach
  | .blank => state
  | .ret rest =>
    if state.aligned then
      match (splitOnce [' '] rest).bind fun pair => decode64 (trim pair.2) with
      | some bytes => state.updateTop fun e => { e with returnData := some bytes }
      | none => state
    else state
  | .data rest =>
    if state.aligned then
      match decode64 ((splitWhitespace rest).headD []) with
      | some bytes => state.updateTop fun e => { e with eventData := e.eventData ++ [bytes] }
      | none => state
    else state
  | .invoke pid => if state.aligned then openFrame pids state pid else state
  | .consumed _ units =>
    if state.aligned then state.updateTop fun e => { e with computeUnits := units } else state
  | .success _ =>
    if state.aligned then state.closeTop fun e => { e with status := .success } else state
  | .failed _ message =>
    if state.aligned then state.closeTop fun e => { e with status := .failed, errorMsg := message } else state
  | .message text => state.updateTop fun e => { e with logs := e.logs ++ [text] }

def attachStep (pids : List Text) (state : Attach) (raw : Text) : Attach := stepLine pids state (readLine raw)

def attachRun (pids : List Text) (state : Attach) (logs : List Text) : Attach := logs.foldl (attachStep pids) state

def attachInit (n : Nat) : Attach := ⟨List.replicate n {}, [], 0, true⟩

mutual
def distributeNode : Traced → List Enrichment → Traced × List Enrichment
  | .node record children, found =>
    let result := distribute children found.tail
    (.node { record with toEnrichment := found.headD {} } result.1, result.2)
def distribute : List Traced → List Enrichment → List Traced × List Enrichment
  | [], found => ([], found)
  | tree :: rest, found =>
    let first := distributeNode tree found
    let others := distribute rest first.2
    (first.1 :: others.1, others.2)
end

def collectPids (tree : List Traced) : List Text := (forestPreorder tree).map fun record => record.programId.text

def attachLogs (tree : List Traced) (logs : List Text) : List Traced :=
  let pids := collectPids tree
  if pids = [] then tree else (distribute tree (attachRun pids (attachInit pids.length) logs).nodes).1

mutual
theorem distribute_node_calls (tree : Traced) (found : List Enrichment) :
    (preorder (distributeNode tree found).1).map Record.toCall = (preorder tree).map Record.toCall := by
  cases tree with
  | node record children =>
    simp only [distributeNode, preorder, List.map_cons, distribute_calls children found.tail]
theorem distribute_calls (forest : List Traced) (found : List Enrichment) :
    (forestPreorder (distribute forest found).1).map Record.toCall = (forestPreorder forest).map Record.toCall := by
  cases forest with
  | nil => rfl
  | cons tree rest =>
    simp only [distribute, forestPreorder, List.map_append, distribute_node_calls tree found, distribute_calls rest]
end

theorem distribute_node_length (tree : Traced) (found : List Enrichment) :
    (preorder (distributeNode tree found).1).length = (preorder tree).length := by
  simpa using congrArg List.length (distribute_node_calls tree found)

mutual
theorem distribute_node_recovers (tree : Traced) (found : List Enrichment)
    (enough : (preorder tree).length ≤ found.length) :
    (preorder (distributeNode tree found).1).map Record.toEnrichment ++ (distributeNode tree found).2 = found := by
  cases tree with
  | node record children =>
    cases found with
    | nil => simp [preorder] at enough
    | cons e rest =>
      have inside := distribute_recovers children rest (by simpa [preorder] using enough)
      simp [distributeNode, preorder, inside]
theorem distribute_recovers (forest : List Traced) (found : List Enrichment)
    (enough : (forestPreorder forest).length ≤ found.length) :
    (forestPreorder (distribute forest found).1).map Record.toEnrichment ++ (distribute forest found).2 = found := by
  cases forest with
  | nil => rfl
  | cons tree rest =>
    rw [forestPreorder, List.length_append] at enough
    have first := distribute_node_recovers tree found (by omega)
    have lengths := congrArg List.length first
    rw [List.length_append, List.length_map, distribute_node_length] at lengths
    have others := distribute_recovers rest (distributeNode tree found).2 (by omega)
    simp only [distribute, forestPreorder, List.map_append, List.append_assoc, others, first]
end

theorem distribute_enrichments (forest : List Traced) (found : List Enrichment)
    (size : found.length = (forestPreorder forest).length) :
    (forestPreorder (distribute forest found).1).map Record.toEnrichment = found := by
  have recovered := distribute_recovers forest found (Nat.le_of_eq size.symm)
  have lengths := congrArg List.length recovered
  have calls := congrArg List.length (distribute_calls forest found)
  rw [List.length_map, List.length_map] at calls
  rw [List.length_append, List.length_map, calls, size] at lengths
  have spent : (distribute forest found).2 = [] := List.length_eq_zero_iff.mp (by omega)
  rwa [spent, List.append_nil] at recovered

theorem distribute_injective (forest : List Traced) (left right : List Enrichment)
    (leftSize : left.length = (forestPreorder forest).length) (rightSize : right.length = (forestPreorder forest).length)
    (same : (distribute forest left).1 = (distribute forest right).1) : left = right := by
  rw [← distribute_enrichments forest left leftSize, ← distribute_enrichments forest right rightSize, same]

mutual
theorem distribute_node_twice (tree : Traced) (found again : List Enrichment) :
    distributeNode (distributeNode tree found).1 again = distributeNode tree again := by
  cases tree with
  | node record children => simp only [distributeNode, distribute_twice children]
theorem distribute_twice (forest : List Traced) (found again : List Enrichment) :
    distribute (distribute forest found).1 again = distribute forest again := by
  cases forest with
  | nil => rfl
  | cons tree rest => simp only [distribute, distribute_node_twice tree, distribute_twice rest]
end

end WakeSol.Trace
