import WakeSol.Codec.Read

/- The decoder over the cursor as the code has it: the whole buffer, a position
   and a depth. The run keeps what it did to the cursor, also when it raises, and
   it is given fuel: none is a recursion that has not ended yet. -/
set_option autoImplicit false

namespace WakeSol.Codec

open TextLib RadixLib EndianLib WireLib

inductive Move where
  | took (start count : Nat)
  | entered (depth : Nat)
  | counted (n left : Nat)
deriving DecidableEq

structure Machine where
  buf : Bytes
  pos : Nat
  depth : Nat
  moves : List Move
deriving DecidableEq

abbrev Run := ExceptT Raised (StateT Machine Option)

def starved {α : Type} : Run α := fun _ => none

def Machine.remaining (m : Machine) : Int := m.buf.length - m.pos

def record (move : Move) : Run Unit := fun m => some (.ok (), { m with moves := m.moves ++ [move] })

-- A slice past the end of the buffer is cut off there.
def runTake (n : Int) (path : Path) : Run Bytes := fun m =>
  if n < 0 ∨ n > m.remaining then some (.error (.borshError (.need n m.remaining.toNat) m.pos path), m)
  else
    let after := { m with pos := m.pos + n.toNat, moves := m.moves ++ [.took m.pos n.toNat] }
    some (.ok ((m.buf.drop m.pos).take n.toNat), after)

def runByte (path : Path) : Run UInt8 := do return (← runTake 1 path).headD 0

def runRefuse {α : Type} (complaint : Complaint) (back : Nat) (path : Path) : Run α :=
  fun m => some (.error (.borshError complaint (m.pos - back) path), m)

-- The depth is taken back on the way out, whether the body returns or raises.
def runDescend {α : Type} (path : Path) (body : Run α) : Run α := fun m =>
  if m.depth + 1 > maxDecodeDepth then
    some (.error (.borshError (.tooDeep maxDecodeDepth) m.pos path), { m with depth := m.depth + 1 })
  else
    match body { m with depth := m.depth + 1, moves := m.moves ++ [.entered (m.depth + 1)] } with
    | none => none
    | some (result, after) => some (result, { after with depth := after.depth - 1 })

def runRemaining : Run Nat := fun m => some (.ok m.remaining.toNat, m)

def runSeqLen (minElem : Int) (path : Path) : Run Nat := do
  let raw ← runTake 4 path
  let left ← runRemaining
  if leNat raw > left then runRefuse (.lengthExceeds (leNat raw) left) 4 path
  else if 0 < minElem ∧ (leNat raw : Int) > left / minElem then
    runRefuse (.lengthExceedsFloor (leNat raw) left minElem) 4 path
  else
    record (.counted (leNat raw) left)
    return leNat raw

abbrev NodeRun := Node → Path → Run Value

def runInt (width : Nat) (signed : Bool) (path : Path) : Run Value := do
  return .int (decodeInt signed (← runTake width path))

def runFloat (width : Nat) (path : Path) : Run Value := do
  let bits ← runTake width path
  if isNaN bits then runRefuse .nan width path else return .float bits

def runBool (path : Path) : Run Value := do
  let byte ← runByte path
  if byte = 0 ∨ byte = 1 then return .bool (byte = 1) else runRefuse (.boolByte byte) 1 path

def runStr (path : Path) : Run Value := do
  let n ← runSeqLen 1 path
  let raw ← runTake n path
  match utf8Decode raw with
  | some s => return .str s
  | none => runRefuse (.invalidUtf8 raw) n path

def runBytes (path : Path) : Run Value := do
  let n ← runSeqLen 1 path
  return .bytes (← runTake n path)

def runFixedBytes (n : Int) (path : Path) : Run Value := do return .bytes (← runTake n path)

def runPubkey (path : Path) : Run Value := do
  let raw ← runTake 32 path
  match addressOf raw with
  | .ok key => return .pubkey key
  | .error e => throw e

def runOption (wrap : Value → Value) (inner : Node) (path : Path) (next : NodeRun) : Run Value := do
  let tag ← runByte path
  if tag = 0 then return .none
  else if tag = 1 then return wrap (← next inner path)
  else runRefuse (.optionTag tag) 1 path

def runItems (elem : Node) (n : Nat) (path : Path) (next : NodeRun) : Run Value := do
  return .list (← (List.range n).mapM fun i => next elem (path ++ [.index i]))

def runVec (floor : Option Int) (elem : Node) (path : Path) (next : NodeRun) : Run Value :=
  match floor with
  | none => starved
  | some minElem => do
      let n ← runSeqLen minElem path
      runItems elem n path next

def runStruct (cls : Name) (fields : Fields) (path : Path) (next : NodeRun) : Run Value := do
  let values ← fields.entries.mapM fun (name, node) => next node (path ++ [.field name])
  return .object (.plain cls) fields.names values

def runIntEnum (cls : Name) (members : List Nat) (path : Path) : Run Value := do
  let tag ← runByte path
  if tag.toNat ∈ members then return .member cls tag.toNat else runRefuse (.enumTag tag cls) 1 path

def runBorshEnum (cls : Name) (variants : Variants) (path : Path) (next : NodeRun) : Run Value := do
  let tag ← runByte path
  match variants.find tag.toNat with
  | none => runRefuse (.noVariant tag cls) 1 path
  | some variant =>
    let values ← variant.fields.entries.mapM fun (_, node) => next node (path ++ [.field variant.name])
    return .object (.variant cls tag.toNat variant.name) variant.fields.names values

def runClass (env : Env) (cls : Name) (path : Path) (next : NodeRun) : Run Value :=
  match env.lookup cls with
  | none => throw .keyError
  | some (.struct fields) => runStruct cls fields path next
  | some (.intEnum members) => runIntEnum cls members path
  | some (.borshEnum variants) => runBorshEnum cls variants path next

def runMinNode (minRef : List Node → Name → Option Int) : Node → List Node → Option Int
  | .fixedArray elem n, stack =>
    if .fixedArray elem n ∈ stack then some 0
    else (runMinNode minRef elem (stack ++ [.fixedArray elem n])).map (n * ·)
  | .ref cls, stack => minRef stack cls
  | node, stack => some (minNode (fun _ _ => 0) node stack)

def runMinFields (next : Node → List Node → Option Int) (stack : List Node) (fields : Fields) : Option Int :=
  (fields.nodes.mapM fun node => next node stack).map List.sum

def runMinClass (env : Env) (next : Node → List Node → Option Int) (stack : List Node) (cls : Name) : Option Int :=
  match env.lookup cls with
  | none => some 0
  | some (.intEnum _) => some 1
  | some (.struct fields) => if .ref cls ∈ stack then some 0 else runMinFields next (stack ++ [.ref cls]) fields
  | some (.borshEnum variants) =>
    if .ref cls ∈ stack then some 0
    else
      (variants.entries.mapM fun variant => runMinFields next (stack ++ [.ref cls]) variant.fields).map fun sizes =>
        match sizes.min? with
        | none => 1
        | some least => 1 + least

def runMin (env : Env) : Nat → Node → List Node → Option Int
  | 0 => fun _ _ => none
  | fuel + 1 => runMinNode (runMinClass env (runMin env fuel))

def runNode (env : Env) (fuel : Nat) (next : NodeRun) : NodeRun
  | .int width signed, path => runInt width signed path
  | .float width, path => runFloat width path
  | .bool, path => runBool path
  | .str, path => runStr path
  | .bytes, path => runBytes path
  | .fixedBytes n, path => runFixedBytes n path
  | .pubkey, path => runPubkey path
  | .option inner, path => runDescend path (runOption id inner path next)
  | .opt inner, path => runDescend path (runOption .opt inner path next)
  | .vec elem, path => runDescend path (runVec (runMin env fuel elem []) elem path next)
  | .fixedArray elem n, path => runDescend path (runItems elem n.toNat path next)
  | .ref cls, path => runDescend path (runClass env cls path next)

def runRead (env : Env) : Nat → NodeRun
  | 0 => fun _ _ => starved
  | fuel + 1 => runNode env fuel (runRead env fuel)

def runDecode (env : Env) (fuel : Nat) (raw : Bytes) (node : Node) (mode : Mode) : Option (Except Raised Value × Machine) :=
  match runRead env fuel node [] ⟨raw, 0, 0, []⟩ with
  | none => none
  | some (.error e, after) => some (.error e, after)
  | some (.ok value, after) =>
    if mode = .ixData ∧ after.pos ≠ raw.length then
      some (.error (.borshError (.trailing after.pos raw.length) after.pos []), after)
    else some (.ok value, after)

def Trail (size : Nat) : Nat → List Move → Nat → Prop
  | start, [], stop => start = stop ∧ stop ≤ size
  | start, .took position count :: rest, stop => position = start ∧ start + count ≤ size ∧ Trail size (start + count) rest stop
  | start, .entered depth :: rest, stop => depth ≤ maxDecodeDepth ∧ Trail size start rest stop
  | start, .counted n left :: rest, stop => left = size - start ∧ n ≤ left ∧ Trail size start rest stop

theorem trail_append (size start middle stop : Nat) (first second : List Move) (trailFirst : Trail size start first middle)
    (trailSecond : Trail size middle second stop) : Trail size start (first ++ second) stop := by
  induction first generalizing start with
  | nil =>
    obtain ⟨rfl, _⟩ := trailFirst
    exact trailSecond
  | cons move rest ih =>
    cases move with
    | took position count => exact ⟨trailFirst.1, trailFirst.2.1, ih _ trailFirst.2.2⟩
    | entered depth => exact ⟨trailFirst.1, ih _ trailFirst.2⟩
    | counted n left => exact ⟨trailFirst.1, trailFirst.2.1, ih _ trailFirst.2.2⟩

theorem trail_end (size start stop : Nat) (moves : List Move) (trail : Trail size start moves stop) :
    start ≤ stop ∧ stop ≤ size := by
  induction moves generalizing start with
  | nil => exact ⟨Nat.le_of_eq trail.1, trail.2⟩
  | cons move rest ih =>
    cases move with
    | took position count =>
      have later := ih _ trail.2.2
      omega
    | entered depth => exact ih _ trail.2
    | counted n left => exact ih _ trail.2.2

end WakeSol.Codec
