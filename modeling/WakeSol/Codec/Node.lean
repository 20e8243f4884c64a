import WakeSol.Codec.Value

/- The compiled layout of a type and its two directions. A defined type is a
   reference by class name into the table of compiled classes, so that the table
   may be cyclic. -/
set_option autoImplicit false

namespace WakeSol.Codec

open TextLib RadixLib EndianLib BinaryLib WireLib

inductive Node where
  | int (width : Nat) (signed : Bool)
  | float (width : Nat)
  | bool
  | str
  | bytes
  | fixedBytes (n : Int)
  | pubkey
  | option (inner : Node)
  | opt (inner : Node)
  | vec (elem : Node)
  | fixedArray (elem : Node) (n : Int)
  | ref (cls : Name)
deriving DecidableEq

structure Fields where
  entries : List (Name × Node)
  distinct : (entries.map Prod.fst).Nodup

def Fields.names (fields : Fields) : List Name := fields.entries.map Prod.fst

def Fields.nodes (fields : Fields) : List Node := fields.entries.map Prod.snd

structure Variant where
  tag : Nat
  name : Name
  fields : Fields

-- The variants of a data-carrying enum: BorshEnumMeta admits u8 tags, each once.
structure Variants where
  entries : List Variant
  distinct : (entries.map Variant.tag).Nodup
  bounded : ∀ variant ∈ entries, variant.tag < 256

def Variants.find (variants : Variants) (tag : Nat) : Option Variant := variants.entries.find? fun v => v.tag == tag

inductive ClassNode where
  | struct (fields : Fields)
  | intEnum (members : List Nat)
  | borshEnum (variants : Variants)

abbrev Env := List (Name × ClassNode)

-- The stack holds the nodes being measured; one met again counts nothing. Two
-- equal fixed arrays are told apart by the source and not here: both reach the
-- same class, which is on the stack as well.
def minNode (minRef : List Node → Name → Int) : Node → List Node → Int
  | .int width _, _ => width
  | .float width, _ => width
  | .bool, _ => 1
  | .str, _ => 4
  | .bytes, _ => 4
  | .fixedBytes n, _ => n
  | .pubkey, _ => 32
  | .option _, _ => 1
  | .opt _, _ => 1
  | .vec _, _ => 4
  | .fixedArray elem n, stack =>
    if .fixedArray elem n ∈ stack then 0 else n * minNode minRef elem (stack ++ [.fixedArray elem n])
  | .ref cls, stack => minRef stack cls

def minFields (next : Node → List Node → Int) (fields : Fields) (stack : List Node) : Int :=
  (fields.nodes.map fun node => next node stack).sum

def minClass (env : Env) (next : Node → List Node → Int) (stack : List Node) (cls : Name) : Int :=
  match env.lookup cls with
  | none => 0
  | some (.intEnum _) => 1
  | some (.struct fields) => if .ref cls ∈ stack then 0 else minFields next fields (stack ++ [.ref cls])
  | some (.borshEnum variants) =>
    if .ref cls ∈ stack then 0
    else
      match (variants.entries.map fun variant => minFields next variant.fields (stack ++ [.ref cls])).min? with
      | none => 1
      | some least => 1 + least

-- Each class is entered once before the stack stops it, so the fuel is the
-- number of classes.
def minWire (env : Env) : Nat → Node → List Node → Int
  | 0 => minNode fun _ _ => 0
  | fuel + 1 => minNode (minClass env (minWire env fuel))

def minWireSize (env : Env) (node : Node) : Int := minWire env (env.length + 1) node []

def take (n : Int) (path : Path) : Reader Raised Bytes := fun cur =>
  if n < 0 ∨ n > cur.rest.length then .error (.borshError (.need n cur.rest.length) cur.pos path)
  else .ok (cur.rest.take n.toNat, ⟨cur.pos + n.toNat, cur.rest.drop n.toNat⟩)

def takeByte (path : Path) : Reader Raised UInt8 := do return (← take 1 path).headD 0

def remaining : Reader Raised Nat := fun cur => .ok (cur.rest.length, cur)

def refuse {α : Type} (complaint : Complaint) (back : Nat) (path : Path) : Reader Raised α :=
  fun cur => .error (.borshError complaint (cur.pos - back) path)

def maxDecodeDepth : Nat := 64

abbrev NodeReader := Node → Path → Reader Raised Value

-- Entering a composite node takes one level; below holds the reader of the next
-- level while there is one.
def descend (below : Option NodeReader) (path : Path) (body : NodeReader → Reader Raised Value) : Reader Raised Value :=
  match below with
  | none => refuse (.tooDeep maxDecodeDepth) 0 path
  | some next => body next

def readInt (width : Nat) (signed : Bool) (path : Path) : Reader Raised Value := do
  return .int (decodeInt signed (← take width path))

def readFloat (width : Nat) (path : Path) : Reader Raised Value := do
  let bits ← take width path
  if isNaN bits then refuse .nan width path else return .float bits

def readBool (path : Path) : Reader Raised Value := do
  let byte ← takeByte path
  if byte = 0 ∨ byte = 1 then return .bool (byte = 1) else refuse (.boolByte byte) 1 path

def readSeqLen (minElem : Int) (path : Path) : Reader Raised Nat := do
  let raw ← take 4 path
  let left ← remaining
  if leNat raw > left then refuse (.lengthExceeds (leNat raw) left) 4 path
  else if 0 < minElem ∧ (leNat raw : Int) > left / minElem then
    refuse (.lengthExceedsFloor (leNat raw) left minElem) 4 path
  else return leNat raw

def readStr (path : Path) : Reader Raised Value := do
  let n ← readSeqLen 1 path
  let raw ← take n path
  match utf8Decode raw with
  | some s => return .str s
  | none => refuse (.invalidUtf8 raw) n path

def readBytes (path : Path) : Reader Raised Value := do
  let n ← readSeqLen 1 path
  return .bytes (← take n path)

def readFixedBytes (n : Int) (path : Path) : Reader Raised Value := do return .bytes (← take n path)

def pubkeyFrom (raw : Bytes) : Reader Raised Value := fun cur => (addressOf raw).map fun key => (.pubkey key, cur)

def readPubkey (path : Path) : Reader Raised Value := do pubkeyFrom (← take 32 path)

def readOption (wrap : Value → Value) (inner : Node) (path : Path) (next : NodeReader) : Reader Raised Value := do
  let tag ← takeByte path
  if tag = 0 then return .none
  else if tag = 1 then return wrap (← next inner path)
  else refuse (.optionTag tag) 1 path

def readItems (elem : Node) (n : Nat) (path : Path) (next : NodeReader) : Reader Raised Value := do
  return .list (← (List.range n).mapM fun i => next elem (path ++ [.index i]))

def readVec (minElem : Int) (elem : Node) (path : Path) (next : NodeReader) : Reader Raised Value := do
  let n ← readSeqLen minElem path
  readItems elem n path next

def readStruct (cls : Name) (fields : Fields) (path : Path) (next : NodeReader) : Reader Raised Value := do
  let values ← fields.entries.mapM fun (name, node) => next node (path ++ [.field name])
  return .object (.plain cls) fields.names values

def readIntEnum (cls : Name) (members : List Nat) (path : Path) : Reader Raised Value := do
  let tag ← takeByte path
  if tag.toNat ∈ members then return .member cls tag.toNat else refuse (.enumTag tag cls) 1 path

def readBorshEnum (cls : Name) (variants : Variants) (path : Path) (next : NodeReader) : Reader Raised Value := do
  let tag ← takeByte path
  match variants.find tag.toNat with
  | none => refuse (.noVariant tag cls) 1 path
  | some variant =>
    let values ← variant.fields.entries.mapM fun (_, node) => next node (path ++ [.field variant.name])
    return .object (.variant cls tag.toNat variant.name) variant.fields.names values

def readClass (env : Env) (cls : Name) (path : Path) (next : NodeReader) : Reader Raised Value :=
  match env.lookup cls with
  | none => throw .keyError
  | some (.struct fields) => readStruct cls fields path next
  | some (.intEnum members) => readIntEnum cls members path
  | some (.borshEnum variants) => readBorshEnum cls variants path next

def readNode (env : Env) (below : Option NodeReader) : NodeReader
  | .int width signed, path => readInt width signed path
  | .float width, path => readFloat width path
  | .bool, path => readBool path
  | .str, path => readStr path
  | .bytes, path => readBytes path
  | .fixedBytes n, path => readFixedBytes n path
  | .pubkey, path => readPubkey path
  | .option inner, path => descend below path (readOption id inner path)
  | .opt inner, path => descend below path (readOption .opt inner path)
  | .vec elem, path => descend below path (readVec (minWireSize env elem) elem path)
  | .fixedArray elem n, path => descend below path (readItems elem n.toNat path)
  | .ref cls, path => descend below path (readClass env cls path)

def read (env : Env) : (room : Nat) → NodeReader
  | 0 => readNode env none
  | room + 1 => readNode env (some (read env room))

abbrev NodeWriter := Node → Value → Path → Emitter Raised Unit

def append (raw : Bytes) : Emitter Raised Unit := fun out => .ok ((), out ++ raw)

def reject (complaint : Complaint) (path : Path) : Emitter Raised Unit :=
  fun out => .error (.borshError complaint out.length path)

-- out += n.to_bytes(width, "little", signed=signed), or the OverflowError.
def appendInt (width : Nat) (signed : Bool) (n : Int) (overflow : Emitter Raised Unit) : Emitter Raised Unit :=
  match encodeInt width signed n with
  | some raw => append raw
  | none => overflow

def appendTag (n : Int) : Emitter Raised Unit := appendInt 1 false n (throw .overflowError)

def appendLen (n : Nat) : Emitter Raised Unit := appendInt 4 false n (throw .overflowError)

def writeInt (width : Nat) (signed : Bool) (value : Value) (path : Path) : Emitter Raised Unit :=
  match value.isBool, value.asInt with
  | false, some n => appendInt width signed n (reject (.intOutOfRange n (width * 8)) path)
  | _, _ => reject (.expectedInt value.typeName) path

-- struct.pack: a number of another width is rounded to this one.
def writeFloat (width : Nat) (value : Value) (path : Path) : Emitter Raised Unit :=
  match pyFloat value with
  | none => throw .structError
  | some bits =>
    if isNaN bits then reject .nan path
    else if bits.length = width then append bits
    else
      match pack width (unpack bits) with
      | some raw => append raw
      | none => throw .overflowError

def writeBool (value : Value) (path : Path) : Emitter Raised Unit :=
  if value.isOne then append [1] else if value.isZero then append [0] else reject (.notBool value) path

def writeStr (value : Value) (path : Path) : Emitter Raised Unit :=
  match value with
  | .str s => do
      appendLen (utf8Encode s).length
      append (utf8Encode s)
  | _ => reject (.expectedStr value.typeName) path

def writeBytes (value : Value) : Emitter Raised Unit :=
  match pyBytes value with
  | .error e => throw e
  | .ok raw => do
      appendLen raw.length
      append raw

def writeFixedBytes (n : Int) (value : Value) (path : Path) : Emitter Raised Unit :=
  match pyBytes value with
  | .error e => throw e
  | .ok raw => if raw.length ≠ n then reject (.fixedLength raw.length n) path else append raw

def writePubkey (value : Value) : Emitter Raised Unit :=
  match pubkeyOf value with
  | .error e => throw e
  | .ok key => append key.bytes

def writeItems (write : Value → Path → Emitter Raised Unit) (items : List Value) (path : Path) : Emitter Raised Unit :=
  forM items.zipIdx fun (value, i) => write value (path ++ [.index i])

def writeNode (writeRef : Name → Value → Path → Emitter Raised Unit) : NodeWriter
  | .int width signed, value, path => writeInt width signed value path
  | .float width, value, path => writeFloat width value path
  | .bool, value, path => writeBool value path
  | .str, value, path => writeStr value path
  | .bytes, value, _ => writeBytes value
  | .fixedBytes n, value, path => writeFixedBytes n value path
  | .pubkey, value, _ => writePubkey value
  | .option inner, value, path =>
    match value with
    | .none => append [0]
    | _ => do
        append [1]
        writeNode writeRef inner value path
  | .opt inner, value, path =>
    match value with
    | .none => append [0]
    | .opt held => do
        append [1]
        writeNode writeRef inner held path
    | _ => reject (.expectedOpt value.typeName) path
  | .vec elem, value, path =>
    match pyItems value with
    | .error e => throw e
    | .ok items => do
        appendLen items.length
        writeItems (writeNode writeRef elem) items path
  | .fixedArray elem n, value, path =>
    match pyItems value with
    | .error e => throw e
    | .ok items =>
      if items.length ≠ n then reject (.arrayLength items.length n) path
      else writeItems (writeNode writeRef elem) items path
  | .ref cls, value, path => writeRef cls value path

def writeAttr (next : NodeWriter) (value : Value) (path : Path) (name : Name) (node : Node) : Emitter Raised Unit :=
  match getAttr value name with
  | .error e => throw e
  | .ok attr => next node attr (path ++ [.field name])

def writeFields (next : NodeWriter) (fields : Fields) (value : Value) (path : Path) : Emitter Raised Unit :=
  forM fields.entries fun (name, node) => writeAttr next value path name node

def Variants.ofValue (variants : Variants) (cls : Name) : Value → Option Variant
  | .object (.variant owner tag name) _ _ =>
    (variants.find tag).filter fun variant => owner == cls && variant.name == name
  | _ => none

def writeClass (env : Env) (next : NodeWriter) (cls : Name) (value : Value) (path : Path) : Emitter Raised Unit :=
  match env.lookup cls with
  | none => throw .keyError
  | some (.struct fields) => writeFields next fields value path
  | some (.intEnum _) =>
    match pyInt value with
    | .ok n => appendTag n
    | .error e => throw e
  | some (.borshEnum variants) =>
    match variants.ofValue cls value with
    | none => reject (.notVariant value.typeName cls) path
    | some variant => do
        appendTag variant.tag
        writeFields next variant.fields value path

-- An instance is entered with one unit of fuel; encode gives as many as the
-- value has instances inside one another.
def write (env : Env) : Nat → NodeWriter
  | 0 => fun _ _ _ => throw .recursionError
  | fuel + 1 => writeNode (writeClass env (write env fuel))

inductive Mode where
  | ixData
  | accountData
deriving DecidableEq

def decode (env : Env) (raw : Bytes) (node : Node) (mode : Mode) : Except Raised Value :=
  match read env maxDecodeDepth node [] ⟨0, raw⟩ with
  | .error e => .error e
  | .ok (value, cur) =>
    if mode = .ixData ∧ cur.pos ≠ raw.length then .error (.borshError (.trailing cur.pos raw.length) cur.pos [])
    else .ok value

def encode (env : Env) (value : Value) (node : Node) : Except Raised Bytes :=
  match write env (value.height + 1) node value [] [] with
  | .error e => .error e
  | .ok (_, out) => .ok out

end WakeSol.Codec
