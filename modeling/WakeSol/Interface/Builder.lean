import WakeSol.Interface.Dispatch

/- What generated builders call, and the interface derived from the signatures of
   a builder class: one signature gives both directions. -/
set_option autoImplicit false

namespace WakeSol.Interface

open TextLib RadixLib DictLib WireLib Codec

def keywords : List Name :=
  [['F', 'a', 'l', 's', 'e'], ['N', 'o', 'n', 'e'], ['T', 'r', 'u', 'e'], ['a', 'n', 'd'], ['a', 's'],
    ['a', 's', 's', 'e', 'r', 't'], ['a', 's', 'y', 'n', 'c'], ['a', 'w', 'a', 'i', 't'], ['b', 'r', 'e', 'a', 'k'],
    ['c', 'l', 'a', 's', 's'], ['c', 'o', 'n', 't', 'i', 'n', 'u', 'e'], ['d', 'e', 'f'], ['d', 'e', 'l'],
    ['e', 'l', 'i', 'f'], ['e', 'l', 's', 'e'], ['e', 'x', 'c', 'e', 'p', 't'], ['f', 'i', 'n', 'a', 'l', 'l', 'y'],
    ['f', 'o', 'r'], ['f', 'r', 'o', 'm'], ['g', 'l', 'o', 'b', 'a', 'l'], ['i', 'f'], ['i', 'm', 'p', 'o', 'r', 't'],
    ['i', 'n'], ['i', 's'], ['l', 'a', 'm', 'b', 'd', 'a'], ['n', 'o', 'n', 'l', 'o', 'c', 'a', 'l'], ['n', 'o', 't'],
    ['o', 'r'], ['p', 'a', 's', 's'], ['r', 'a', 'i', 's', 'e'], ['r', 'e', 't', 'u', 'r', 'n'], ['t', 'r', 'y'],
    ['w', 'h', 'i', 'l', 'e'], ['w', 'i', 't', 'h'], ['y', 'i', 'e', 'l', 'd']]

def remainingName : Name := ['r', 'e', 'm', 'a', 'i', 'n', 'i', 'n', 'g', '_', 'a', 'c', 'c', 'o', 'u', 'n', 't', 's']

def reservedNames : List Name := [['s', 'e', 'l', 'f'], remainingName]

def mangle (name : Name) : Name := if name ∈ keywords ∨ name ∈ reservedNames then name ++ ['_'] else name

def mangleBack (name : Name) : Name :=
  if name.getLast? = some '_' ∧ (name.dropLast ∈ keywords ∨ name.dropLast ∈ reservedNames) then name.dropLast else name

def writeOnto (env : Env) (node : Node) (value : Value) (out : Bytes) : Except Raised Bytes :=
  match write env (value.height + 1) node value [] out with
  | .ok (_, written) => .ok written
  | .error e => .error e

def ixArgPlace : Text := ['<', 'i', 'x', '-', 'a', 'r', 'g', '>']

def encodeIx (table : Table) (discriminator : Bytes) (args : List (Value × Ann)) : Compile Bytes :=
  args.foldlM (fun out arg => do
    let node ← compileField table ixArgPlace arg.2
    lifted (writeOnto (← get) node arg.1 out)) discriminator

def encodeIxLayout (env : Env) (discriminator : Bytes) (layout : List Node) (values : List Value) : Except Raised Bytes :=
  if values.length ≠ layout.length then .error .valueError
  else (layout.zip values).foldlM (fun out entry => writeOnto env entry.1 entry.2 out) discriminator

structure AccountMeta where
  pubkey : Address
  isSigner : Bool
  isWritable : Bool
deriving DecidableEq

-- What a builder takes for an account: an AccountMeta, or a value that
-- AccountMeta coerces to an address.
inductive MetaLike where
  | accountMeta (given : AccountMeta)
  | value (given : Value)

def accountMetaOf (value : Value) (isSigner isWritable : Bool) : Except Raised AccountMeta :=
  (fun key => ⟨key, isSigner, isWritable⟩) <$> pubkeyOf value

def asMeta : MetaLike → Except Raised AccountMeta
  | .accountMeta given => .ok given
  | .value given => accountMetaOf given false false

structure Slot where
  value : MetaLike
  isSigner : Bool
  isWritable : Bool
  isOptional : Bool

-- The flags of a given AccountMeta win over the declared ones; the source warns.
def slotMeta (programId : Address) (slot : Slot) : Except Raised AccountMeta :=
  match slot.value with
  | .value .none => if slot.isOptional then .ok ⟨programId, false, false⟩ else .error .valueError
  | .accountMeta given => .ok given
  | .value given => accountMetaOf given slot.isSigner slot.isWritable

def buildMetas (programId : Address) (slots : List Slot) : Except Raised (List AccountMeta) := slots.mapM (slotMeta programId)

def makeBorshDecoder (layout : List (Name × Node)) (env : Env) (data : Bytes) : Except Raised Args :=
  match layout.mapM (fun param => Codec.read env maxDecodeDepth param.2 [.field param.1]) ⟨0, data⟩ with
  | .error e => .error e
  | .ok (values, cur) =>
    if cur.pos ≠ data.length then .error (.borshError (.trailingArgs cur.pos data.length) cur.pos [])
    else .ok (dictOf ((layout.map Prod.fst).zip values))

def returnsStep : Name := ['<', 'r', 'e', 't', 'u', 'r', 'n', 's', '>']

def makeReturnsDecoder (node : Node) (env : Env) (data : Bytes) : Except Raised Value :=
  match Codec.read env maxDecodeDepth node [.field returnsStep] ⟨0, data⟩ with
  | .error e => .error e
  | .ok (value, cur) =>
    if cur.pos ≠ data.length then .error (.borshError (.trailingReturn cur.pos data.length) cur.pos []) else .ok value

inductive Serialization where
  | borsh
  | bytemuck
  | bytemuckUnsafe
  | custom
  | bincode
  | pack
deriving DecidableEq

def Serialization.value : Serialization → Text
  | borsh => ['b', 'o', 'r', 's', 'h']
  | bytemuck => ['b', 'y', 't', 'e', 'm', 'u', 'c', 'k']
  | bytemuckUnsafe => ['b', 'y', 't', 'e', 'm', 'u', 'c', 'k', 'U', 'n', 's', 'a', 'f', 'e']
  | custom => ['c', 'u', 's', 't', 'o', 'm']
  | bincode => ['b', 'i', 'n', 'c', 'o', 'd', 'e']
  | pack => ['p', 'a', 'c', 'k']

def refusalReason (serialization : Serialization) : Text :=
  ['s', 'e', 'r', 'i', 'a', 'l', 'i', 'z', 'a', 't', 'i', 'o', 'n', '='] ++ serialization.value

structure Signature where
  positional : List (Name × Ann)
  keywordOnly : List Name
  distinct : (positional.map Prod.fst).Nodup

structure IxMeta where
  name : Name
  discriminator : Bytes
  serialization : Serialization
  returnsType : Option Ann

-- Evaluating the annotations of a signature may itself raise.
structure BuilderMethod where
  ix : IxMeta
  signature : Except Raised Signature

def selfName : Name := ['s', 'e', 'l', 'f']

def Signature.dataParams (signature : Signature) : List (Name × Ann) :=
  signature.positional.filter fun param => param.1 ≠ selfName

def Signature.accountNames (signature : Signature) : List Name :=
  (signature.keywordOnly.filter fun name => name ≠ remainingName).map mangleBack

abbrev Overrides := List (Name × (Env → Bytes → Except Raised Args))

def compileReturns (table : Table) (ix : IxMeta) : Compile (Option (Env → Bytes → Except Raised Value)) :=
  match ix.returnsType with
  | none => return none
  | some ann => do return some (makeReturnsDecoder (← compileField table (ix.name ++ '.' :: returnsStep) ann))

def registerMethod (table : Table) (overrides : Overrides) (iface : ProgramInterface) (method : BuilderMethod) :
    Compile ProgramInterface :=
  let override := overrides.lookup method.ix.name
  if method.ix.serialization ≠ .borsh ∧ override.isNone then
    return iface.addRefusing method.ix.name method.ix.discriminator (refusalReason method.ix.serialization)
  else do
    let signature ← lifted method.signature
    let nodes ← signature.dataParams.mapM fun param => compileField table (method.ix.name ++ '.' :: param.1) param.2
    let layout := (signature.dataParams.map Prod.fst).zip nodes
    let decodeReturn ← compileReturns table method.ix
    return iface.add method.ix.name method.ix.discriminator signature.accountNames
      (some (override.getD (makeBorshDecoder layout))) decodeReturn

def registerEvent (iface : ProgramInterface) (cls : Name × ClassDef) : ProgramInterface :=
  match cls.2 with
  | .dataclass _ (some borshMeta) => if borshMeta.kind = .event then iface.addEvent borshMeta.discriminator cls.1 else iface
  | _ => iface

def buildInterface (table : Table) (methods : List BuilderMethod) (programId programName : Text) (overrides : Overrides) :
    Compile ProgramInterface := do
  let iface ← methods.foldlM (registerMethod table overrides) ⟨programId, programName, [], []⟩
  return table.foldl registerEvent iface

end WakeSol.Interface
