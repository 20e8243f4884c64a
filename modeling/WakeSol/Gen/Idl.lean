import WakeSol.Codec.Struct

/- The IDL document and the normalised model load_idl builds from it. -/
set_option autoImplicit false

namespace WakeSol.Gen

open TextLib RadixLib Codec

-- The length of an IDL array is a count or a const generic parameter.
inductive ArrayLen where
  | count (n : Nat)
  | generic (name : Name)
deriving DecidableEq

-- A type node as the document spells it: 0.30+ references carry an object with
-- generic arguments, legacy ones a bare name.
inductive RawType where
  | scalar (name : Name)
  | definedLegacy (name : Name)
  | defined (name : Name) (generics : List RawType)
  | option (inner : RawType)
  | coption (inner : RawType)
  | vec (elem : RawType)
  | array (elem : RawType) (len : ArrayLen)
  | generic (name : Name)
  | other

inductive TypeNode where
  | scalar (name : Name)
  | defined (name : Name)
  | option (inner : TypeNode)
  | coption (inner : TypeNode)
  | vec (elem : TypeNode)
  | array (elem : TypeNode) (len : ArrayLen)
  | generic (name : Name)
  | other
deriving DecidableEq

def pubkeyName : Name := ['p', 'u', 'b', 'k', 'e', 'y']

def publicKeyName : Name := ['p', 'u', 'b', 'l', 'i', 'c', 'K', 'e', 'y']

def normTypeNode : RawType → TypeNode
  | .scalar name => .scalar (if name = publicKeyName then pubkeyName else name)
  | .definedLegacy name => .defined name
  | .defined name _ => .defined name
  | .option inner => .option (normTypeNode inner)
  | .coption inner => .coption (normTypeNode inner)
  | .vec elem => .vec (normTypeNode elem)
  | .array elem len => .array (normTypeNode elem) len
  | .generic name => .generic name
  | .other => .other

-- A field is named, a type under a "type" key, or a bare type.
inductive RawField where
  | named (name : Name) (type : RawType)
  | wrapped (type : RawType)
  | bare (type : RawType)

structure Field where
  name : Option Name
  type : TypeNode
deriving DecidableEq

def normField : RawField → Field
  | .named name type => ⟨some name, normTypeNode type⟩
  | .wrapped type => ⟨none, normTypeNode type⟩
  | .bare type => ⟨none, normTypeNode type⟩

inductive RawBody where
  | struct (fields : List RawField)
  | enum (variants : List (Name × List RawField))
  | alias (target : RawType)

inductive RawSerialization where
  | plain (name : Name)
  | wrapped (keys : List Name)

structure RawLayout where
  body : RawBody
  typeSerialization : Option RawSerialization := none
  rawSerialization : Option RawSerialization := none

structure RawTypeDef extends RawLayout where
  name : Name

inductive Body where
  | struct (fields : List Field)
  | enum (variants : List (Name × List Field))
deriving DecidableEq

structure TypeDef where
  name : Name
  body : Body
  serialization : Name
deriving DecidableEq

def borshName : Name := ['b', 'o', 'r', 's', 'h']

def RawSerialization.truthy : RawSerialization → Bool
  | .plain name => !name.isEmpty
  | .wrapped keys => !keys.isEmpty

def serializationOf (layout : RawLayout) : Name :=
  match (layout.typeSerialization.filter (·.truthy)).or (layout.rawSerialization.filter (·.truthy)) with
  | none => borshName
  | some (.plain name) => name
  | some (.wrapped keys) => keys.headD borshName

-- Every kind that is not "enum" becomes a struct of the "fields" it has.
def normBody : RawBody → Body
  | .struct fields => .struct (fields.map normField)
  | .enum variants => .enum (variants.map fun variant => (variant.1, variant.2.map normField))
  | .alias _ => .struct []

def typedef (name : Name) (layout : RawLayout) : TypeDef := ⟨name, normBody layout.body, serializationOf layout⟩

-- Legacy documents give the layout of an account inline, and the fields of an
-- event.
structure RawAccountRoot where
  name : Name
  discriminator : Option Bytes := none
  layout : Option RawLayout := none

structure RawEvent where
  name : Name
  discriminator : Option Bytes := none
  fields : Option (List RawField) := none

structure RawAccount where
  name : Name
  signer : Option Bool := none
  isSigner : Option Bool := none
  writable : Option Bool := none
  isMut : Option Bool := none
  optional : Option Bool := none
  isOptional : Option Bool := none
  address : Option Text := none

inductive AccountItem where
  | leaf (account : RawAccount)
  | group (items : List AccountItem)

structure IxAccount where
  name : Name
  isSigner : Bool
  isWritable : Bool
  isOptional : Bool
  address : Option Text
deriving DecidableEq

def ixAccount (a : RawAccount) : IxAccount where
  name := a.name
  isSigner := (a.signer.or a.isSigner).getD false
  isWritable := (a.writable.or a.isMut).getD false
  isOptional := (a.optional.or a.isOptional).getD false
  address := a.address.filter fun text => !text.isEmpty

mutual

def flattenAccount : AccountItem → List IxAccount
  | .leaf account => [ixAccount account]
  | .group items => flattenAccounts items

def flattenAccounts : List AccountItem → List IxAccount
  | [] => []
  | item :: rest => flattenAccount item ++ flattenAccounts rest

end

structure RawInstruction where
  name : Name
  discriminator : Option Bytes := none
  args : List (Name × RawType) := []
  accounts : List AccountItem := []
  returns : Option RawType := none

structure Doc where
  name : Name
  address : Text
  types : List RawTypeDef := []
  accounts : List RawAccountRoot := []
  events : List RawEvent := []
  instructions : List RawInstruction := []
  errors : List Name := []

structure Root where
  name : Name
  discriminator : Bytes
deriving DecidableEq

structure Instruction where
  name : Name
  discriminator : Bytes
  args : List (Name × TypeNode)
  accounts : List IxAccount
  returns : Option TypeNode
deriving DecidableEq

structure Idl where
  name : Name
  address : Text
  types : List TypeDef
  accounts : List Root
  events : List Root
  instructions : List Instruction
  errors : List Name

-- What the interpreter and its libraries supply: str.isidentifier, the name an
-- identifier written in the body of a class denotes, and SHA-256.
structure Python where
  isIdentifier : Name → Bool
  spelled : (owner name : Name) → Name
  sha256 : Bytes → Bytes

def asciiBytes (text : Text) : Bytes := utf8Encode (String.ofList text)

def anchorDiscriminator (python : Python) (space name : Name) : Bytes :=
  (python.sha256 (asciiBytes (space ++ ':' :: name))).take 8

def discOf (python : Python) (space name : Name) (declared : Option Bytes) : Bytes :=
  declared.getD (anchorDiscriminator python space name)

-- A layout given inline enters the type table unless the table has the name.
def addInline (types : List TypeDef) (inline : List (Option TypeDef)) : List TypeDef :=
  inline.foldl (fun types entry =>
    match entry with
    | some tdef => if tdef.name ∈ types.map TypeDef.name then types else types ++ [tdef]
    | none => types) types

def RawAccountRoot.inline (raw : RawAccountRoot) : Option TypeDef := raw.layout.map (typedef raw.name)

def RawEvent.inline (raw : RawEvent) : Option TypeDef :=
  raw.fields.map fun fields => ⟨raw.name, .struct (fields.map normField), borshName⟩

def instruction (python : Python) (raw : RawInstruction) : Instruction where
  name := raw.name
  discriminator := discOf python ['g', 'l', 'o', 'b', 'a', 'l'] raw.name raw.discriminator
  args := raw.args.map fun arg => (arg.1, normTypeNode arg.2)
  accounts := flattenAccounts raw.accounts
  returns := raw.returns.map normTypeNode

def loadIdl (python : Python) (doc : Doc) : Idl where
  name := doc.name
  address := doc.address
  types := addInline (addInline (doc.types.map fun t => typedef t.name t.toRawLayout) (doc.accounts.map (·.inline)))
    (doc.events.map (·.inline))
  accounts := doc.accounts.map fun raw => ⟨raw.name, discOf python ['a', 'c', 'c', 'o', 'u', 'n', 't'] raw.name raw.discriminator⟩
  events := doc.events.map fun raw => ⟨raw.name, discOf python ['e', 'v', 'e', 'n', 't'] raw.name raw.discriminator⟩
  instructions := doc.instructions.map (instruction python)
  errors := doc.errors

end WakeSol.Gen
