import WakeSol.Gen.Idl
import WakeSol.Interface.Builder

/- The generator: type nodes become annotation sources, type definitions become
   classes, and instructions become builder methods. -/
set_option autoImplicit false

namespace WakeSol.Gen

open TextLib RadixLib Codec Interface

inductive GenError where
  | extensionScalar (name : Name)
  | unsupportedScalar (name : Name)
  | unusableName (name : Name)
  | coption
  | generic (name : Name)
  | unsupportedNode
  | arrayLength (name : Name)
  | serialization (name serialization : Name)
  | enumRoot (kind : Kind) (name : Name)
  | noLayout (kind : Kind) (name : Name)
  | argCollision (instruction name : Name)
  | accountCollision (instruction name : Name)
deriving DecidableEq

inductive AnnSrc where
  | name (n : Name)
  | optional (inner : AnnSrc)
  | opt (inner : AnnSrc)
  | list (elem : AnnSrc)
  | annotated (inner : AnnSrc) (n : Nat)
deriving DecidableEq

def u8Name : Name := ['u', '8']
def boolName : Name := ['b', 'o', 'o', 'l']
def stringName : Name := ['s', 't', 'r', 'i', 'n', 'g']
def strName : Name := ['s', 't', 'r']
def bytesName : Name := ['b', 'y', 't', 'e', 's']

def scalarNames : List Name :=
  [['u', '8'], ['u', '1', '6'], ['u', '3', '2'], ['u', '6', '4'], ['u', '1', '2', '8'], ['i', '8'], ['i', '1', '6'],
    ['i', '3', '2'], ['i', '6', '4'], ['i', '1', '2', '8'], ['f', '3', '2'], ['f', '6', '4']]

def rejectedScalars : List Name := [['u', '2', '5', '6'], ['i', '2', '5', '6'], ['c', 'h', 'a', 'r']]

def mapScalar (name : Name) : Except GenError AnnSrc :=
  if name ∈ scalarNames then .ok (.name name)
  else if name = pubkeyName then .ok (.name pubkeyName)
  else if name = boolName then .ok (.name boolName)
  else if name = stringName then .ok (.name strName)
  else if name = bytesName then .ok (.name bytesName)
  else if name ∈ rejectedScalars then .error (.extensionScalar name)
  else .error (.unsupportedScalar name)

def TypeNode.isOption : TypeNode → Bool
  | .option _ => true
  | _ => false

mutual

def mapType (python : Python) : TypeNode → Except GenError AnnSrc
  | .scalar name => mapScalar name
  | .option inner => if inner.isOption then .opt <$> mapOptChain python inner else .optional <$> mapType python inner
  | .vec elem => .list <$> mapType python elem
  | .array elem (.count n) =>
    if elem = .scalar u8Name then .ok (.annotated (.name bytesName) n)
    else (fun mapped => .annotated (.list mapped) n) <$> mapType python elem
  | .array _ (.generic name) => .error (.arrayLength name)
  | .defined name => if name = [] ∨ python.isIdentifier name = false then .error (.unusableName name) else .ok (.name name)
  | .coption _ => .error .coption
  | .generic name => .error (.generic name)
  | .other => .error .unsupportedNode

-- An option node inside an Opt chain: every level of the chain is an Opt.
def mapOptChain (python : Python) : TypeNode → Except GenError AnnSrc
  | .option inner => .opt <$> if inner.isOption then mapOptChain python inner else mapType python inner
  | _ => .error .unsupportedNode

end

def fieldName (field : Field) (i : Nat) : Name := (field.name.map mangle).getD ('_' :: decimal i)

def fieldLines (python : Python) (fields : List Field) : Except GenError (List (Name × AnnSrc)) :=
  fields.zipIdx.mapM fun (field, i) => (fun ann => (fieldName field i, ann)) <$> mapType python field.type

structure EmittedVariant where
  tag : Nat
  name : Name
  fields : List (Name × AnnSrc)
deriving DecidableEq

inductive EmittedBody where
  | intEnum (members : List (Name × Nat))
  | borshEnum (variants : List EmittedVariant)
  | struct (fields : List (Name × AnnSrc)) (borshMeta : Option BorshMeta)
deriving DecidableEq

structure EmittedClass where
  name : Name
  body : EmittedBody
deriving DecidableEq

-- An enum whose variants are all unit is an IntEnum; both number the variants by
-- their position.
def emitEnum (python : Python) (variants : List (Name × List Field)) : Except GenError EmittedBody :=
  if variants.all fun variant => variant.2.isEmpty then .ok (.intEnum (variants.zipIdx.map fun (variant, i) => (variant.1, i)))
  else .borshEnum <$> variants.zipIdx.mapM fun (variant, i) =>
    (fun fields => ⟨i, variant.1, fields⟩) <$> fieldLines python variant.2

def emitStruct (python : Python) (fields : List Field) (borshMeta : Option BorshMeta) : Except GenError EmittedBody :=
  (fun lines => .struct lines borshMeta) <$> fieldLines python fields

def emitTypedef (python : Python) (tdef : TypeDef) (borshMeta : Option BorshMeta) : Except GenError EmittedClass :=
  if tdef.serialization ≠ borshName then .error (.serialization tdef.name tdef.serialization)
  else
    match tdef.body, borshMeta with
    | .enum _, some found => .error (.enumRoot found.kind tdef.name)
    | .enum variants, none => (fun body => ⟨tdef.name, body⟩) <$> emitEnum python variants
    | .struct fields, _ => (fun body => ⟨tdef.name, body⟩) <$> emitStruct python fields borshMeta

inductive Expr where
  | name (n : Name)
  | bytes (raw : Bytes)
  | bool (b : Bool)
  | unit
  | call (fn : Name) (args : List Expr)
  | forEach (fn item iter : Name)

inductive Stmt where
  | assign (target : Name) (value : Expr)
  | extend (target : Name) (value : Expr)
  | ret (value : Expr)

-- A builder method is def name(cls, positional, *, keywordOnly): body.
structure Method where
  name : Name
  instructionName : Name
  discriminator : Bytes
  positional : List (Name × AnnSrc)
  keywordOnly : List Name
  returns : Option AnnSrc
  body : List Stmt

def clsName : Name := ['c', 'l', 's']
def dataName : Name := ['d', 'a', 't', 'a']
def metasName : Name := ['m', 'e', 't', 'a', 's']
def slotName : Name := ['s', 'l', 'o', 't']
def buildMetasName : Name := ['b', 'u', 'i', 'l', 'd', '_', 'm', 'e', 't', 'a', 's']
def asMetaName : Name := ['a', 's', '_', 'm', 'e', 't', 'a']
def encodeIxLayoutName : Name := ['e', 'n', 'c', 'o', 'd', 'e', '_', 'i', 'x', '_', 'l', 'a', 'y', 'o', 'u', 't']
def programIdName : Name := ['P', 'R', 'O', 'G', 'R', 'A', 'M', '_', 'I', 'D']
def instructionClassName : Name := ['I', 'n', 's', 't', 'r', 'u', 'c', 't', 'i', 'o', 'n']
def itemName : Name := ['m']

def layoutName (ix : Instruction) : Name := ['_', 'E', 'N', 'C', '_'] ++ mangle ix.name

def collision : (seen names : List Name) → Option Name
  | _, [] => none
  | seen, name :: rest => if name ∈ seen then some name else collision (seen ++ [name]) rest

def methodBody (ix : Instruction) : List Stmt :=
  let values := ix.args.map fun arg => Expr.name (mangle arg.1)
  let layout := if ix.args.isEmpty then Expr.unit else .name (layoutName ix)
  let slots := ix.accounts.map fun a =>
    Expr.call slotName [.name (mangle a.name), .bool a.isSigner, .bool a.isWritable, .bool a.isOptional]
  [.assign dataName (.call encodeIxLayoutName (.bytes ix.discriminator :: layout :: values)),
   .assign metasName (.call buildMetasName (.name programIdName :: slots)),
   .extend metasName (.forEach asMetaName itemName remainingName),
   .ret (.call instructionClassName [.name programIdName, .name metasName, .name dataName])]

def emitInstruction (python : Python) (ix : Instruction) : Except GenError Method := do
  let argNames := ix.args.map fun arg => mangle arg.1
  let accountNames := ix.accounts.map fun a => mangle a.name
  if let some name := collision [] argNames then .error (.argCollision ix.name name)
  if let some name := collision argNames accountNames then .error (.accountCollision ix.name name)
  let anns ← ix.args.mapM fun arg => mapType python arg.2
  let returns ← ix.returns.mapM (mapType python)
  return ⟨mangle ix.name, ix.name, ix.discriminator, argNames.zip anns, accountNames ++ [remainingName], returns, methodBody ix⟩

structure Module where
  classes : List EmittedClass
  layouts : List (Name × List AnnSrc)
  methods : List Method

def typeLayout (idl : Idl) (name : Name) : Option TypeDef := idl.types.reverse.find? fun tdef => tdef.name == name

def emitRoot (python : Python) (idl : Idl) (borshMeta : Root → BorshMeta) (root : Root) : Except GenError EmittedClass :=
  match typeLayout idl root.name with
  | none => .error (.noLayout (borshMeta root).kind root.name)
  | some tdef => emitTypedef python tdef (some (borshMeta root))

def accountMeta (root : Root) : BorshMeta := ⟨.account, true, root.discriminator⟩

def eventMeta (root : Root) : BorshMeta := ⟨.event, false, root.discriminator⟩

def plainTypes (idl : Idl) : List TypeDef :=
  idl.types.filter fun tdef => tdef.name ∉ idl.accounts.map Root.name ∧ tdef.name ∉ idl.events.map Root.name

def emitModule (python : Python) (idl : Idl) : Except GenError Module := do
  let types ← (plainTypes idl).mapM fun tdef => emitTypedef python tdef none
  let accounts ← idl.accounts.mapM (emitRoot python idl accountMeta)
  let events ← idl.events.mapM (emitRoot python idl eventMeta)
  let methods ← idl.instructions.mapM (emitInstruction python)
  let layouts := (idl.instructions.zip methods).filterMap fun (ix, method) =>
    if ix.args.isEmpty then none else some (layoutName ix, method.positional.map Prod.snd)
  return ⟨types ++ accounts ++ events, layouts, methods⟩

end WakeSol.Gen
