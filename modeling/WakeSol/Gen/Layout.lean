import WakeSol.Codec.Layout
import WakeSol.Gen.Canonical

/- The layout an IDL document describes, and when the module emitted from it has
   that layout. -/
set_option autoImplicit false

namespace WakeSol.Gen

open TextLib RadixLib DictLib Codec WireLib LayoutLib Interface

def scalarLayouts : List (Name × Layout Name) :=
  [(['u', '8'], .int 1 false), (['u', '1', '6'], .int 2 false), (['u', '3', '2'], .int 4 false),
   (['u', '6', '4'], .int 8 false), (['u', '1', '2', '8'], .int 16 false), (['u', '2', '5', '6'], .int 32 false),
   (['i', '8'], .int 1 true), (['i', '1', '6'], .int 2 true), (['i', '3', '2'], .int 4 true),
   (['i', '6', '4'], .int 8 true), (['i', '1', '2', '8'], .int 16 true), (['i', '2', '5', '6'], .int 32 true),
   (['f', '3', '2'], .float 4), (['f', '6', '4'], .float 8), (boolName, .bool), (stringName, .string),
   (bytesName, .vec u8Layout), (pubkeyName, .array u8Layout 32), (publicKeyName, .array u8Layout 32)]

-- A generic parameter, a COption or an unknown node has no Borsh layout. The generic
-- arguments of a reference fill parameters, which have none.
def RawType.layout : RawType → Layout Name
  | .scalar name => (scalarLayouts.lookup name).getD .void
  | .definedLegacy name => .named name
  | .defined name _ => .named name
  | .option inner => .option inner.layout
  | .coption _ => .void
  | .vec elem => .vec elem.layout
  | .array elem (.count n) => .array elem.layout n
  | .array _ (.generic _) => .void
  | .generic _ => .void
  | .other => .void

def RawField.type : RawField → RawType
  | .named _ type => type
  | .wrapped type => type
  | .bare type => type

def fieldLayouts (fields : List RawField) : List (Layout Name) := fields.map fun field => field.type.layout

-- Fields lie in declaration order, and the tag of a variant is its position.
def RawBody.layout : RawBody → LayoutLib.Body Name
  | .struct fields => .product (fieldLayouts fields)
  | .enum variants => .sum (variants.zipIdx.map fun (variant, i) => (i, fieldLayouts variant.2))
  | .alias target => .synonym target.layout

def addMissing (types : List RawTypeDef) (inline : List (Option RawTypeDef)) : List RawTypeDef :=
  inline.foldl (fun types entry =>
    match entry with
    | some tdef => if tdef.name ∈ types.map RawTypeDef.name then types else types ++ [tdef]
    | none => types) types

def RawAccountRoot.definition (raw : RawAccountRoot) : Option RawTypeDef := raw.layout.map fun layout => ⟨layout, raw.name⟩

def RawEvent.definition (raw : RawEvent) : Option RawTypeDef :=
  raw.fields.map fun fields => ⟨⟨.struct fields, none, none⟩, raw.name⟩

-- The type table, with the inline layouts of legacy documents where it has none.
def Doc.definitions (doc : Doc) : List RawTypeDef :=
  addMissing (addMissing doc.types (doc.accounts.map (·.definition))) (doc.events.map (·.definition))

def idlGraph (doc : Doc) : Graph Name := fun name =>
  (doc.definitions.find? fun tdef => tdef.name == name).map fun tdef => tdef.body.layout

def RawBody.fieldTypes : RawBody → List RawType
  | .struct fields => fields.map RawField.type
  | .enum variants => variants.flatMap fun variant => variant.2.map RawField.type
  | .alias _ => []

def Doc.typeNodes (doc : Doc) : List RawType :=
  doc.definitions.flatMap (fun tdef => tdef.body.fieldTypes) ++
    doc.instructions.flatMap fun ix => ix.args.map Prod.snd ++ ix.returns.toList

def RawType.refs : RawType → List Name
  | .definedLegacy name => [name]
  | .defined name _ => [name]
  | .option inner => inner.refs
  | .coption inner => inner.refs
  | .vec elem => elem.refs
  | .array elem _ => elem.refs
  | _ => []

structure SameLayout (doc : Doc) (layout : Layout Name) (env : Env) (node : Node) : Prop where
  covered : ∀ shape raw, Encodes (idlGraph doc) layout shape raw →
    ∃ levels value, Wire env levels node value raw ∧ Shaped env node value shape
  exact : ∀ levels value raw, Wire env levels node value raw →
    ∃ shape, Shaped env node value shape ∧ Encodes (idlGraph doc) layout shape raw

structure Faithful (python : Python) (doc : Doc) (module : Module) (table : Table) : Prop where
  emits : emitModule python (loadIdl python doc) = .ok module
  loads : loadModule python module = .ok table
  definitions : ∀ tdef ∈ doc.definitions, ∀ before, Grown table [] [] before →
    ∃ env, compileRefs table tdef.name before = .ok ((), env) ∧ SameLayout doc (.named tdef.name) env (.ref tdef.name)
  typeNodes : ∀ raw ∈ doc.typeNodes, ∃ src ann, mapType python (normTypeNode raw) = .ok src ∧
    evalAnn module.scope src = .ok ann ∧ ∀ place before, Grown table [] [] before →
      ∃ node env, compileField table place ann before = .ok (node, env) ∧ SameLayout doc raw.layout env node

def usedNames : List Name := [optionalName, annotatedName, optName, listName] ++ scalarSpecs.map Prod.fst

def engineNames : List Name :=
  [['d', 'a', 't', 'a', 'c', 'l', 'a', 's', 's'], ['I', 'n', 't', 'E', 'n', 'u', 'm'],
   ['S', 'e', 'q', 'u', 'e', 'n', 'c', 'e'], ['u', '2', '5', '6'], ['i', '2', '5', '6'], ['c', 'h', 'a', 'r'],
   ['B', 'o', 'r', 's', 'h', 'E', 'n', 'u', 'm', 'M', 'e', 't', 'a'],
   ['B', 'o', 'r', 's', 'h', 'S', 't', 'r', 'u', 'c', 't'], ['v', 'a', 'r', 'i', 'a', 'n', 't'],
   ['A', 'c', 'c', 'o', 'u', 'n', 't', 'S', 'l', 'o', 't'], ['B', 'o', 'r', 's', 'h', 'M', 'e', 't', 'a'],
   ['I', 'n', 's', 't', 'r', 'u', 'c', 't', 'i', 'o', 'n', 'M', 'e', 't', 'a'], ['K', 'i', 'n', 'd'],
   ['M', 'e', 't', 'a', 'L', 'i', 'k', 'e'], ['S', 'e', 'r', 'i', 'a', 'l', 'i', 'z', 'a', 't', 'i', 'o', 'n'],
   ['i', 'n', 's', 't', 'r', 'u', 'c', 't', 'i', 'o', 'n'],
   ['b', 'u', 'i', 'l', 'd', '_', 'i', 'n', 't', 'e', 'r', 'f', 'a', 'c', 'e', '_', 'f', 'r', 'o', 'm', '_', 'm', 'o', 'd', 'u', 'l', 'e'],
   ['c', 'o', 'm', 'p', 'i', 'l', 'e', '_', 'l', 'a', 'y', 'o', 'u', 't'],
   ['e', 'n', 'c', 'o', 'd', 'e', '_', 'i', 'x', '_', 'l', 'a', 'y', 'o', 'u', 't'],
   ['b', 'u', 'i', 'l', 'd', '_', 'm', 'e', 't', 'a', 's'], ['s', 'l', 'o', 't'], ['a', 's', '_', 'm', 'e', 't', 'a'],
   ['r', 'e', 'g', 'i', 's', 't', 'e', 'r'], ['P', 'r', 'o', 'g', 'r', 'a', 'm', 'E', 'r', 'r', 'o', 'r'],
   ['r', 'e', 'g', 'i', 's', 't', 'e', 'r', '_', 'e', 'r', 'r', 'o', 'r', 's'],
   ['I', 'n', 's', 't', 'r', 'u', 'c', 't', 'i', 'o', 'n'], ['P', 'u', 'b', 'k', 'e', 'y'],
   ['P', 'R', 'O', 'G', 'R', 'A', 'M', '_', 'I', 'D'], ['P', 'R', 'O', 'G', 'R', 'A', 'M', '_', 'N', 'A', 'M', 'E'],
   ['a', 'n', 'n', 'o', 't', 'a', 't', 'i', 'o', 'n', 's'], ['c', 'l', 'a', 's', 's', 'm', 'e', 't', 'h', 'o', 'd'],
   ['_', '_', 'n', 'a', 'm', 'e', '_', '_'], ['_', '_', 'p', 'r', 'o', 'v', 'e', 'n', 'a', 'n', 'c', 'e', '_', '_']]

def capitalised : Text → Text
  | [] => []
  | c :: rest => c.toUpper :: rest

def pascal (name : Name) : Name :=
  let words := (name.map fun c => if c = '-' then '_' else c).splitOn '_'
  let joined := (words.map capitalised).flatten
  if joined = [] then ['P', 'r', 'o', 'g', 'r', 'a', 'm']
  else if (joined.headD '_').isDigit then 'P' :: joined
  else joined

def builderNames (doc : Doc) : List Name :=
  [pascal doc.name, pascal doc.name ++ ['E', 'r', 'r', 'o', 'r']] ++ doc.errors ++
    doc.instructions.map fun ix => ['_', 'E', 'N', 'C', '_'] ++ mangle ix.name

def moduleNames (doc : Doc) : List Name := usedNames ++ engineNames ++ builderNames doc

def spelledNames (python : Python) (owner : Name) (fields : List RawField) : List Name :=
  fields.zipIdx.map fun (field, i) => python.spelled owner (fieldName (normField field) i)

def CleanFields (python : Python) (owner : Name) (fields : List RawField) : Prop :=
  (spelledNames python owner fields).Nodup ∧
    ∀ name ∈ spelledNames python owner fields, python.isIdentifier name = true ∧ name ∉ keywords ∧ name ∉ inheritedNames ∧
      ¬ ['_', '_'] <+: name

def usable (python : Python) (name : Name) : Prop := python.isIdentifier name = true ∧ name ∉ keywords

def mroName : Name := ['m', 'r', 'o']

def CleanBody (python : Python) (owner : Name) : RawBody → Prop
  | .struct fields => CleanFields python owner fields
  | .enum variants => (variants.map fun variant => python.spelled owner variant.1).Nodup ∧
      ∀ variant ∈ variants, usable python variant.1 ∧ variant.1 ≠ mroName ∧ ¬ ['_'] <+: variant.1 ∧
        CleanFields python variant.1 variant.2
  | .alias _ => True

instance (python : Python) (owner : Name) (fields : List RawField) : Decidable (CleanFields python owner fields) :=
  inferInstanceAs (Decidable (_ ∧ _))

instance (python : Python) (name : Name) : Decidable (usable python name) := inferInstanceAs (Decidable (_ ∧ _))

instance (python : Python) (owner : Name) (body : RawBody) : Decidable (CleanBody python owner body) :=
  match body with
  | .struct fields => inferInstanceAs (Decidable (CleanFields python owner fields))
  | .enum _ => inferInstanceAs (Decidable (_ ∧ _))
  | .alias _ => inferInstanceAs (Decidable True)

structure Hygienic (python : Python) (doc : Doc) : Prop where
  distinct : (doc.types.map RawTypeDef.name).Nodup
  definitions : ∀ tdef ∈ doc.definitions, usable python tdef.name ∧ tdef.name ∉ moduleNames doc ∧ CleanBody python tdef.name tdef.body
  references : ∀ raw ∈ doc.typeNodes, ∀ ref ∈ raw.refs, ref ∉ moduleNames doc

-- What the generator gets right: no alias but for the empty layout, no enum without
-- variants, no data-carrying enum of more than 256, no dangling reference.
structure Representable (doc : Doc) : Prop where
  aliases : ∀ tdef ∈ doc.definitions, ∀ target, tdef.body = .alias target → Empty (idlGraph doc) target.layout
  inhabited : ∀ tdef ∈ doc.definitions, tdef.body ≠ .enum []
  tagged : ∀ tdef ∈ doc.definitions, ∀ variants, tdef.body = .enum variants → (∃ variant ∈ variants, variant.2 ≠ []) →
    variants.length ≤ 256
  closed : ∀ raw ∈ doc.typeNodes, ∀ ref ∈ raw.refs, ref ∈ doc.definitions.map RawTypeDef.name

end WakeSol.Gen
