import WakeSol.Gen.Emit

/- Importing an emitted module: its classes are executed in order, and the
   annotations of a class are evaluated in the namespace of the module. -/
set_option autoImplicit false

namespace WakeSol.Gen

open TextLib RadixLib DictLib Codec

inductive Binding where
  | optionalForm
  | annotatedForm
  | optForm
  | listForm
  | object (ann : Ann)

abbrev Scope := Name → Option Binding

def optionalName : Name := ['O', 'p', 't', 'i', 'o', 'n', 'a', 'l']

def annotatedName : Name := ['A', 'n', 'n', 'o', 't', 'a', 't', 'e', 'd']

def optName : Name := ['O', 'p', 't']

def listName : Name := ['l', 'i', 's', 't']

def scalarSpecs : List (Name × Ann) :=
  [(['u', '8'], .intAlias 1 false), (['u', '1', '6'], .intAlias 2 false), (['u', '3', '2'], .intAlias 4 false),
   (['u', '6', '4'], .intAlias 8 false), (['u', '1', '2', '8'], .intAlias 16 false), (['i', '8'], .intAlias 1 true),
   (['i', '1', '6'], .intAlias 2 true), (['i', '3', '2'], .intAlias 4 true), (['i', '6', '4'], .intAlias 8 true),
   (['i', '1', '2', '8'], .intAlias 16 true), (['f', '3', '2'], .floatAlias 4), (['f', '6', '4'], .floatAlias 8),
   (pubkeyName, .pubkey), (boolName, .bool), (strName, .str), (bytesName, .bytes)]

def importedScope : Scope := fun name =>
  if name = optionalName then some .optionalForm
  else if name = annotatedName then some .annotatedForm
  else if name = optName then some .optForm
  else if name = listName then some .listForm
  else (scalarSpecs.lookup name).map .object

-- A class of the module hides an imported or builtin name.
def moduleScope (classes : List Name) : Scope := fun name =>
  if name ∈ classes then some (.object (.cls name)) else importedScope name

-- Optional[Optional[T]] is Optional[T].
def optionalOf : Ann → Ann
  | .optional inner => .optional inner
  | ann => .optional ann

def subscript (scope : Scope) (head : Name) (form : Binding → Bool) (result : Ann) : Except Raised Ann :=
  match scope head with
  | none => .error .nameError
  | some binding => if form binding then .ok result else .error .typeError

def Binding.isOptional : Binding → Bool
  | .optionalForm => true
  | _ => false

def Binding.isAnnotated : Binding → Bool
  | .annotatedForm => true
  | _ => false

def Binding.isOpt : Binding → Bool
  | .optForm => true
  | _ => false

def Binding.isList : Binding → Bool
  | .listForm => true
  | _ => false

def evalAnn (scope : Scope) : AnnSrc → Except Raised Ann
  | .name n =>
    match scope n with
    | none => .error .nameError
    | some (.object ann) => .ok ann
    | some _ => .ok .foreign
  | .optional inner => (evalAnn scope inner).bind fun ann => subscript scope optionalName Binding.isOptional (optionalOf ann)
  | .opt inner => (evalAnn scope inner).bind fun ann => subscript scope optName Binding.isOpt (.opt ann)
  | .list elem => (evalAnn scope elem).bind fun ann => subscript scope listName Binding.isList (.list ann)
  | .annotated inner n =>
    (evalAnn scope inner).bind fun ann => subscript scope annotatedName Binding.isAnnotated (.annotated ann (some n))

def evalFields (scope : Scope) (entries : List (Name × AnnSrc)) : Except Raised AnnFields :=
  match (dictOf entries).mapM fun entry => evalAnn scope entry.2 with
  | .error e => .error e
  | .ok anns => .ok ⟨List.zipWith (fun entry ann => (entry.1, ann)) (dictOf entries) anns,
      (dict_distinct entries).sublist (zip_with_sublist Prod.fst (fun entry ann => (entry.1, ann)) Prod.fst
        (fun _ _ => rfl) (dictOf entries) anns)⟩

def spelledFields (python : Python) (owner : Name) (lines : List (Name × AnnSrc)) : List (Name × AnnSrc) :=
  lines.map fun line => (python.spelled owner line.1, line.2)

def loadVariant (python : Python) (scope : Scope) (variant : EmittedVariant) : VariantDef :=
  ⟨variant.tag, variant.name, evalFields scope (spelledFields python variant.name variant.fields)⟩

def decodeName : Name := ['d', 'e', 'c', 'o', 'd', 'e']

-- What a generated struct inherits from BorshStruct. A field of that name takes
-- the inherited method for its default, and no field without a default may follow.
def inheritedNames : List Name := [encodeName, decodeName]

def defaultsLast (names : List Name) : Bool := (names.dropWhile (· ∉ inheritedNames)).all (· ∈ inheritedNames)

-- A class body without members is not a statement; the enum metaclasses refuse
-- a member set twice, more than 256 variants and tags beyond a byte.
def loadClass (python : Python) (scope : Scope) (emitted : EmittedClass) : Except Raised ClassDef :=
  match emitted.body with
  | .struct lines borshMeta =>
    let fields := spelledFields python emitted.name lines
    if defaultsLast ((dictOf fields).map Prod.fst) then .ok (.dataclass (evalFields scope fields) borshMeta)
    else .error .typeError
  | .intEnum members =>
    if members = [] then .error .syntaxError
    else if (members.map fun member => python.spelled emitted.name member.1).Nodup then .ok (.intEnum (members.map Prod.snd))
    else .error .typeError
  | .borshEnum variants =>
    let bound := dictOf (variants.map fun variant => (python.spelled emitted.name variant.name, loadVariant python scope variant))
    let defs := bound.map Prod.snd
    if defs.length > 256 then .error .typeError
    else if valid : (defs.map VariantDef.tag).Nodup ∧ ∀ variant ∈ defs, variant.tag < 256 then
      .ok (.borshEnum ⟨defs, valid.1, valid.2⟩)
    else .error .typeError

def Module.scope (module : Module) : Scope := moduleScope (module.classes.map EmittedClass.name)

def loadModule (python : Python) (module : Module) : Except Raised Table :=
  dictOf <$> module.classes.mapM fun emitted =>
    (fun defined => (emitted.name, defined)) <$> loadClass python module.scope emitted

end WakeSol.Gen
