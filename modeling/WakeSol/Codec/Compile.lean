import WakeSol.Codec.Accept

/- Lowering annotations to nodes. A class is compiled once: the cache of compiled
   classes is the state, and the classes being compiled are pending, so that a
   cycle of classes ends at a pending one. -/
set_option autoImplicit false

namespace WakeSol.Codec

open TextLib RadixLib EndianLib WireLib

-- An annotation after get_type_hints: the object it evaluates to.
inductive Ann where
  | bareInt
  | bareFloat
  | intAlias (width : Nat) (signed : Bool)
  | floatAlias (width : Nat)
  | bool
  | str
  | bytes
  | pubkey
  | cls (name : Name)
  | foreign
  | annotated (inner : Ann) (length : Option Int)
  | coption (inner : Ann)
  | opt (inner : Ann)
  | optional (inner : Ann)
  | union
  | list (elem : Ann)
deriving DecidableEq

inductive Kind where
  | struct
  | account
  | event
  | enum
deriving DecidableEq

structure BorshMeta where
  kind : Kind
  isAccountRoot : Bool
  discriminator : Bytes
deriving DecidableEq

structure AnnFields where
  entries : List (Name × Ann)
  distinct : (entries.map Prod.fst).Nodup

-- Evaluating the annotations of a class may itself raise.
structure VariantDef where
  tag : Nat
  name : Name
  hints : Except Raised AnnFields

structure VariantDefs where
  entries : List VariantDef
  distinct : (entries.map VariantDef.tag).Nodup
  bounded : ∀ variant ∈ entries, variant.tag < 256

inductive ClassDef where
  | dataclass (hints : Except Raised AnnFields) (borshMeta : Option BorshMeta)
  | intEnum (members : List Nat)
  | borshEnum (variants : VariantDefs)

abbrev Table := List (Name × ClassDef)

abbrev Compile := StateT Env (Except Raised)

def lifted {α : Type} (result : Except Raised α) : Compile α := fun env => result.map fun value => (value, env)

def compileAnn (compileRef : Name → Compile Unit) (place : Text) : Ann → Compile Node
  | .bareInt => throw (.genError place (.bareNumeric ['i', 'n', 't']))
  | .bareFloat => throw (.genError place (.bareNumeric ['f', 'l', 'o', 'a', 't']))
  | .annotated _ none => throw (.genError place .arrayMetadata)
  | .annotated .bytes (some n) => return .fixedBytes n
  | .annotated (.list elem) (some n) => do return .fixedArray (← compileAnn compileRef place elem) n
  | .annotated _ (some _) => throw (.genError place .annotatedInner)
  | .coption _ => throw (.genError place .coption)
  | .opt inner => do return .opt (← compileAnn compileRef place inner)
  | .optional inner => do return .option (← compileAnn compileRef place inner)
  | .union => throw (.genError place .untaggedUnion)
  | .list elem => do return .vec (← compileAnn compileRef place elem)
  | .intAlias width signed => return .int width signed
  | .floatAlias width => return .float width
  | .bool => return .bool
  | .str => return .str
  | .bytes => return .bytes
  | .pubkey => return .pubkey
  | .cls name => do
      compileRef name
      return .ref name
  | .foreign => throw (.genError place .unsupported)

theorem zip_with_sublist {α β γ δ : Type} (left : α → δ) (join : α → β → γ) (read : γ → δ)
    (same : ∀ a b, read (join a b) = left a) (firsts : List α) (seconds : List β) :
    ((List.zipWith join firsts seconds).map read).Sublist (firsts.map left) := by
  induction firsts generalizing seconds with
  | nil => simp
  | cons first rest ih =>
    cases seconds with
    | nil => simp
    | cons second others =>
      simp only [List.zipWith_cons_cons, List.map_cons, same]
      exact (ih others).cons_cons _

def AnnFields.compiled (fields : AnnFields) (nodes : List Node) : Fields where
  entries := List.zipWith (fun entry node => (entry.1, node)) fields.entries nodes
  distinct := fields.distinct.sublist
    (zip_with_sublist Prod.fst (fun entry node => (entry.1, node)) Prod.fst (fun _ _ => rfl) fields.entries nodes)

def VariantDefs.compiled (variants : VariantDefs) (fields : List Fields) : Variants where
  entries := List.zipWith (fun variant compiled => ⟨variant.tag, variant.name, compiled⟩) variants.entries fields
  distinct := variants.distinct.sublist (zip_with_sublist VariantDef.tag _ Variant.tag (fun _ _ => rfl) _ _)
  bounded := by
    intro variant inside
    have tags := (zip_with_sublist VariantDef.tag _ Variant.tag (fun _ _ => rfl) _ _).subset (List.mem_map_of_mem inside)
    obtain ⟨source, member, same⟩ := List.mem_map.mp tags
    rw [← same]
    exact variants.bounded source member

def compileFields (compileRef : Name → Compile Unit) (owner : Text) : Except Raised AnnFields → Compile Fields
  | .error e => throw e
  | .ok fields => do
      let nodes ← fields.entries.mapM fun entry => compileAnn compileRef (owner ++ '.' :: entry.1) entry.2
      return fields.compiled nodes

def compileClass (compileRef : Name → Compile Unit) (cls : Name) : ClassDef → Compile ClassNode
  | .intEnum members => return .intEnum members
  | .borshEnum variants => do
      let fields ← variants.entries.mapM fun variant => compileFields compileRef (cls ++ '.' :: variant.name) variant.hints
      return .borshEnum (variants.compiled fields)
  | .dataclass hints _ => do return .struct (← compileFields compileRef cls hints)

def compileType (table : Table) : Nat → List Name → Name → Compile Unit
  | 0, _, _ => throw .recursionError
  | fuel + 1, pending, cls => do
      if ((← get).lookup cls).isSome || decide (cls ∈ pending) then return
      match table.lookup cls with
      | none => throw (.genError cls .notCompilable)
      | some defined =>
        let compiled ← compileClass (compileType table fuel (cls :: pending)) cls defined
        modify fun env => env ++ [(cls, compiled)]

-- Every class enters pending or the cache once, so the fuel is not used up.
def compileRefs (table : Table) (cls : Name) : Compile Unit := compileType table (table.length + 1) [] cls

def compileField (table : Table) (place : Text) (ann : Ann) : Compile Node := compileAnn (compileRefs table) place ann

def compileLayout (table : Table) (place : Text) (anns : List Ann) : Compile (List Node) := anns.mapM (compileField table place)

def lower : Ann → Option Node
  | .annotated .bytes (some n) => some (.fixedBytes n)
  | .annotated (.list elem) (some n) => (lower elem).map fun node => .fixedArray node n
  | .opt inner => (lower inner).map .opt
  | .optional inner => (lower inner).map .option
  | .list elem => (lower elem).map .vec
  | .intAlias width signed => some (.int width signed)
  | .floatAlias width => some (.float width)
  | .bool => some .bool
  | .str => some .str
  | .bytes => some .bytes
  | .pubkey => some .pubkey
  | .cls name => some (.ref name)
  | _ => none

def Node.refs : Node → List Name
  | .option inner => inner.refs
  | .opt inner => inner.refs
  | .vec elem => elem.refs
  | .fixedArray elem _ => elem.refs
  | .ref cls => [cls]
  | _ => []

def ClassNode.refs (compiled : ClassNode) : List Name := compiled.nodes.flatMap Node.refs

def LoweredFields (hints : Except Raised AnnFields) (fields : Fields) : Prop :=
  ∃ anns nodes, hints = .ok anns ∧ List.Forall₂ (fun entry node => lower entry.2 = some node) anns.entries nodes ∧
    fields = anns.compiled nodes

def LoweredClass : ClassDef → ClassNode → Prop
  | .intEnum members, compiled => compiled = .intEnum members
  | .dataclass hints _, compiled => ∃ fields, LoweredFields hints fields ∧ compiled = .struct fields
  | .borshEnum variants, compiled => ∃ fields, List.Forall₂ (fun variant compiled => LoweredFields variant.hints compiled)
      variants.entries fields ∧ compiled = .borshEnum (variants.compiled fields)

theorem lowered_fields_unique (hints : Except Raised AnnFields) (first second : Fields) (loweredFirst : LoweredFields hints first)
    (loweredSecond : LoweredFields hints second) : first = second := by
  obtain ⟨anns, nodes, rfl, each, rfl⟩ := loweredFirst
  obtain ⟨_, others, same, eachOther, rfl⟩ := loweredSecond
  cases same
  have unique : Relator.RightUnique fun (entry : Name × Ann) node => lower entry.2 = some node :=
    fun entry node other isNode isOther => Option.some.inj (isNode.symm.trans isOther)
  rw [List.right_unique_forall₂' unique each eachOther]

theorem lowered_unique (defined : ClassDef) (first second : ClassNode) (loweredFirst : LoweredClass defined first)
    (loweredSecond : LoweredClass defined second) : first = second := by
  cases defined with
  | intEnum members => rw [loweredFirst, loweredSecond]
  | dataclass hints borshMeta =>
    obtain ⟨fields, isFields, rfl⟩ := loweredFirst
    obtain ⟨others, isOthers, rfl⟩ := loweredSecond
    rw [lowered_fields_unique hints fields others isFields isOthers]
  | borshEnum variants =>
    obtain ⟨fields, each, rfl⟩ := loweredFirst
    obtain ⟨others, eachOther, rfl⟩ := loweredSecond
    have unique : Relator.RightUnique fun (variant : VariantDef) compiled => LoweredFields variant.hints compiled :=
      fun variant fields others isFields isOthers => lowered_fields_unique variant.hints fields others isFields isOthers
    rw [List.right_unique_forall₂' unique each eachOther]

end WakeSol.Codec
