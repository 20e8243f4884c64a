import WakeSol.Gen.Provenance

/- Decoding an emitted type accepts only the encoding of the value it returns. -/
set_option autoImplicit false

namespace WakeSol.Gen

open TextLib RadixLib DictLib FallibleLib Codec WireLib

structure Emitted (python : Python) where
  doc : Doc
  module : Module
  table : Table
  emits : emitModule python (loadIdl python doc) = .ok module
  loads : loadModule python module = .ok table
  raw : RawType
  src : AnnSrc
  ann : Ann
  maps : mapType python (normTypeNode raw) = .ok src
  evaluates : evalAnn module.scope src = .ok ann
  place : Text
  before : Env
  env : Env
  node : Node
  started : Grown table [] [] before
  compiles : compileField table place ann before = .ok (node, env)

def AnnSrc.isOptional : AnnSrc → Bool
  | .optional _ => true
  | .opt _ => true
  | _ => false

def AnnSrc.lossless : AnnSrc → Bool
  | .optional inner => !inner.isOptional && inner.lossless
  | .opt inner => inner.lossless
  | .list elem => elem.lossless
  | .annotated inner _ => inner.lossless
  | .name _ => true

theorem map_scalar_name (name : Name) (src : AnnSrc) (mapped : mapScalar name = .ok src) : ∃ n, src = .name n := by
  unfold mapScalar at mapped
  split_ifs at mapped <;> cases mapped <;> exact ⟨_, rfl⟩

inductive Maps : TypeNode → AnnSrc → Prop where
  | scalar (name : Name) (src : AnnSrc) (mapped : mapScalar name = .ok src) : Maps (.scalar name) src
  | defined (name : Name) : Maps (.defined name) (.name name)
  | optional (inner : TypeNode) (held : AnnSrc) (plain : inner.isOption = false) (maps : Maps inner held) :
      Maps (.option inner) (.optional held)
  | opt (inner : TypeNode) (held : AnnSrc) (maps : Maps inner held) : Maps (.option inner) (.opt held)
  | list (elem : TypeNode) (held : AnnSrc) (maps : Maps elem held) : Maps (.vec elem) (.list held)
  | bytes (n : Nat) : Maps (.array (.scalar u8Name) (.count n)) (.annotated (.name bytesName) n)
  | array (elem : TypeNode) (n : Nat) (held : AnnSrc) (maps : Maps elem held) :
      Maps (.array elem (.count n)) (.annotated (.list held) n)

variable (python : Python) (ty : TypeNode)

theorem map_chain_maps :
    (∀ src, mapType python ty = .ok src → Maps ty src) ∧ ∀ src, mapOptChain python ty = .ok src → Maps ty src := by
  induction ty with
  | scalar name =>
    refine ⟨fun src mapped => ?_, fun src mapped => by simp [mapOptChain] at mapped⟩
    rw [mapType] at mapped
    exact .scalar name src mapped
  | defined name =>
    refine ⟨fun src mapped => ?_, fun src mapped => by simp [mapOptChain] at mapped⟩
    rw [mapType] at mapped
    split at mapped
    · cases mapped
    · cases mapped
      exact .defined name
  | option inner ih =>
    constructor
    · intro src mapped
      rw [mapType] at mapped
      by_cases nested : inner.isOption = true
      · rw [if_pos nested] at mapped
        obtain ⟨held, mappedInner, rfl⟩ := map_ok _ _ _ mapped
        exact .opt inner held (ih.2 held mappedInner)
      · rw [if_neg nested] at mapped
        obtain ⟨held, mappedInner, rfl⟩ := map_ok _ _ _ mapped
        exact .optional inner held (by simpa using nested) (ih.1 held mappedInner)
    · intro src mapped
      rw [mapOptChain] at mapped
      obtain ⟨held, mappedInner, rfl⟩ := map_ok _ _ _ mapped
      refine .opt inner held ?_
      split at mappedInner
      · exact ih.2 held mappedInner
      · exact ih.1 held mappedInner
  | vec elem ih =>
    refine ⟨fun src mapped => ?_, fun src mapped => by simp [mapOptChain] at mapped⟩
    rw [mapType] at mapped
    obtain ⟨held, mappedElem, rfl⟩ := map_ok _ _ _ mapped
    exact .list elem held (ih.1 held mappedElem)
  | array elem len ih =>
    refine ⟨fun src mapped => ?_, fun src mapped => by simp [mapOptChain] at mapped⟩
    cases len with
    | generic name => simp [mapType] at mapped
    | count n =>
      rw [mapType] at mapped
      split at mapped
      · rename_i isByte
        cases mapped
        subst isByte
        exact .bytes n
      · obtain ⟨held, mappedElem, rfl⟩ := map_ok _ _ _ mapped
        exact .array elem n held (ih.1 held mappedElem)
  | _ => exact ⟨fun src mapped => by simp [mapType] at mapped, fun src mapped => by simp [mapOptChain] at mapped⟩

theorem map_type_maps (src : AnnSrc) (mapped : mapType python ty = .ok src) : Maps ty src :=
  (map_chain_maps python ty).1 src mapped

theorem maps_lossless (src : AnnSrc) (maps : Maps ty src) :
    src.lossless = true ∧ (ty.isOption = false → src.isOptional = false) := by
  induction maps with
  | scalar name src mapped =>
    obtain ⟨n, rfl⟩ := map_scalar_name name src mapped
    exact ⟨rfl, fun _ => rfl⟩
  | optional inner held isPlain _ ih => exact ⟨by simp [AnnSrc.lossless, ih.1, ih.2 isPlain], fun plain => by cases plain⟩
  | opt inner held _ ih => exact ⟨ih.1, fun plain => by cases plain⟩
  | list elem held _ ih => exact ⟨ih.1, fun _ => rfl⟩
  | array elem n held _ ih => exact ⟨ih.1, fun _ => rfl⟩
  | _ => exact ⟨rfl, fun _ => rfl⟩

theorem subscript_ok (scope : Scope) (head : Name) (form : Binding → Bool) (result ann : Ann)
    (subscripted : subscript scope head form result = .ok ann) : ann = result := by
  unfold subscript at subscripted
  split at subscripted
  · cases subscripted
  · split at subscripted
    · cases subscripted
      rfl
    · cases subscripted

def Node.atomic : Node → Bool
  | .option _ => false
  | .opt _ => false
  | .vec _ => false
  | .fixedArray _ _ => false
  | _ => true

theorem atomic_lossless (node : Node) (atomic : Node.atomic node = true) : node.lossless = true ∧ node.optional = false := by
  cases node with
  | option inner => cases atomic
  | opt inner => cases atomic
  | vec elem => cases atomic
  | fixedArray elem n => cases atomic
  | _ => exact ⟨rfl, rfl⟩

theorem spec_atomic (name : Name) (ann : Ann) (node : Node) (found : scalarSpecs.lookup name = some ann)
    (lowers : lower ann = some node) : Node.atomic node = true := by
  have all : ∀ entry ∈ scalarSpecs, ∀ node, lower entry.2 = some node → Node.atomic node = true := by
    intro entry inside node lowered
    simp only [scalarSpecs, List.mem_cons, List.not_mem_nil, or_false] at inside
    rcases inside with rfl | rfl | rfl | rfl | rfl | rfl | rfl | rfl | rfl | rfl | rfl | rfl | rfl | rfl | rfl | rfl <;>
      cases lowered <;> rfl
  exact all (name, ann) (lookup_mem scalarSpecs name ann found) node lowers

theorem imported_object (name : Name) (ann : Ann) (bound : importedScope name = some (.object ann)) :
    scalarSpecs.lookup name = some ann := by
  unfold importedScope at bound
  split_ifs at bound
  · cases bound
  · cases bound
  · cases bound
  · cases bound
  · obtain ⟨found, isFound, same⟩ := Option.map_eq_some_iff.mp bound
    cases same
    exact isFound

variable (classes : List Name)

theorem name_atomic (name : Name) (ann : Ann) (node : Node)
    (evaluated : evalAnn (moduleScope classes) (.name name) = .ok ann) (lowers : lower ann = some node) :
    Node.atomic node = true := by
  simp only [evalAnn, moduleScope] at evaluated
  by_cases isClass : name ∈ classes
  · simp only [isClass, if_true] at evaluated
    cases evaluated
    cases lowers
    rfl
  · simp only [isClass, if_false] at evaluated
    split at evaluated
    · cases evaluated
    · rename_i bound
      cases evaluated
      exact spec_atomic name ann node (imported_object name ann bound) lowers
    · cases evaluated
      cases lowers

theorem lower_optional (ann : Ann) (node : Node) (lowers : lower (optionalOf ann) = some node) :
    (∃ inner, lower ann = some inner ∧ node = .option inner) ∨ (∃ inner, lower ann = some (.option inner) ∧ node = .option inner) := by
  cases ann with
  | optional held =>
    obtain ⟨inner, lowersInner, rfl⟩ := Option.map_eq_some_iff.mp lowers
    exact .inr ⟨inner, by rw [lower, lowersInner]; rfl, rfl⟩
  | _ =>
    obtain ⟨inner, lowersInner, same⟩ := Option.map_eq_some_iff.mp lowers
    exact .inl ⟨inner, lowersInner, same.symm⟩

theorem eval_bind (run : Except Raised Ann) (scope : Scope) (head : Name) (form : Binding → Bool) (wrap : Ann → Ann) (ann : Ann)
    (evaluated : (run.bind fun inner => subscript scope head form (wrap inner)) = .ok ann) :
    ∃ inner, run = .ok inner ∧ ann = wrap inner := by
  cases run with
  | error e => cases evaluated
  | ok inner => exact ⟨inner, rfl, subscript_ok scope head form _ ann evaluated⟩

theorem eval_lossless (src : AnnSrc) (ann : Ann) (node : Node)
    (evaluated : evalAnn (moduleScope classes) src = .ok ann) (lowers : lower ann = some node) (clean : src.lossless = true) :
    node.lossless = true ∧ (src.isOptional = false → node.optional = false) := by
  induction src generalizing ann node with
  | name n =>
    obtain ⟨lossless, plain⟩ := atomic_lossless node (name_atomic classes n ann node evaluated lowers)
    exact ⟨lossless, fun _ => plain⟩
  | optional inner ih =>
    refine ⟨?_, fun plain => by cases plain⟩
    simp only [AnnSrc.lossless, Bool.and_eq_true, Bool.not_eq_true'] at clean
    obtain ⟨held, evaluatedInner, rfl⟩ := eval_bind _ _ _ _ optionalOf ann evaluated
    rcases lower_optional held node lowers with ⟨innerNode, lowersInner, rfl⟩ | ⟨innerNode, lowersInner, rfl⟩
    · obtain ⟨lossless, plain⟩ := ih held innerNode evaluatedInner lowersInner clean.2
      simp [Node.lossless, lossless, plain clean.1]
    · have plain := (ih held _ evaluatedInner lowersInner clean.2).2 clean.1
      cases plain
  | opt inner ih =>
    refine ⟨?_, fun plain => by cases plain⟩
    obtain ⟨held, evaluatedInner, rfl⟩ := eval_bind _ _ _ _ Ann.opt ann evaluated
    obtain ⟨innerNode, lowersInner, rfl⟩ := Option.map_eq_some_iff.mp lowers
    exact (ih held innerNode evaluatedInner lowersInner clean).1
  | list elem ih =>
    obtain ⟨held, evaluatedElem, rfl⟩ := eval_bind _ _ _ _ Ann.list ann evaluated
    obtain ⟨elemNode, lowersElem, rfl⟩ := Option.map_eq_some_iff.mp lowers
    exact ⟨(ih held elemNode evaluatedElem lowersElem clean).1, fun _ => rfl⟩
  | annotated inner n ih =>
    obtain ⟨held, evaluatedInner, rfl⟩ := eval_bind _ _ _ _ (fun ann => Ann.annotated ann (some n)) ann evaluated
    cases held with
    | bytes =>
      cases lowers
      exact ⟨rfl, fun _ => rfl⟩
    | list elem =>
      obtain ⟨elemNode, lowersElem, rfl⟩ := Option.map_eq_some_iff.mp lowers
      have lossless := (ih (.list elem) (.vec elemNode) evaluatedInner (by rw [lower, lowersElem]; rfl) clean).1
      exact ⟨by simpa [Node.lossless] using lossless, fun _ => rfl⟩
    | _ => cases lowers

theorem from_idl_lossless (ann : Ann) (node : Node) (source : FromIdl python classes ann)
    (lowers : lower ann = some node) : node.lossless = true := by
  obtain ⟨src, ⟨ty, mapped⟩, evaluated⟩ := source
  exact (eval_lossless classes src ann node evaluated lowers (maps_lossless ty src (map_type_maps python ty src mapped)).1).1

theorem fields_lossless (hints : Except Raised AnnFields) (fields : Fields)
    (source : HintsFrom python classes hints) (lowered : LoweredFields hints fields) :
    ∀ node ∈ fields.nodes, node.lossless = true := by
  obtain ⟨anns, nodes, rfl, each, rfl⟩ := lowered
  rw [compiled_nodes anns nodes each.length_eq]
  intro node inside
  obtain ⟨entry, member, lowers⟩ := forall_left _ _ _ each node inside
  exact from_idl_lossless python classes entry.2 node (source anns rfl entry member) lowers

theorem class_lossless (defined : ClassDef) (compiled : ClassNode)
    (source : ClassFrom python classes defined) (lowered : LoweredClass defined compiled) :
    ∀ node ∈ compiled.nodes, node.lossless = true := by
  cases defined with
  | intEnum members =>
    cases lowered
    simp [ClassNode.nodes]
  | dataclass hints borshMeta =>
    obtain ⟨fields, loweredFields, rfl⟩ := lowered
    exact fields_lossless python classes hints fields source loweredFields
  | borshEnum variants =>
    obtain ⟨fields, each, rfl⟩ := lowered
    intro node inside
    obtain ⟨variant, isVariant, isNode⟩ := List.mem_flatMap.mp inside
    have isFields : variant.fields ∈ fields := by
      rw [← compiled_variants variants fields each.length_eq]
      exact List.mem_map_of_mem isVariant
    obtain ⟨variantDef, isDef, loweredFields⟩ := forall_left _ _ _ each variant.fields isFields
    exact fields_lossless python classes _ variant.fields (source variantDef isDef) loweredFields node isNode

theorem env_lossless (doc : Doc) (module : Module) (table : Table)
    (emits : emitModule python (loadIdl python doc) = .ok module) (loads : loadModule python module = .ok table) (env : Env)
    (grown : Grown table [] [] env) : LosslessEnv env := by
  intro cls compiled found
  rcases grown.added cls compiled found with empty | ⟨_, _, ⟨defined, isDefined, lowered⟩, _⟩
  · cases empty
  · have source := table_from python module table (module_mapped python _ module emits) loads cls defined isDefined
    exact class_lossless python _ defined compiled source lowered

variable (t : Emitted python)

theorem emitted_lossless : LosslessEnv t.env ∧ t.node.lossless = true := by
  obtain ⟨grown, lowers, _⟩ := field_runs t.table t.place t.ann t.before t.node t.env t.compiles
  have whole := grown_trans t.table [] [] t.before t.env t.started grown
  refine ⟨env_lossless python t.doc t.module t.table t.emits t.loads t.env whole, ?_⟩
  exact from_idl_lossless python _ t.ann t.node ⟨t.src, ⟨_, t.maps⟩, t.evaluates⟩ lowers

variable (env : Env)

theorem read_encodes (node : Node) (lossless : LosslessEnv env) (clean : node.lossless = true) (raw : Bytes)
    (value : Value) (cur : Cursor) (ran : Codec.read env maxDecodeDepth node [] ⟨0, raw⟩ = .ok (value, cur)) :
    encode env value node = .ok (raw.take cur.pos) ∧ cur.pos ≤ raw.length := by
  obtain ⟨bytes, rest, pos, wire⟩ := read_wire env lossless maxDecodeDepth node [] clean ⟨0, raw⟩ value cur ran
  simp only at rest pos
  have emitted := wire_emits env maxDecodeDepth node value bytes (value.height + 1) [] wire (Nat.lt_succ_self _) []
  rw [Nat.zero_add] at pos
  rw [encode, emitted, rest, pos]
  simp

theorem decode_reads (node : Node) (raw : Bytes) (mode : Mode) (value : Value)
    (decoded : decode env raw node mode = .ok value) :
    ∃ cur, Codec.read env maxDecodeDepth node [] ⟨0, raw⟩ = .ok (value, cur) ∧ (mode = .ixData → cur.pos = raw.length) := by
  rw [decode] at decoded
  cases ran : Codec.read env maxDecodeDepth node [] ⟨0, raw⟩ with
  | error e =>
    rw [ran] at decoded
    cases decoded
  | ok pair =>
    obtain ⟨result, cur⟩ := pair
    simp only [ran] at decoded
    split at decoded
    · cases decoded
    · rename_i whole
      cases decoded
      exact ⟨cur, rfl, fun strict => by
        by_contra trailing
        exact whole ⟨strict, trailing⟩⟩

def TypeNode.levels : TypeNode → Nat
  | .option inner => inner.levels + 1
  | _ => 0

def AnnSrc.levels : AnnSrc → Nat
  | .opt inner => inner.levels + 1
  | .optional _ => 1
  | _ => 0

def nodeLevels : Node → Nat
  | .opt inner => nodeLevels inner + 1
  | .option _ => 1
  | _ => 0

theorem no_levels (plain : ty.isOption = false) : ty.levels = 0 := by
  cases ty with
  | option inner => cases plain
  | _ => rfl

theorem maps_levels (src : AnnSrc) (maps : Maps ty src) : src.levels = ty.levels := by
  induction maps with
  | scalar name src mapped =>
    obtain ⟨n, rfl⟩ := map_scalar_name name src mapped
    rfl
  | optional inner held plain _ ih => rw [AnnSrc.levels, TypeNode.levels, no_levels inner plain]
  | opt inner held _ ih => rw [AnnSrc.levels, TypeNode.levels, ih]
  | _ => rfl

theorem eval_levels (src : AnnSrc) (ann : Ann) (node : Node)
    (evaluated : evalAnn (moduleScope classes) src = .ok ann) (lowers : lower ann = some node) (clean : src.lossless = true) :
    nodeLevels node = src.levels := by
  have atomicLevels : ∀ node, Node.optional node = false → nodeLevels node = 0 := by
    intro node plain
    cases node with
    | option inner => cases plain
    | opt inner => cases plain
    | _ => rfl
  induction src generalizing ann node with
  | optional inner ih =>
    obtain ⟨held, evaluatedInner, rfl⟩ := eval_bind _ _ _ _ optionalOf ann evaluated
    rcases lower_optional held node lowers with ⟨innerNode, _, rfl⟩ | ⟨innerNode, _, rfl⟩ <;> rfl
  | opt inner ih =>
    obtain ⟨held, evaluatedInner, rfl⟩ := eval_bind _ _ _ _ Ann.opt ann evaluated
    obtain ⟨innerNode, lowersInner, rfl⟩ := Option.map_eq_some_iff.mp lowers
    rw [nodeLevels, AnnSrc.levels, ih held innerNode evaluatedInner lowersInner clean]
  | name n => exact atomicLevels node ((eval_lossless classes _ ann node evaluated lowers clean).2 rfl)
  | list elem ih => exact atomicLevels node ((eval_lossless classes _ ann node evaluated lowers clean).2 rfl)
  | annotated inner n ih => exact atomicLevels node ((eval_lossless classes _ ann node evaluated lowers clean).2 rfl)

def absentAt : Nat → Value
  | 0 => .none
  | i + 1 => .opt (absentAt i)

theorem absent_at_consumes (node : Node) (i levels : Nat) (nested : i < nodeLevels node) (enough : i < levels)
    (path : Path) : Consumes (Codec.read env levels node path) (absentAt i) (List.replicate i 1 ++ [0]) := by
  induction i generalizing node levels path with
  | zero =>
    cases levels with
    | zero => cases enough
    | succ below =>
      cases node with
      | option inner => exact none_consumes id inner path _
      | opt inner => exact none_consumes .opt inner path _
      | _ => cases nested
  | succ i ih =>
    cases levels with
    | zero => cases enough
    | succ below =>
      cases node with
      | opt inner =>
        have deeper := ih inner below (Nat.lt_of_succ_lt_succ nested) (Nat.lt_of_succ_lt_succ enough) path
        exact some_consumes .opt inner path _ _ _ deeper
      | option inner => exact absurd nested (by simp [nodeLevels])
      | _ => cases nested

theorem decode_absent (node : Node) (i : Nat) (nested : i < nodeLevels node) (enough : i < maxDecodeDepth) :
    decode env (List.replicate i 1 ++ [0]) node .ixData = .ok (absentAt i) := by
  have consumed := absent_at_consumes env node i maxDecodeDepth nested enough [] 0 []
  rw [List.append_nil] at consumed
  rw [decode, consumed]
  simp

theorem emitted_levels : nodeLevels t.node = (normTypeNode t.raw).levels := by
  obtain ⟨_, lowers, _⟩ := field_runs t.table t.place t.ann t.before t.node t.env t.compiles
  have maps := map_type_maps python (normTypeNode t.raw) t.src t.maps
  rw [eval_levels _ t.src t.ann t.node t.evaluates lowers (maps_lossless _ _ maps).1, maps_levels _ _ maps]

theorem emitted_canonical (raw : Bytes) (value : Value)
    (decoded : decode t.env raw t.node .ixData = .ok value) : encode t.env value t.node = .ok raw := by
  obtain ⟨cur, ran, whole⟩ := decode_reads t.env t.node raw .ixData value decoded
  obtain ⟨lossless, clean⟩ := emitted_lossless python t
  rw [(read_encodes t.env t.node lossless clean raw value cur ran).1, whole rfl, List.take_length]

theorem emitted_injective (first second : Bytes) (value : Value)
    (decodedFirst : decode t.env first t.node .ixData = .ok value)
    (decodedSecond : decode t.env second t.node .ixData = .ok value) : first = second := by
  have encoded := emitted_canonical python t first value decodedFirst
  rw [emitted_canonical python t second value decodedSecond] at encoded
  exact (Except.ok.inj encoded).symm

-- The third part is about account data: the decoder may leave bytes behind, and
-- the encoding is what it consumed. The last part counts the options at the top
-- of the type: absence at one level is never absence at another.
theorem decode_canonical (python : Python) (t : Emitted python) :
    (∀ raw value, decode t.env raw t.node .ixData = .ok value → encode t.env value t.node = .ok raw) ∧
    (∀ first second value, decode t.env first t.node .ixData = .ok value → decode t.env second t.node .ixData = .ok value →
      first = second) ∧
    (∀ raw value, decode t.env raw t.node .accountData = .ok value →
      ∃ cur, Codec.read t.env maxDecodeDepth t.node [] ⟨0, raw⟩ = .ok (value, cur) ∧
        encode t.env value t.node = .ok (raw.take cur.pos)) ∧
    (∀ outer inner, outer < inner → inner < (normTypeNode t.raw).levels → inner < maxDecodeDepth →
      ∃ absent present, decode t.env (List.replicate outer 1 ++ [0]) t.node .ixData = .ok absent ∧
        decode t.env (List.replicate inner 1 ++ [0]) t.node .ixData = .ok present ∧ absent ≠ present) := by
  refine ⟨emitted_canonical python t, emitted_injective python t, ?_, ?_⟩
  · intro raw value decoded
    obtain ⟨cur, ran, _⟩ := decode_reads t.env t.node raw .accountData value decoded
    obtain ⟨lossless, clean⟩ := emitted_lossless python t
    exact ⟨cur, ran, (read_encodes t.env t.node lossless clean raw value cur ran).1⟩
  · intro outer inner less nested enough
    rw [← emitted_levels python t] at nested
    have decodedOuter := decode_absent t.env t.node outer (Nat.lt_trans less nested) (Nat.lt_trans less enough)
    have decodedInner := decode_absent t.env t.node inner nested enough
    refine ⟨absentAt outer, absentAt inner, decodedOuter, decodedInner, fun same => ?_⟩
    rw [same] at decodedOuter
    have bytes := emitted_injective python t _ _ _ decodedOuter decodedInner
    have lengths := congrArg List.length bytes
    simp only [List.length_append, List.length_replicate] at lengths
    omega

def plainPython : Python := ⟨fun _ => true, fun _ name => name, fun _ => []⟩

def nestedType : Emitted plainPython where
  doc := { name := [], address := [] }
  module := ⟨[], [], []⟩
  table := []
  emits := rfl
  loads := rfl
  raw := .option (.option (.scalar u8Name))
  src := .opt (.opt (.name u8Name))
  ann := .opt (.opt (.intAlias 1 false))
  maps := rfl
  evaluates := rfl
  place := []
  before := []
  env := []
  node := .opt (.opt (.int 1 false))
  started := grown_refl _ [] []
  compiles := rfl

theorem nested_absence_distinct : ∃ absent present,
    decode [] [0] (.opt (.opt (.int 1 false))) .ixData = .ok absent ∧
    decode [] [1, 0] (.opt (.opt (.int 1 false))) .ixData = .ok present ∧ absent ≠ present :=
  (decode_canonical plainPython nestedType).2.2.2 0 1 (by decide) (by decide) (by decide)

end WakeSol.Gen
