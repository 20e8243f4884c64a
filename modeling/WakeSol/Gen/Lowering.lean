import WakeSol.Gen.Layout

/- The three lowering passes on one definition: normalisation, annotation sources
   and compiled nodes keep the layout. -/
set_option autoImplicit false

namespace WakeSol.Gen

open TextLib RadixLib DictLib FallibleLib Codec WireLib LayoutLib Interface

theorem node_layout_refs (node : Node) : node.layout.refs = node.refs := by
  induction node with
  | option inner ih => exact ih
  | opt inner ih => exact ih
  | vec elem ih => exact ih
  | fixedArray elem n ih => exact ih
  | _ => rfl

theorem fields_layout_refs (fields : Fields) : fields.layouts.flatMap Layout.refs = fields.nodes.flatMap Node.refs := by
  rw [Fields.layouts, List.flatMap_map]
  exact congrArg (fun f => fields.nodes.flatMap f) (funext node_layout_refs)

theorem class_body_refs (compiled : ClassNode) : compiled.body.refs = compiled.refs := by
  cases compiled with
  | struct fields => exact fields_layout_refs fields
  | intEnum members =>
    rw [ClassNode.body, Body.refs, List.flatMap_map]
    simp [ClassNode.refs, ClassNode.nodes]
  | borshEnum variants =>
    rw [ClassNode.body, Body.refs, List.flatMap_map, ClassNode.refs, ClassNode.nodes, List.flatMap_assoc]
    exact congrArg (fun f => variants.entries.flatMap f) (funext fun variant => fields_layout_refs variant.fields)

structure Lowers (classes : List Name) (src : AnnSrc) (layout : Layout Name) (ann : Ann) (node : Node) : Prop where
  evaluates : evalAnn (moduleScope classes) src = .ok ann
  lowers : lower ann = some node
  layout : node.layout = layout
  plain : (∀ held, src ≠ .optional held) → ∀ held, ann ≠ .optional held

theorem used_scope (classes : List Name) (apart : ∀ name ∈ usedNames, name ∉ classes) (name : Name) (used : name ∈ usedNames) :
    moduleScope classes name = importedScope name := by
  rw [moduleScope, if_neg (apart name used)]

def TypeNode.layout : TypeNode → Layout Name
  | .scalar name => (scalarLayouts.lookup name).getD .void
  | .defined name => .named name
  | .option inner => .option inner.layout
  | .coption _ => .void
  | .vec elem => .vec elem.layout
  | .array elem (.count n) => .array elem.layout n
  | .array _ (.generic _) => .void
  | .generic _ => .void
  | .other => .void

def TypeNode.refs : TypeNode → List Name
  | .defined name => [name]
  | .option inner => inner.refs
  | .coption inner => inner.refs
  | .vec elem => elem.refs
  | .array elem _ => elem.refs
  | _ => []

theorem norm_layout : ∀ raw : RawType, (normTypeNode raw).layout = raw.layout
  | .scalar name => by
      rw [normTypeNode, TypeNode.layout, RawType.layout]
      by_cases legacy : name = publicKeyName
      · rw [if_pos legacy, legacy]
        rfl
      · rw [if_neg legacy]
  | .definedLegacy _ => rfl
  | .defined _ _ => rfl
  | .option inner => congrArg Layout.option (norm_layout inner)
  | .coption _ => rfl
  | .vec elem => congrArg Layout.vec (norm_layout elem)
  | .array elem (.count n) => congrArg (fun layout => Layout.array layout n) (norm_layout elem)
  | .array _ (.generic _) => rfl
  | .generic _ => rfl
  | .other => rfl

theorem norm_refs : ∀ raw : RawType, (normTypeNode raw).refs = raw.refs
  | .scalar _ => rfl
  | .definedLegacy _ => rfl
  | .defined _ _ => rfl
  | .option inner => norm_refs inner
  | .coption inner => norm_refs inner
  | .vec elem => norm_refs elem
  | .array elem (.count _) => norm_refs elem
  | .array elem (.generic _) => norm_refs elem
  | .generic _ => rfl
  | .other => rfl

theorem scalar_bound (name : Name) (src : AnnSrc) (mapped : mapScalar name = .ok src) :
    ∃ n ann node, src = .name n ∧ n ∈ usedNames ∧ importedScope n = some (.object ann) ∧ lower ann = some node ∧
      node.layout = (scalarLayouts.lookup name).getD .void ∧ ∀ held, ann ≠ .optional held := by
  unfold mapScalar at mapped
  split_ifs at mapped with isNumber isPubkey isBool isString isBytes
  · cases mapped
    simp only [scalarNames, List.mem_cons, List.not_mem_nil, or_false] at isNumber
    rcases isNumber with rfl | rfl | rfl | rfl | rfl | rfl | rfl | rfl | rfl | rfl | rfl | rfl <;>
      exact ⟨_, _, _, rfl, by decide, rfl, rfl, rfl, by simp⟩
  · cases mapped
    subst isPubkey
    exact ⟨_, _, _, rfl, by decide, rfl, rfl, rfl, by simp⟩
  · cases mapped
    subst isBool
    exact ⟨_, _, _, rfl, by decide, rfl, rfl, rfl, by simp⟩
  · cases mapped
    subst isString
    exact ⟨_, _, _, rfl, by decide, rfl, rfl, rfl, by simp⟩
  · cases mapped
    subst isBytes
    exact ⟨_, _, _, rfl, by decide, rfl, rfl, rfl, by simp⟩

section Lowering

variable (python : Python) (classes : List Name) (apart : ∀ name ∈ usedNames, name ∉ classes)

include apart

theorem subscripts (head : Name) (form : Binding → Bool) (binding : Binding) (result : Ann) (used : head ∈ usedNames)
    (bound : importedScope head = some binding) (fits : form binding = true) :
    subscript (moduleScope classes) head form result = .ok result := by
  rw [subscript, used_scope classes apart head used, bound]
  simp [fits]

variable (src : AnnSrc)

theorem optional_lowers (layout : Layout Name) (plain : ∀ held, src ≠ .optional held)
    (ann : Ann) (node : Node) (inner : Lowers classes src layout ann node) :
    Lowers classes (.optional src) (.option layout) (.optional ann) (.option node) := by
  have kept : optionalOf ann = .optional ann := by
    cases ann with
    | optional held => exact absurd rfl (inner.plain plain held)
    | _ => rfl
  refine ⟨?_, by rw [lower, inner.lowers]; rfl, congrArg Layout.option inner.layout, fun held => absurd rfl (held src)⟩
  rw [evalAnn, inner.evaluates, ← kept]
  exact subscripts classes apart optionalName _ .optionalForm _ (by decide) rfl rfl

theorem opt_lowers (layout : Layout Name) (ann : Ann) (node : Node) (inner : Lowers classes src layout ann node) :
    Lowers classes (.opt src) (.option layout) (.opt ann) (.opt node) := by
  refine ⟨?_, by rw [lower, inner.lowers]; rfl, congrArg Layout.option inner.layout, by simp⟩
  rw [evalAnn, inner.evaluates]
  exact subscripts classes apart optName _ .optForm _ (by decide) rfl rfl

theorem list_lowers (layout : Layout Name) (ann : Ann) (node : Node) (elem : Lowers classes src layout ann node) :
    Lowers classes (.list src) (.vec layout) (.list ann) (.vec node) := by
  refine ⟨?_, by rw [lower, elem.lowers]; rfl, congrArg Layout.vec elem.layout, by simp⟩
  rw [evalAnn, elem.evaluates]
  exact subscripts classes apart listName _ .listForm _ (by decide) rfl rfl

theorem array_lowers (n : Nat) (layout : Layout Name) (ann : Ann) (node : Node)
    (elem : Lowers classes src layout ann node) :
    Lowers classes (.annotated (.list src) n) (.array layout n) (.annotated (.list ann) (some n)) (.fixedArray node n) := by
  refine ⟨?_, by rw [lower, elem.lowers]; rfl, congrArg (fun inner => Layout.array inner n) elem.layout, by simp⟩
  rw [evalAnn, (list_lowers classes apart src layout ann node elem).evaluates]
  exact subscripts classes apart annotatedName _ .annotatedForm _ (by decide) rfl rfl

theorem bytes_lowers (n : Nat) :
    Lowers classes (.annotated (.name bytesName) n) (.array u8Layout n) (.annotated .bytes (some n)) (.fixedBytes n) := by
  refine ⟨?_, rfl, rfl, by simp⟩
  have bound : evalAnn (moduleScope classes) (.name bytesName) = .ok .bytes := by
    rw [evalAnn, used_scope classes apart bytesName (by decide)]
    rfl
  rw [evalAnn, bound]
  exact subscripts classes apart annotatedName _ .annotatedForm _ (by decide) rfl rfl

theorem maps_lower (ty : TypeNode) (src : AnnSrc) (maps : Maps ty src) (closed : ∀ ref ∈ ty.refs, ref ∈ classes) :
    ∃ ann node, Lowers classes src ty.layout ann node := by
  induction maps with
  | scalar name src mapped =>
    obtain ⟨n, ann, node, rfl, used, bound, lowers, layout, plain⟩ := scalar_bound name src mapped
    refine ⟨ann, node, ?_, lowers, layout, fun _ => plain⟩
    rw [evalAnn, used_scope classes apart n used, bound]
  | defined name =>
    have isClass : name ∈ classes := closed name (by simp [TypeNode.refs])
    exact ⟨.cls name, .ref name, by simp [evalAnn, moduleScope, isClass], rfl, rfl, by simp⟩
  | optional inner held isPlain maps ih =>
    obtain ⟨ann, node, lowers⟩ := ih closed
    have plain := (maps_lossless inner held maps).2 isPlain
    refine ⟨_, _, optional_lowers classes apart held _ (fun other same => ?_) ann node lowers⟩
    rw [same] at plain
    cases plain
  | opt inner held _ ih =>
    obtain ⟨ann, node, lowers⟩ := ih closed
    exact ⟨_, _, opt_lowers classes apart held _ ann node lowers⟩
  | list elem held _ ih =>
    obtain ⟨ann, node, lowers⟩ := ih closed
    exact ⟨_, _, list_lowers classes apart held _ ann node lowers⟩
  | bytes n => exact ⟨_, _, bytes_lowers classes apart n⟩
  | array elem n held _ ih =>
    obtain ⟨ann, node, lowers⟩ := ih closed
    exact ⟨_, _, array_lowers classes apart held n _ ann node lowers⟩

theorem fields_lower (fields : List RawField) (lines : List (Name × AnnSrc))
    (mapped : List.Forall₂ (fun field line => mapType python (normTypeNode field.type) = .ok line.2) fields lines)
    (closed : ∀ field ∈ fields, ∀ ref ∈ field.type.refs, ref ∈ classes) :
    ∃ anns nodes, List.Forall₂ (fun line ann => evalAnn (moduleScope classes) line.2 = .ok ann) lines anns ∧
      List.Forall₂ (fun ann node => lower ann = some node) anns nodes ∧ nodes.map Node.layout = fieldLayouts fields := by
  induction mapped with
  | nil => exact ⟨[], [], .nil, .nil, rfl⟩
  | @cons field line fields lines first _ ih =>
    obtain ⟨anns, nodes, evaluates, lowers, layouts⟩ := ih fun other inside => closed other (by simp [inside])
    have isClosed : ∀ ref ∈ (normTypeNode field.type).refs, ref ∈ classes := by
      rw [norm_refs]
      exact closed field (by simp)
    obtain ⟨ann, node, lowered⟩ := maps_lower classes apart _ _ (map_type_maps python _ _ first) isClosed
    refine ⟨ann :: anns, node :: nodes, .cons lowered.evaluates evaluates, .cons lowered.lowers lowers, ?_⟩
    rw [List.map_cons, layouts, lowered.layout, norm_layout]
    rfl

end Lowering

variable (python : Python)

theorem lines_along (owner : Name) (fields : List RawField) (lines : List (Name × AnnSrc))
    (emitted : fieldLines python (fields.map normField) = .ok lines) :
    List.Forall₂ (fun field line => mapType python (normTypeNode field.type) = .ok line.2) fields lines ∧
      (spelledFields python owner lines).map Prod.fst = spelledNames python owner fields := by
  have each := map_m_ok _ _ _ emitted
  rw [List.zipIdx_map, List.forall₂_map_left_iff] at each
  have type : ∀ field, (normField field).type = normTypeNode field.type := by
    intro field
    cases field <;> rfl
  constructor
  · have fronts : fields = fields.zipIdx.map Prod.fst := by rw [List.zipIdx_map_fst]
    rw [fronts, List.forall₂_map_left_iff]
    refine each.imp fun pair line mapped => ?_
    obtain ⟨ann, isAnn, rfl⟩ := map_ok _ _ _ mapped
    rw [← type]
    exact isAnn
  · rw [spelledFields, List.map_map, spelledNames]
    refine forall_maps _ _ _ _ (each.imp fun pair line mapped => ?_)
    obtain ⟨ann, _, rfl⟩ := map_ok _ _ _ mapped
    rfl

theorem eval_fields_ok (scope : Scope) (entries : List (Name × AnnSrc)) (anns : List Ann) (distinct : (entries.map Prod.fst).Nodup)
    (each : List.Forall₂ (fun entry ann => evalAnn scope entry.2 = .ok ann) entries anns) :
    ∃ hints, evalFields scope entries = .ok hints ∧ hints.entries.map Prod.snd = anns := by
  have same := dict_of_distinct entries distinct
  have ran : ((dictOf entries).mapM fun entry => evalAnn scope entry.2) = .ok anns := by
    rw [same]
    exact map_m_of _ _ _ each
  simp only [evalFields, ran]
  refine ⟨_, rfl, ?_⟩
  simp only [same]
  clear ran same distinct
  induction each with
  | nil => rfl
  | cons _ _ ih => rw [List.zipWith_cons_cons, List.map_cons, ih]

theorem lowered_fields (hints : AnnFields) (nodes : List Node)
    (each : List.Forall₂ (fun ann node => lower ann = some node) (hints.entries.map Prod.snd) nodes) :
    ∃ fields, LoweredFields (.ok hints) fields ∧ fields.layouts = nodes.map Node.layout := by
  rw [List.forall₂_map_left_iff] at each
  refine ⟨hints.compiled nodes, ⟨hints, nodes, rfl, each, rfl⟩, ?_⟩
  rw [Fields.layouts, compiled_nodes hints nodes each.length_eq]

theorem attributes_lower (classes : List Name) (apart : ∀ name ∈ usedNames, name ∉ classes) (owner : Name)
    (fields : List RawField) (lines : List (Name × AnnSrc)) (emitted : fieldLines python (fields.map normField) = .ok lines)
    (distinct : (spelledNames python owner fields).Nodup) (closed : ∀ field ∈ fields, ∀ ref ∈ field.type.refs, ref ∈ classes) :
    ∃ lowered, LoweredFields (evalFields (moduleScope classes) (spelledFields python owner lines)) lowered ∧
      lowered.layouts = fieldLayouts fields := by
  obtain ⟨mapped, names⟩ := lines_along python owner fields lines emitted
  obtain ⟨anns, nodes, evaluates, lowers, layouts⟩ := fields_lower python classes apart fields lines mapped closed
  rw [← names] at distinct
  have spelled : List.Forall₂ (fun entry ann => evalAnn (moduleScope classes) entry.2 = .ok ann)
      (spelledFields python owner lines) anns := by
    rw [spelledFields, List.forall₂_map_left_iff]
    exact evaluates
  obtain ⟨hints, isHints, same⟩ := eval_fields_ok _ _ anns distinct spelled
  rw [← same] at lowers
  rw [isHints, ← layouts]
  exact lowered_fields hints nodes lowers

-- A definition as the emitted class lays it out: every alias is an empty struct.
def RawBody.emittedLayout : RawBody → LayoutLib.Body Name
  | .struct fields => .product (fieldLayouts fields)
  | .enum variants => .sum (variants.zipIdx.map fun (variant, i) => (i, fieldLayouts variant.2))
  | .alias _ => .product []

def Along (python : Python) (pairs : List ((Name × List RawField) × Nat)) (emitted : List EmittedVariant) : Prop :=
  List.Forall₂ (fun (pair : (Name × List RawField) × Nat) variant => variant.tag = pair.2 ∧ variant.name = pair.1.1 ∧
    fieldLines python (pair.1.2.map normField) = .ok variant.fields) pairs emitted

inductive EmittedFrom (python : Python) : RawBody → EmittedBody → Prop where
  | struct (fields : List RawField) (lines : List (Name × AnnSrc)) (borshMeta : Option BorshMeta)
      (emitted : fieldLines python (fields.map normField) = .ok lines) :
      EmittedFrom python (.struct fields) (.struct lines borshMeta)
  | unit (variants : List (Name × List RawField)) (units : ∀ variant ∈ variants, variant.2 = []) :
      EmittedFrom python (.enum variants) (.intEnum (variants.zipIdx.map fun (variant, i) => (variant.1, i)))
  | data (variants : List (Name × List RawField)) (emitted : List EmittedVariant)
      (carries : ∃ variant ∈ variants, variant.2 ≠ [])
      (each : Along python variants.zipIdx emitted) :
      EmittedFrom python (.enum variants) (.borshEnum emitted)
  | alias (target : RawType) (borshMeta : Option BorshMeta) : EmittedFrom python (.alias target) (.struct [] borshMeta)

theorem enum_from (variants : List (Name × List RawField)) (body : EmittedBody)
    (emitted : emitEnum python (variants.map fun variant => (variant.1, variant.2.map normField)) = .ok body) :
    EmittedFrom python (.enum variants) body := by
  rw [emitEnum, List.zipIdx_map] at emitted
  split at emitted
  · rename_i units
    cases emitted
    rw [List.map_map]
    refine .unit variants fun variant inside => ?_
    simpa using List.all_eq_true.mp units _ (List.mem_map_of_mem inside)
  · rename_i carries
    obtain ⟨results, ran, rfl⟩ := map_ok _ _ _ emitted
    have each := map_m_ok _ _ _ ran
    rw [List.forall₂_map_left_iff] at each
    refine .data variants results ?_ (each.imp fun pair variant mapped => ?_)
    · simpa using carries
    · obtain ⟨lines, isLines, rfl⟩ := map_ok _ _ _ mapped
      exact ⟨rfl, rfl, isLines⟩

theorem typedef_from (name : Name) (layout : RawLayout) (borshMeta : Option BorshMeta) (cls : EmittedClass)
    (emitted : emitTypedef python (typedef name layout) borshMeta = .ok cls) :
    cls.name = name ∧ EmittedFrom python layout.body cls.body := by
  obtain ⟨body, serialization, fallback⟩ := layout
  unfold emitTypedef at emitted
  split at emitted
  · cases emitted
  · cases body with
    | struct fields =>
      obtain ⟨result, ran, rfl⟩ := map_ok _ _ _ emitted
      obtain ⟨lines, isLines, rfl⟩ := map_ok _ _ _ ran
      exact ⟨rfl, .struct fields lines borshMeta isLines⟩
    | enum variants =>
      cases borshMeta with
      | some found => cases emitted
      | none =>
        obtain ⟨result, ran, rfl⟩ := map_ok _ _ _ emitted
        exact ⟨rfl, enum_from python variants result ran⟩
    | «alias» target =>
      obtain ⟨result, ran, rfl⟩ := map_ok _ _ _ emitted
      obtain ⟨lines, isLines, rfl⟩ := map_ok _ _ _ ran
      cases isLines
      exact ⟨rfl, .alias target borshMeta⟩

theorem defaults_last (names : List Name) (none : ∀ name ∈ names, name ∉ inheritedNames) : defaultsLast names = true := by
  have all : names.dropWhile (fun name => decide (name ∉ inheritedNames)) = [] :=
    List.dropWhile_eq_nil_iff.mpr fun name inside => decide_eq_true (none name inside)
  rw [defaultsLast, all]
  rfl

theorem struct_loads (scope : Scope) (owner : Name) (fields : List RawField) (lines : List (Name × AnnSrc))
    (borshMeta : Option BorshMeta) (names : (spelledFields python owner lines).map Prod.fst = spelledNames python owner fields)
    (clean : CleanFields python owner fields) : loadClass python scope ⟨owner, .struct lines borshMeta⟩ =
      .ok (.dataclass (evalFields scope (spelledFields python owner lines)) borshMeta) := by
  have same := dict_of_distinct (spelledFields python owner lines) (by rw [names]; exact clean.1)
  rw [loadClass]
  refine if_pos ?_
  rw [same, names]
  exact defaults_last _ fun name inside => (clean.2 name inside).2.2.1

theorem unit_body (variants : List (Name × List RawField)) (units : ∀ variant ∈ variants, variant.2 = []) :
    (ClassNode.intEnum ((variants.zipIdx.map fun (variant, i) => (variant.1, i)).map Prod.snd)).body =
      (RawBody.enum variants).emittedLayout := by
  rw [ClassNode.body, RawBody.emittedLayout, List.map_map, List.map_map]
  refine congrArg LayoutLib.Body.sum (List.map_congr_left fun pair inside => ?_)
  have unit := units pair.1 (List.fst_mem_of_mem_zipIdx inside)
  simp [unit, fieldLayouts]

theorem along_tags (pairs : List ((Name × List RawField) × Nat)) (emitted : List EmittedVariant)
    (each : Along python pairs emitted) : emitted.map EmittedVariant.tag = pairs.map Prod.snd :=
  forall_maps _ _ _ _ (each.imp fun _ _ held => held.1)

theorem bound_variants (scope : Scope) (owner : Name) (variants : List (Name × List RawField))
    (emitted : List EmittedVariant) (each : Along python variants.zipIdx emitted)
    (distinct : (variants.map fun variant => python.spelled owner variant.1).Nodup) :
    (dictOf (emitted.map fun variant => (python.spelled owner variant.name, loadVariant python scope variant))).map Prod.snd =
      emitted.map (loadVariant python scope) := by
  have names : emitted.map (fun variant => python.spelled owner variant.name) =
      variants.zipIdx.map fun pair => python.spelled owner pair.1.1 :=
    forall_maps _ _ _ _ (each.imp fun _ _ held => by rw [held.2.1])
  have keys : (emitted.map fun variant => (python.spelled owner variant.name, loadVariant python scope variant)).map Prod.fst =
      variants.map fun variant => python.spelled owner variant.1 := by
    have fronts : variants = variants.zipIdx.map Prod.fst := by rw [List.zipIdx_map_fst]
    rw [List.map_map]
    refine names.trans ?_
    nth_rewrite 2 [fronts]
    rw [List.map_map]
    rfl
  rw [dict_of_distinct _ (by rw [keys]; exact distinct), List.map_map]
  rfl

section Variants

variable (python : Python) (classes : List Name) (apart : ∀ name ∈ usedNames, name ∉ classes)

include apart

theorem variants_lower (pairs : List ((Name × List RawField) × Nat)) (emitted : List EmittedVariant)
    (each : Along python pairs emitted)
    (distinct : ∀ pair ∈ pairs, (spelledNames python pair.1.1 pair.1.2).Nodup)
    (closed : ∀ pair ∈ pairs, ∀ field ∈ pair.1.2, ∀ ref ∈ field.type.refs, ref ∈ classes) :
    ∃ fields, List.Forall₂ (fun variant lowered => LoweredFields (loadVariant python (moduleScope classes) variant).hints lowered)
        emitted fields ∧
      List.zipWith (fun (variant : EmittedVariant) lowered => (variant.tag, Fields.layouts lowered)) emitted fields =
        pairs.map fun (variant, i) => (i, fieldLayouts variant.2) := by
  induction each with
  | nil => exact ⟨[], .nil, rfl⟩
  | @cons pair variant pairs emitted first _ ih =>
    obtain ⟨fields, lowered, layouts⟩ := ih (fun other inside => distinct other (by simp [inside]))
      fun other inside => closed other (by simp [inside])
    obtain ⟨tag, name, lines⟩ := first
    obtain ⟨own, loweredOwn, ownLayouts⟩ := attributes_lower python classes apart pair.1.1 pair.1.2 variant.fields lines
      (distinct pair (by simp)) (closed pair (by simp))
    rw [← name] at loweredOwn
    refine ⟨own :: fields, .cons loweredOwn lowered, ?_⟩
    rw [List.zipWith_cons_cons, List.map_cons, layouts, ownLayouts, tag]

theorem enum_loads (owner : Name) (variants : List (Name × List RawField)) (emitted : List EmittedVariant)
    (each : Along python variants.zipIdx emitted) (clean : CleanBody python owner (.enum variants))
    (closed : ∀ variant ∈ variants, ∀ field ∈ variant.2, ∀ ref ∈ field.type.refs, ref ∈ classes)
    (few : variants.length ≤ 256) :
    ∃ defined compiled, loadClass python (moduleScope classes) ⟨owner, .borshEnum emitted⟩ = .ok defined ∧
      LoweredClass defined compiled ∧ compiled.body = (RawBody.enum variants).emittedLayout := by
  have bound := bound_variants python (moduleScope classes) owner variants emitted each clean.1
  have size : emitted.length = variants.length := by
    have same := each.length_eq
    rw [List.length_zipIdx] at same
    exact same.symm
  have tags : (emitted.map (loadVariant python (moduleScope classes))).map VariantDef.tag = List.range variants.length := by
    rw [List.map_map]
    have same := along_tags python _ emitted each
    rw [List.zipIdx_map_snd, ← List.range_eq_range'] at same
    exact same
  have valid : ((emitted.map (loadVariant python (moduleScope classes))).map VariantDef.tag).Nodup ∧
      ∀ variant ∈ emitted.map (loadVariant python (moduleScope classes)), variant.tag < 256 := by
    refine ⟨by rw [tags]; exact List.nodup_range, fun variant inside => ?_⟩
    have isTag := List.mem_map_of_mem (f := VariantDef.tag) inside
    rw [tags, List.mem_range] at isTag
    omega
  obtain ⟨fields, lowered, layouts⟩ := variants_lower python classes apart variants.zipIdx emitted each
    (fun pair inside => (clean.2 pair.1 (List.fst_mem_of_mem_zipIdx inside)).2.2.2.1)
    (fun pair inside => closed pair.1 (List.fst_mem_of_mem_zipIdx inside))
  have each : List.Forall₂ (fun variant compiled => LoweredFields variant.hints compiled)
      (emitted.map (loadVariant python (moduleScope classes))) fields := by
    rw [List.forall₂_map_left_iff]
    exact lowered
  refine ⟨.borshEnum ⟨_, valid.1, valid.2⟩, .borshEnum (VariantDefs.compiled ⟨_, valid.1, valid.2⟩ fields), ?_,
    ⟨fields, each, rfl⟩, ?_⟩
  · simp only [loadClass, bound, List.length_map, size]
    rw [if_neg (by omega), dif_pos valid]
  · rw [ClassNode.body, RawBody.emittedLayout, ← layouts]
    simp only [VariantDefs.compiled, List.map_zipWith, List.zipWith_map_left]
    rfl

theorem class_lowers (owner : Name) (body : RawBody) (emitted : EmittedBody) (source : EmittedFrom python body emitted)
    (clean : CleanBody python owner body) (closed : ∀ raw ∈ body.fieldTypes, ∀ ref ∈ raw.refs, ref ∈ classes)
    (inhabited : body ≠ .enum [])
    (tagged : ∀ variants, body = .enum variants → (∃ variant ∈ variants, variant.2 ≠ []) → variants.length ≤ 256) :
    ∃ defined compiled, loadClass python (moduleScope classes) ⟨owner, emitted⟩ = .ok defined ∧ LoweredClass defined compiled ∧
      compiled.body = body.emittedLayout := by
  cases source with
  | struct fields lines borshMeta isLines =>
    obtain ⟨_, names⟩ := lines_along python owner fields lines isLines
    obtain ⟨lowered, isLowered, layouts⟩ := attributes_lower python classes apart owner fields lines isLines clean.1
      fun field inside => closed field.type (List.mem_map_of_mem inside)
    refine ⟨_, .struct lowered, struct_loads python _ owner fields lines borshMeta names clean, ⟨lowered, isLowered, rfl⟩, ?_⟩
    rw [ClassNode.body, layouts]
    rfl
  | unit variants units =>
    refine ⟨.intEnum _, _, ?_, rfl, unit_body variants units⟩
    have fronts : variants.zipIdx.map Prod.fst = variants := List.zipIdx_map_fst _ _
    have distinct := clean.1
    rw [← fronts, List.map_map] at distinct
    have nonempty : variants.zipIdx.map (fun (variant, i) => (variant.1, i)) ≠ [] := by
      simpa using fun empty : variants = [] => inhabited (by rw [empty])
    simp only [loadClass]
    rw [if_neg nonempty, List.map_map]
    exact if_pos distinct
  | data variants emitted carries each =>
    refine enum_loads python classes apart owner variants emitted each clean (fun variant inside field isField => ?_)
      (tagged variants rfl carries)
    exact closed field.type (List.mem_flatMap.mpr ⟨variant, inside, List.mem_map_of_mem isField⟩)
  | «alias» target borshMeta => exact ⟨_, _, rfl, ⟨_, ⟨⟨[], by simp⟩, [], rfl, .nil, rfl⟩, rfl⟩, rfl⟩

end Variants

end WakeSol.Gen
