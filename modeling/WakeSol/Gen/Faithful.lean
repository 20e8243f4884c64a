import WakeSol.Gen.Lowering
import WakeSol.Codec.Complete

/- The emitted module against its document: which definitions and type nodes keep
   the layout the document gives them. -/
set_option autoImplicit false

namespace WakeSol.Gen

open TextLib RadixLib DictLib FallibleLib Codec WireLib LayoutLib Interface

theorem add_inline_map (types : List RawTypeDef) (inline : List (Option RawTypeDef)) :
    addInline (types.map fun t => typedef t.name t.toRawLayout) (inline.map fun entry => entry.map fun t => typedef t.name t.toRawLayout) =
      (addMissing types inline).map fun t => typedef t.name t.toRawLayout := by
  induction inline generalizing types with
  | nil => rfl
  | cons entry rest ih =>
    cases entry with
    | none => exact ih types
    | some tdef =>
      have names : (types.map fun t => typedef t.name t.toRawLayout).map TypeDef.name = types.map RawTypeDef.name := by
        rw [List.map_map]
        rfl
      have added : addMissing types (some tdef :: rest) =
          addMissing (if tdef.name ∈ types.map RawTypeDef.name then types else types ++ [tdef]) rest := rfl
      rw [added, ← ih]
      simp only [List.map_cons, Option.map_some]
      by_cases present : tdef.name ∈ types.map RawTypeDef.name
      · rw [if_pos present]
        exact congrArg (fun start => addInline start _) (if_pos (by rw [names]; exact present))
      · rw [if_neg present, List.map_append]
        exact congrArg (fun start => addInline start _) (if_neg (by rw [names]; exact present))

variable (python : Python) (doc : Doc)

theorem idl_types : (loadIdl python doc).types = doc.definitions.map fun t => typedef t.name t.toRawLayout := by
  have accounts : doc.accounts.map (·.inline) =
      (doc.accounts.map (·.definition)).map fun entry => entry.map fun t => typedef t.name t.toRawLayout := by
    rw [List.map_map]
    refine List.map_congr_left fun raw _ => ?_
    simp [RawAccountRoot.inline, RawAccountRoot.definition, Function.comp_def]
  have events : doc.events.map (·.inline) =
      (doc.events.map (·.definition)).map fun entry => entry.map fun t => typedef t.name t.toRawLayout := by
    rw [List.map_map]
    refine List.map_congr_left fun raw _ => ?_
    simp [RawEvent.inline, RawEvent.definition, Function.comp_def, typedef, normBody, serializationOf]
  rw [loadIdl, Doc.definitions, accounts, events]
  simp only [add_inline_map]

theorem missing_distinct (types : List RawTypeDef) (inline : List (Option RawTypeDef)) (distinct : (types.map RawTypeDef.name).Nodup) :
    ((addMissing types inline).map RawTypeDef.name).Nodup := by
  induction inline generalizing types with
  | nil => exact distinct
  | cons entry rest ih =>
    cases entry with
    | none => exact ih types distinct
    | some tdef =>
      refine ih _ ?_
      simp only
      split
      · exact distinct
      · rename_i absent
        rw [List.map_append]
        exact List.nodup_append.mpr ⟨distinct, by simp, by
          intro name inside other isOther
          rw [List.map_singleton, List.mem_singleton] at isOther
          rintro rfl
          exact absent (isOther ▸ inside)⟩

theorem definitions_distinct (distinct : (doc.types.map RawTypeDef.name).Nodup) :
    (doc.definitions.map RawTypeDef.name).Nodup :=
  missing_distinct _ _ (missing_distinct _ _ distinct)

theorem definition_unique (distinct : (doc.types.map RawTypeDef.name).Nodup) (first second : RawTypeDef)
    (isFirst : first ∈ doc.definitions) (isSecond : second ∈ doc.definitions) (same : first.name = second.name) : first = second :=
  List.inj_on_of_nodup_map (definitions_distinct doc distinct) isFirst isSecond same

theorem graph_definition (distinct : (doc.types.map RawTypeDef.name).Nodup) (tdef : RawTypeDef)
    (inside : tdef ∈ doc.definitions) : idlGraph doc tdef.name = some tdef.body.layout := by
  cases found : doc.definitions.find? fun other => other.name == tdef.name with
  | none => simpa using List.find?_eq_none.mp found tdef inside
  | some other =>
    have named : other.name = tdef.name := by simpa using List.find?_some found
    have same := definition_unique doc distinct other tdef (List.mem_of_find?_eq_some found) inside named
    rw [idlGraph, found, same]
    rfl

theorem root_class (idl : Idl) (borshMeta : Root → BorshMeta) (root : Root) (cls : EmittedClass)
    (emitted : emitRoot python idl borshMeta root = .ok cls) :
    ∃ tdef ∈ idl.types, tdef.name = root.name ∧ emitTypedef python tdef (some (borshMeta root)) = .ok cls := by
  unfold emitRoot at emitted
  split at emitted
  · cases emitted
  · rename_i tdef found
    rw [typeLayout] at found
    exact ⟨tdef, List.mem_reverse.mp (List.mem_of_find?_eq_some found), by simpa using List.find?_some found, emitted⟩

theorem definition_from (tdef : TypeDef) (inside : tdef ∈ (loadIdl python doc).types)
    (borshMeta : Option BorshMeta) (cls : EmittedClass) (emitted : emitTypedef python tdef borshMeta = .ok cls) :
    ∃ raw ∈ doc.definitions, cls.name = raw.name ∧ EmittedFrom python raw.body cls.body := by
  rw [idl_types] at inside
  obtain ⟨raw, isRaw, rfl⟩ := List.mem_map.mp inside
  obtain ⟨name, source⟩ := typedef_from python raw.name raw.toRawLayout borshMeta cls emitted
  exact ⟨raw, isRaw, name, source⟩

theorem root_name (borshMeta : Root → BorshMeta) (root : Root) (cls : EmittedClass)
    (emitted : emitRoot python (loadIdl python doc) borshMeta root = .ok cls) : cls.name = root.name := by
  obtain ⟨tdef, inside, named, ran⟩ := root_class python _ borshMeta root cls emitted
  rw [idl_types] at inside
  obtain ⟨raw, _, rfl⟩ := List.mem_map.mp inside
  rw [(typedef_from python raw.name raw.toRawLayout _ cls ran).1]
  exact named

variable (module : Module)

theorem module_classes (emits : emitModule python (loadIdl python doc) = .ok module) :
    (∀ cls ∈ module.classes, ∃ tdef ∈ doc.definitions, cls.name = tdef.name ∧ EmittedFrom python tdef.body cls.body) ∧
    (∀ tdef ∈ doc.definitions, ∃ cls ∈ module.classes, cls.name = tdef.name) ∧
    ∀ ix ∈ (loadIdl python doc).instructions, ∃ method, emitInstruction python ix = .ok method := by
  obtain ⟨types, isTypes, emits⟩ := bind_ok _ _ _ emits
  obtain ⟨accounts, isAccounts, emits⟩ := bind_ok _ _ _ emits
  obtain ⟨events, isEvents, emits⟩ := bind_ok _ _ _ emits
  obtain ⟨methods, isMethods, emits⟩ := bind_ok _ _ _ emits
  cases emits
  have eachType := map_m_ok _ _ _ isTypes
  have eachAccount := map_m_ok _ _ _ isAccounts
  have eachEvent := map_m_ok _ _ _ isEvents
  refine ⟨fun cls inside => ?_, fun raw isRaw => ?_, fun ix inside => ?_⟩
  · rcases List.mem_append.mp inside with front | isEvent
    · rcases List.mem_append.mp front with isType | isAccount
      · obtain ⟨tdef, isDef, ran⟩ := forall_left _ _ _ eachType cls isType
        exact definition_from python doc tdef (List.mem_of_mem_filter isDef) _ cls ran
      · obtain ⟨root, _, ran⟩ := forall_left _ _ _ eachAccount cls isAccount
        obtain ⟨tdef, isDef, _, ran⟩ := root_class python _ _ root cls ran
        exact definition_from python doc tdef isDef _ cls ran
    · obtain ⟨root, _, ran⟩ := forall_left _ _ _ eachEvent cls isEvent
      obtain ⟨tdef, isDef, _, ran⟩ := root_class python _ _ root cls ran
      exact definition_from python doc tdef isDef _ cls ran
  · have isDef : typedef raw.name raw.toRawLayout ∈ (loadIdl python doc).types := by
      rw [idl_types]
      exact List.mem_map_of_mem isRaw
    by_cases isAccount : raw.name ∈ (loadIdl python doc).accounts.map Root.name
    · obtain ⟨root, isRoot, same⟩ := List.mem_map.mp isAccount
      obtain ⟨cls, isClass, ran⟩ := forall_left _ _ _ eachAccount.flip root isRoot
      exact ⟨cls, by simp [isClass], by rw [root_name python doc _ root cls ran, same]⟩
    · by_cases isEvent : raw.name ∈ (loadIdl python doc).events.map Root.name
      · obtain ⟨root, isRoot, same⟩ := List.mem_map.mp isEvent
        obtain ⟨cls, isClass, ran⟩ := forall_left _ _ _ eachEvent.flip root isRoot
        exact ⟨cls, by simp [isClass], by rw [root_name python doc _ root cls ran, same]⟩
      · have isPlain : typedef raw.name raw.toRawLayout ∈ plainTypes (loadIdl python doc) :=
          List.mem_filter.mpr ⟨isDef, decide_eq_true ⟨isAccount, isEvent⟩⟩
        obtain ⟨cls, isClass, ran⟩ := forall_left _ _ _ eachType.flip _ isPlain
        exact ⟨cls, by simp [isClass], (typedef_from python raw.name raw.toRawLayout none cls ran).1⟩
  · obtain ⟨method, _, ran⟩ := forall_left _ _ _ (map_m_ok _ _ _ isMethods).flip ix inside
    exact ⟨method, ran⟩

theorem instruction_mapped (ix : Instruction) (method : Method) (emitted : emitInstruction python ix = .ok method) :
    (∀ arg ∈ ix.args, ∃ src, mapType python arg.2 = .ok src) ∧ ∀ ty ∈ ix.returns, ∃ src, mapType python ty = .ok src := by
  obtain ⟨_, _, anns, returns, isAnns, isReturns, _⟩ := instruction_emitted python ix method emitted
  constructor
  · intro arg inside
    obtain ⟨src, _, mapped⟩ := forall_left _ _ _ (map_m_ok _ _ _ isAnns).flip arg inside
    exact ⟨src, mapped⟩
  · intro ty isType
    rw [Option.mem_def.mp isType] at isReturns
    obtain ⟨src, mapped, _⟩ := map_ok _ _ _ isReturns
    exact ⟨src, mapped⟩

theorem body_mapped (body : RawBody) (emitted : EmittedBody) (source : EmittedFrom python body emitted) :
    ∀ raw ∈ body.fieldTypes, ∃ src, mapType python (normTypeNode raw) = .ok src := by
  have lines : ∀ (fields : List RawField) (lines : List (Name × AnnSrc)), fieldLines python (fields.map normField) = .ok lines →
      ∀ raw ∈ fields.map RawField.type, ∃ src, mapType python (normTypeNode raw) = .ok src := by
    intro fields lines isLines raw inside
    obtain ⟨field, isField, rfl⟩ := List.mem_map.mp inside
    obtain ⟨line, _, mapped⟩ := forall_left _ _ _ (lines_along python [] fields lines isLines).1.flip field isField
    exact ⟨line.2, mapped⟩
  cases source with
  | struct fields found borshMeta isLines => exact lines fields found isLines
  | unit variants units =>
    intro raw inside
    obtain ⟨variant, isVariant, isType⟩ := List.mem_flatMap.mp inside
    rw [units variant isVariant] at isType
    cases isType
  | data variants emitted carries each =>
    intro raw inside
    obtain ⟨variant, isVariant, isType⟩ := List.mem_flatMap.mp inside
    obtain ⟨i, bound, same⟩ := List.mem_iff_getElem.mp isVariant
    have isPair : (variant, i) ∈ variants.zipIdx := List.mem_zipIdx_iff_getElem?.mpr (by simp [← same])
    obtain ⟨found, _, _, _, isLines⟩ := forall_left _ _ _ each.flip _ isPair
    exact lines variant.2 found.fields isLines raw isType
  | «alias» target borshMeta => simp [RawBody.fieldTypes]

theorem raw_layout_refs : ∀ (raw : RawType) (ref : Name), ref ∈ raw.layout.refs → ref ∈ raw.refs
  | .scalar name, ref, inside => by
      have all : ∀ entry ∈ scalarLayouts, entry.2.refs = [] := by decide
      rw [RawType.layout] at inside
      cases found : scalarLayouts.lookup name with
      | none =>
        rw [found] at inside
        cases inside
      | some layout =>
        rw [found, Option.getD_some, all _ (lookup_mem _ _ _ found)] at inside
        cases inside
  | .definedLegacy _, _, inside => inside
  | .defined _ _, _, inside => inside
  | .option inner, ref, inside => raw_layout_refs inner ref inside
  | .coption _, _, inside => by cases inside
  | .vec elem, ref, inside => raw_layout_refs elem ref inside
  | .array elem (.count _), ref, inside => raw_layout_refs elem ref inside
  | .array _ (.generic _), _, inside => by cases inside
  | .generic _, _, inside => by cases inside
  | .other, _, inside => by cases inside

theorem emitted_refs (body : RawBody) (ref : Name) (inside : ref ∈ body.emittedLayout.refs) :
    ∃ raw ∈ body.fieldTypes, ref ∈ raw.refs := by
  have fields : ∀ fields : List RawField, ref ∈ (fieldLayouts fields).flatMap Layout.refs →
      ∃ raw ∈ fields.map RawField.type, ref ∈ raw.refs := by
    intro fields isRef
    obtain ⟨layout, isLayout, isRef⟩ := List.mem_flatMap.mp isRef
    obtain ⟨field, isField, rfl⟩ := List.mem_map.mp isLayout
    exact ⟨field.type, List.mem_map_of_mem isField, raw_layout_refs field.type ref isRef⟩
  cases body with
  | struct members => exact fields members inside
  | enum variants =>
    obtain ⟨entry, isEntry, isRef⟩ := List.mem_flatMap.mp inside
    obtain ⟨pair, isPair, rfl⟩ := List.mem_map.mp isEntry
    obtain ⟨raw, isRaw, mentioned⟩ := fields pair.1.2 isRef
    exact ⟨raw, List.mem_flatMap.mpr ⟨pair.1, List.fst_mem_of_mem_zipIdx isPair, isRaw⟩, mentioned⟩
  | «alias» target => cases inside

theorem table_names (table : Table) (loaded : loadModule python module = .ok table)
    (emitted : EmittedClass) (inside : emitted ∈ module.classes) : (table.lookup emitted.name).isSome = true := by
  obtain ⟨entries, ran, rfl⟩ := map_ok _ _ _ loaded
  obtain ⟨entry, isEntry, loads⟩ := forall_left _ _ _ (map_m_ok _ _ _ ran).flip emitted inside
  obtain ⟨defined, _, rfl⟩ := map_ok _ _ _ loads
  exact lookup_key _ _ (dict_keys entries _ (List.mem_map_of_mem isEntry))

theorem class_names (emits : emitModule python (loadIdl python doc) = .ok module)
    (name : Name) : name ∈ module.classes.map EmittedClass.name ↔ name ∈ doc.definitions.map RawTypeDef.name := by
  constructor
  · intro inside
    obtain ⟨cls, isClass, rfl⟩ := List.mem_map.mp inside
    obtain ⟨tdef, isDef, named, _⟩ := (module_classes python doc module emits).1 cls isClass
    exact List.mem_map.mpr ⟨tdef, isDef, named.symm⟩
  · intro inside
    obtain ⟨tdef, isDef, rfl⟩ := List.mem_map.mp inside
    obtain ⟨cls, isClass, named⟩ := (module_classes python doc module emits).2.1 tdef isDef
    exact List.mem_map.mpr ⟨cls, isClass, named⟩

theorem imported_used (name : Name) (binding : Binding) (bound : importedScope name = some binding) : name ∈ usedNames := by
  unfold importedScope at bound
  split_ifs at bound with isOptional isAnnotated isOpt isList
  · simp [usedNames, isOptional]
  · simp [usedNames, isAnnotated]
  · simp [usedNames, isOpt]
  · simp [usedNames, isList]
  · obtain ⟨ann, found, _⟩ := Option.map_eq_some_iff.mp bound
    exact List.mem_append_right _ (List.mem_map.mpr ⟨_, lookup_mem _ _ _ found, rfl⟩)

theorem eval_refs (classes : List Name) (ty : TypeNode) (src : AnnSrc) (maps : Maps ty src) (ann : Ann)
    (evaluated : evalAnn (moduleScope classes) src = .ok ann) : ∀ ref ∈ ty.refs, ref ∈ classes ∨ ref ∈ usedNames := by
  induction maps generalizing ann with
  | scalar name src mapped => exact fun ref inside => by cases inside
  | defined name =>
    intro ref inside
    rw [TypeNode.refs, List.mem_singleton] at inside
    subst inside
    by_cases isClass : ref ∈ classes
    · exact .inl isClass
    · rw [evalAnn, moduleScope, if_neg isClass] at evaluated
      cases bound : importedScope ref with
      | none =>
        rw [bound] at evaluated
        cases evaluated
      | some binding => exact .inr (imported_used ref binding bound)
  | optional inner held _ _ ih =>
    obtain ⟨innerAnn, evaluatedInner, _⟩ := eval_bind _ _ _ _ optionalOf ann evaluated
    exact ih innerAnn evaluatedInner
  | opt inner held _ ih =>
    obtain ⟨innerAnn, evaluatedInner, _⟩ := eval_bind _ _ _ _ Ann.opt ann evaluated
    exact ih innerAnn evaluatedInner
  | list elem held _ ih =>
    obtain ⟨elemAnn, evaluatedElem, _⟩ := eval_bind _ _ _ _ Ann.list ann evaluated
    exact ih elemAnn evaluatedElem
  | bytes n => exact fun ref inside => by cases inside
  | array elem n held _ ih =>
    obtain ⟨listAnn, evaluatedList, _⟩ := eval_bind _ _ _ _ (fun ann => Ann.annotated ann (some n)) ann evaluated
    obtain ⟨elemAnn, evaluatedElem, _⟩ := eval_bind _ _ _ _ Ann.list listAnn evaluatedList
    exact ih elemAnn evaluatedElem

section Document

variable (python : Python) (doc : Doc) (hygienic : Hygienic python doc) (module : Module)
  (emits : emitModule python (loadIdl python doc) = .ok module)

include hygienic emits

theorem class_from (cls : EmittedClass) (inside : cls ∈ module.classes) (tdef : RawTypeDef) (isDef : tdef ∈ doc.definitions)
    (named : cls.name = tdef.name) : EmittedFrom python tdef.body cls.body := by
  obtain ⟨other, isOther, sameName, source⟩ := (module_classes python doc module emits).1 cls inside
  rw [definition_unique doc hygienic.distinct tdef other isDef isOther (named.symm.trans sameName)]
  exact source

theorem nodes_mapped : ∀ raw ∈ doc.typeNodes, ∃ src, mapType python (normTypeNode raw) = .ok src := by
  intro raw inside
  rcases List.mem_append.mp inside with isField | isArg
  · obtain ⟨tdef, isDef, isType⟩ := List.mem_flatMap.mp isField
    obtain ⟨cls, isClass, named⟩ := (module_classes python doc module emits).2.1 tdef isDef
    exact body_mapped python _ _ (class_from python doc hygienic module emits cls isClass tdef isDef named) raw isType
  · obtain ⟨ix, isIx, isType⟩ := List.mem_flatMap.mp isArg
    obtain ⟨method, emitted⟩ := (module_classes python doc module emits).2.2 (instruction python ix) (List.mem_map_of_mem isIx)
    obtain ⟨args, returns⟩ := instruction_mapped python _ method emitted
    rcases List.mem_append.mp isType with isArg | isReturn
    · obtain ⟨arg, member, rfl⟩ := List.mem_map.mp isArg
      exact args (arg.1, normTypeNode arg.2) (List.mem_map.mpr ⟨arg, member, rfl⟩)
    · have isRaw : ix.returns = some raw := Option.mem_toList.mp isReturn
      exact returns (normTypeNode raw) (by simp [instruction, isRaw])

theorem names_apart : ∀ name ∈ usedNames, name ∉ module.classes.map EmittedClass.name := by
  intro name used isClass
  obtain ⟨tdef, isDef, rfl⟩ := List.mem_map.mp ((class_names python doc module emits name).mp isClass)
  exact (hygienic.definitions tdef isDef).2.1 (by simp [moduleNames, used])

section Sufficient

variable (representable : Representable doc)

include representable

omit hygienic in
theorem fields_closed (tdef : RawTypeDef) (isDef : tdef ∈ doc.definitions) (raw : RawType) (inside : raw ∈ tdef.body.fieldTypes)
    (ref : Name) (mentioned : ref ∈ raw.refs) : ref ∈ module.classes.map EmittedClass.name := by
  rw [class_names python doc module emits]
  exact representable.closed raw (List.mem_append_left _ (List.mem_flatMap.mpr ⟨tdef, isDef, inside⟩)) ref mentioned

theorem definition_lowers (cls : EmittedClass) (inside : cls ∈ module.classes) (tdef : RawTypeDef)
    (isDef : tdef ∈ doc.definitions) (named : cls.name = tdef.name) :
    ∃ defined compiled, loadClass python module.scope cls = .ok defined ∧ LoweredClass defined compiled ∧
      compiled.body = tdef.body.emittedLayout := by
  have source := class_from python doc hygienic module emits cls inside tdef isDef named
  obtain ⟨name, body⟩ := cls
  simp only at named
  subst named
  exact class_lowers python _ (names_apart python doc hygienic module emits) tdef.name tdef.body body source
    (hygienic.definitions tdef isDef).2.2 (fields_closed python doc module emits representable tdef isDef)
    (representable.inhabited tdef isDef) (representable.tagged tdef isDef)

theorem document_loads : ∃ table, loadModule python module = .ok table := by
  obtain ⟨entries, isEntries⟩ := map_m_total (fun (emitted : EmittedClass) =>
    (fun defined => (emitted.name, defined)) <$> loadClass python module.scope emitted) module.classes fun cls inside => by
      obtain ⟨tdef, isDef, named, _⟩ := (module_classes python doc module emits).1 cls inside
      obtain ⟨defined, _, loads, _⟩ := definition_lowers python doc hygienic module emits representable cls inside tdef isDef named
      exact ⟨(cls.name, defined), by rw [loads]; rfl⟩
  exact ⟨dictOf entries, by rw [loadModule, isEntries]; rfl⟩

section Loaded

variable (table : Table) (loads : loadModule python module = .ok table)

include loads

theorem table_bodies (name : Name) (defined : ClassDef) (found : table.lookup name = some defined) :
    ∃ tdef ∈ doc.definitions, tdef.name = name ∧ ∃ compiled, LoweredClass defined compiled ∧
      compiled.body = tdef.body.emittedLayout := by
  obtain ⟨cls, inside, rfl, loadsClass⟩ := table_class python module table loads name defined found
  obtain ⟨tdef, isDef, named, _⟩ := (module_classes python doc module emits).1 cls inside
  obtain ⟨loaded, compiled, isLoaded, lowered, body⟩ :=
    definition_lowers python doc hygienic module emits representable cls inside tdef isDef named
  rw [loadsClass] at isLoaded
  cases isLoaded
  exact ⟨tdef, isDef, named.symm, compiled, lowered, body⟩

omit hygienic representable in
theorem definition_listed (name : Name) (inside : name ∈ doc.definitions.map RawTypeDef.name) :
    (table.lookup name).isSome = true := by
  rw [← class_names python doc module emits] at inside
  obtain ⟨cls, isClass, rfl⟩ := List.mem_map.mp inside
  exact table_names python module table loads cls isClass

theorem table_complete : CompleteTable table := by
  intro name defined found
  obtain ⟨tdef, isDef, _, compiled, lowered, body⟩ :=
    table_bodies python doc hygienic module emits representable table loads name defined found
  refine ⟨compiled, lowered, fun ref inside => ?_⟩
  rw [← class_body_refs, body] at inside
  obtain ⟨raw, isRaw, mentioned⟩ := emitted_refs tdef.body ref inside
  have isName := fields_closed python doc module emits representable tdef isDef raw isRaw ref mentioned
  rw [class_names python doc module emits] at isName
  exact definition_listed python doc module emits table loads ref isName

theorem cached_body (env : Env) (grown : Grown table [] [] env) (name : Name) (cached : Known [] env name) :
    ∃ body, nodeGraph env name = some body ∧ (∀ ref ∈ body.refs, Known [] env ref) ∧
      (idlGraph doc name = some body ∨
        (body = .product [] ∧ ∃ target, idlGraph doc name = some (.synonym target) ∧ Empty (idlGraph doc) target)) := by
  obtain ⟨compiled, found⟩ := Option.isSome_iff_exists.mp (cached.resolve_right (by simp))
  rcases grown.added name compiled found with empty | ⟨_, _, ⟨defined, isDefined, lowered⟩, refs⟩
  · cases empty
  · obtain ⟨tdef, isDef, rfl, other, loweredOther, body⟩ :=
      table_bodies python doc hygienic module emits representable table loads name defined isDefined
    rw [lowered_unique defined other compiled loweredOther lowered] at body
    have graph := graph_definition doc hygienic.distinct tdef isDef
    refine ⟨compiled.body, by rw [nodeGraph, found]; rfl, by rw [class_body_refs]; exact refs, ?_⟩
    rw [graph, body]
    cases kind : tdef.body with
    | struct fields => exact .inl rfl
    | enum variants => exact .inl rfl
    | «alias» target => exact .inr ⟨rfl, target.layout, rfl, representable.aliases tdef isDef target kind⟩

theorem graphs_cover (env : Env) (grown : Grown table [] [] env) :
    Covers (idlGraph doc) (nodeGraph env) (Known [] env) ∧ Covers (nodeGraph env) (idlGraph doc) (Known [] env) := by
  have cached := cached_body python doc hygienic module emits representable table loads env grown
  constructor
  · intro name known
    obtain ⟨body, found, refs, same | ⟨rfl, target, isAlias, empty⟩⟩ := cached name known
    · refine .inr ⟨by rw [same, found], fun other isOther => ?_⟩
      rw [same] at isOther
      cases isOther
      exact refs
    · refine .inl fun shape raw encodes => ?_
      rw [synonym_meaning (idlGraph doc) name target isAlias, empty] at encodes
      exact (empty_product (nodeGraph env) name found shape raw).mpr encodes
  · intro name known
    obtain ⟨body, found, refs, same | ⟨rfl, target, isAlias, empty⟩⟩ := cached name known
    · refine .inr ⟨by rw [same, found], fun other isOther => ?_⟩
      rw [found] at isOther
      cases isOther
      exact refs
    · refine .inl fun shape raw encodes => ?_
      rw [empty_product (nodeGraph env) name found shape raw] at encodes
      exact (synonym_meaning (idlGraph doc) name target isAlias shape raw).mpr ((empty shape raw).mpr encodes)

theorem same_layout (env : Env) (grown : Grown table [] [] env) (node : Node) (clean : node.lossless = true)
    (known : KnownRefs [] node.refs env) : SameLayout doc node.layout env node := by
  obtain ⟨forward, backward⟩ := graphs_cover python doc hygienic module emits representable table loads env grown
  have same := same_meaning (idlGraph doc) (nodeGraph env) (Known [] env) forward backward node.layout
    (by rw [node_layout_refs]; exact known)
  have lossless := env_lossless python doc module table emits loads env grown
  constructor
  · intro shape raw encodes
    exact encodes_wire env lossless node.layout shape raw ((same shape raw).mp encodes) node rfl clean
  · intro levels value raw wire
    obtain ⟨shape, shaped, encodes⟩ := wire_encodes env levels node value raw wire
    exact ⟨shape, shaped, (same shape raw).mpr encodes⟩

theorem document_faithful : Faithful python doc module table := by
  have complete := table_complete python doc hygienic module emits representable table loads
  refine ⟨emits, loads, fun tdef isDef before started => ?_, fun raw inside => ?_⟩
  · have listed := definition_listed python doc module emits table loads tdef.name (List.mem_map_of_mem isDef)
    obtain ⟨env, ran⟩ := refs_succeed table complete tdef.name listed before
    obtain ⟨grown, known⟩ := type_runs table _ [] tdef.name before () env ran
    refine ⟨env, ran, ?_⟩
    exact same_layout python doc hygienic module emits representable table loads env
      (grown_trans table [] [] before env started grown) (.ref tdef.name) rfl (by simpa [KnownRefs, Node.refs] using known)
  · obtain ⟨src, mapped⟩ := nodes_mapped python doc hygienic module emits raw inside
    have closed : ∀ ref ∈ (normTypeNode raw).refs, ref ∈ module.classes.map EmittedClass.name := by
      intro ref mentioned
      rw [norm_refs] at mentioned
      rw [class_names python doc module emits]
      exact representable.closed raw inside ref mentioned
    obtain ⟨ann, node, lowered⟩ :=
      maps_lower _ (names_apart python doc hygienic module emits) _ src (map_type_maps python _ src mapped) closed
    refine ⟨src, ann, mapped, lowered.evaluates, fun place before started => ?_⟩
    have listed : Closed table node.refs := by
      intro ref mentioned
      rw [← node_layout_refs, lowered.layout, norm_layout] at mentioned
      exact definition_listed python doc module emits table loads ref
        (representable.closed raw inside ref (raw_layout_refs raw ref mentioned))
    obtain ⟨env, ran⟩ := field_succeeds table complete place ann node lowered.lowers listed before
    obtain ⟨grown, _, known⟩ := field_runs table place ann before node env ran
    have clean := from_idl_lossless python _ ann node ⟨src, ⟨_, mapped⟩, lowered.evaluates⟩ lowered.lowers
    refine ⟨node, env, ran, ?_⟩
    rw [← norm_layout, ← lowered.layout]
    exact same_layout python doc hygienic module emits representable table loads env
      (grown_trans table [] [] before env started grown) node clean known

end Loaded

end Sufficient

section Necessary

variable (table : Table) (loads : loadModule python module = .ok table)

include loads

variable (tdef : RawTypeDef)

theorem definition_loaded (isDef : tdef ∈ doc.definitions) :
    ∃ emitted defined, EmittedFrom python tdef.body emitted ∧ loadClass python module.scope ⟨tdef.name, emitted⟩ = .ok defined ∧
      table.lookup tdef.name = some defined := by
  have listed := definition_listed python doc module emits table loads tdef.name (List.mem_map_of_mem isDef)
  obtain ⟨defined, found⟩ := Option.isSome_iff_exists.mp listed
  obtain ⟨cls, inside, named, loadsClass⟩ := table_class python module table loads tdef.name defined found
  have source := class_from python doc hygienic module emits cls inside tdef isDef named
  obtain ⟨name, body⟩ := cls
  simp only at named
  subst named
  exact ⟨body, defined, source, loadsClass, found⟩

theorem enum_inhabited (isDef : tdef ∈ doc.definitions) : tdef.body ≠ .enum [] := by
  intro kind
  obtain ⟨emitted, defined, source, loadsClass, _⟩ := definition_loaded python doc hygienic module emits table loads tdef isDef
  rw [kind] at source
  cases source with
  | unit _ units => cases loadsClass
  | data _ emitted carries each =>
    obtain ⟨variant, inside, _⟩ := carries
    cases inside

theorem enum_tagged (isDef : tdef ∈ doc.definitions) (variants : List (Name × List RawField))
    (kind : tdef.body = .enum variants) (carries : ∃ variant ∈ variants, variant.2 ≠ []) : variants.length ≤ 256 := by
  obtain ⟨emitted, defined, source, loadsClass, _⟩ := definition_loaded python doc hygienic module emits table loads tdef isDef
  have clean := (hygienic.definitions tdef isDef).2.2
  rw [kind] at source clean
  cases source with
  | unit _ units =>
    obtain ⟨variant, inside, data⟩ := carries
    exact absurd (units variant inside) data
  | data _ emitted _ each =>
    have size := each.length_eq
    rw [List.length_zipIdx] at size
    simp only [loadClass, bound_variants python module.scope tdef.name variants emitted each clean.1, List.length_map,
      ← size] at loadsClass
    by_contra many
    rw [if_pos (by omega)] at loadsClass
    cases loadsClass

theorem alias_graph (isDef : tdef ∈ doc.definitions) (target : RawType) (kind : tdef.body = .alias target)
    (env : Env) (grown : Grown table [] [] env) (known : Known [] env tdef.name) :
    ∃ fields, env.lookup tdef.name = some (.struct fields) ∧ fields.nodes = [] := by
  obtain ⟨emitted, defined, source, loadsClass, isDefined⟩ :=
    definition_loaded python doc hygienic module emits table loads tdef isDef
  obtain ⟨compiled, found⟩ := Option.isSome_iff_exists.mp (known.resolve_right (by simp))
  rcases grown.added tdef.name compiled found with empty | ⟨_, _, ⟨other, isOther, lowered⟩, _⟩
  · cases empty
  · rw [isDefined] at isOther
    cases isOther
    rw [kind] at source
    cases source
    cases loadsClass
    obtain ⟨fields, ⟨anns, nodes, evaluated, each, rfl⟩, rfl⟩ := lowered
    cases evaluated
    exact ⟨_, found, by rw [compiled_nodes _ nodes each.length_eq]; exact List.forall₂_nil_left_iff.mp each⟩

theorem alias_empty (isDef : tdef ∈ doc.definitions) (target : RawType) (kind : tdef.body = .alias target)
    (faithful : Faithful python doc module table) : Empty (idlGraph doc) target.layout := by
  obtain ⟨env, ran, same⟩ := faithful.definitions tdef isDef [] (grown_refl table [] [])
  obtain ⟨grown, known⟩ := type_runs table _ [] tdef.name [] () env ran
  obtain ⟨fields, found, none⟩ := alias_graph python doc hygienic module emits table loads tdef isDef target kind env grown known
  have graph := graph_definition doc hygienic.distinct tdef isDef
  rw [kind] at graph
  have nodes : nodeGraph env tdef.name = some (.product []) := by
    rw [nodeGraph, found, Option.map_some, ClassNode.body, Fields.layouts, none]
    rfl
  have empty := empty_product (nodeGraph env) tdef.name nodes
  have shapes : ∀ value shape, Shaped env (.ref tdef.name) value shape → shape = .tuple [] := by
    intro value shape shaped
    cases shaped with
    | struct _ others drawn cached isNodes each =>
      rw [found] at cached
      cases cached
      rw [none] at isNodes
      rw [List.map_eq_nil_iff.mp isNodes.symm]
      rfl
    | member _ members n cached =>
      rw [found] at cached
      cases cached
    | variant _ variants variant drawn cached =>
      rw [found] at cached
      cases cached
  intro shape raw
  rw [← synonym_meaning (idlGraph doc) tdef.name target.layout graph]
  constructor
  · intro encodes
    obtain ⟨levels, value, wire, shaped⟩ := same.covered shape raw encodes
    obtain ⟨other, _, encodesNode⟩ := wire_encodes env levels _ value raw wire
    exact ⟨shapes value shape shaped, ((empty other raw).mp encodesNode).2⟩
  · rintro ⟨rfl, rfl⟩
    have lossless := env_lossless python doc module table emits loads env grown
    obtain ⟨levels, value, wire, _⟩ := encodes_wire env lossless _ _ _ ((empty (.tuple []) []).mpr ⟨rfl, rfl⟩)
      (.ref tdef.name) rfl rfl
    obtain ⟨shape, shaped, encodes⟩ := same.exact levels value [] wire
    rwa [shapes value shape shaped] at encodes

end Necessary

end Document

theorem faithful_representable (hygienic : Hygienic python doc) (module : Module) (table : Table)
    (faithful : Faithful python doc module table) : Representable doc := by
  have emits := faithful.emits
  have loads := faithful.loads
  refine ⟨fun tdef isDef target kind => alias_empty python doc hygienic module emits table loads tdef isDef target kind faithful,
    enum_inhabited python doc hygienic module emits table loads, enum_tagged python doc hygienic module emits table loads, ?_⟩
  intro raw inside ref mentioned
  obtain ⟨src, ann, mapped, evaluated, _⟩ := faithful.typeNodes raw inside
  rw [← norm_refs] at mentioned
  rcases eval_refs _ _ src (map_type_maps python _ src mapped) ann evaluated ref mentioned with isClass | used
  · exact (class_names python doc module emits ref).mp isClass
  · rw [norm_refs] at mentioned
    exact absurd (by simp [moduleNames, used]) (hygienic.references raw inside ref mentioned)

theorem generator_faithful (python : Python) (doc : Doc) (hygienic : Hygienic python doc) :
    ((∃ e, emitModule python (loadIdl python doc) = .error e) ∨ ∃ module table, Faithful python doc module table) ↔
      ((∃ e, emitModule python (loadIdl python doc) = .error e) ∨ Representable doc) := by
  constructor
  · rintro (refused | ⟨module, table, faithful⟩)
    · exact .inl refused
    · exact .inr (faithful_representable python doc hygienic module table faithful)
  · rintro (refused | representable)
    · exact .inl refused
    · cases emits : emitModule python (loadIdl python doc) with
      | error e => exact .inl ⟨e, rfl⟩
      | ok module =>
        obtain ⟨table, loads⟩ := document_loads python doc hygienic module emits representable
        exact .inr ⟨module, table, document_faithful python doc hygienic module emits representable table loads⟩

def orderName : Name := ['O', 'r', 'd', 'e', 'r']

def sideName : Name := ['S', 'i', 'd', 'e']

def orderType : RawTypeDef where
  name := orderName
  body := .struct [.named ['i', 'd'] (.scalar u8Name), .bare (.option (.defined sideName []))]

def sideType : RawTypeDef where
  name := sideName
  body := .enum [(['B', 'u', 'y'], []), (['S', 'e', 'l', 'l'], [.wrapped (.scalar boolName)])]

def orderDoc : Doc := { name := ['b', 'o', 'o', 'k'], address := [], types := [orderType, sideType] }

theorem order_hygienic : Hygienic plainPython orderDoc := ⟨by decide, by decide, by decide⟩

theorem order_representable : Representable orderDoc := by
  have kinds : ∀ tdef ∈ orderDoc.definitions, tdef = orderType ∨ tdef = sideType := by
    intro tdef inside
    have listed : orderDoc.definitions = [orderType, sideType] := rfl
    simpa [listed] using inside
  refine ⟨fun tdef isDef target kind => ?_, fun tdef isDef kind => ?_, fun tdef isDef variants kind _ => ?_, by decide⟩
  · rcases kinds tdef isDef with rfl | rfl <;> cases kind
  · rcases kinds tdef isDef with rfl | rfl <;> cases kind
  · rcases kinds tdef isDef with rfl | rfl <;> cases kind
    decide

theorem order_faithful : Hygienic plainPython orderDoc ∧
    ((∃ e, emitModule plainPython (loadIdl plainPython orderDoc) = .error e) ∨
      ∃ module table, Faithful plainPython orderDoc module table) :=
  ⟨order_hygienic, (generator_faithful plainPython orderDoc order_hygienic).mpr (.inr order_representable)⟩

def amountName : Name := ['A', 'm', 'o', 'u', 'n', 't']

def u64Name : Name := ['u', '6', '4']

def amountType : RawTypeDef := { name := amountName, body := .alias (.scalar u64Name) }

def amountDoc : Doc := { name := ['b', 'a', 'n', 'k'], address := [], types := [amountType] }

def amountModule : Module := ⟨[⟨amountName, .struct [] none⟩], [], []⟩

theorem alias_unfaithful : Hygienic plainPython amountDoc ∧
    emitModule plainPython (loadIdl plainPython amountDoc) = .ok amountModule ∧
    Encodes (idlGraph amountDoc) (.named amountName) (.int 5) [5, 0, 0, 0, 0, 0, 0, 0] ∧
    ¬ ∃ module table, Faithful plainPython amountDoc module table := by
  have hygienic : Hygienic plainPython amountDoc := ⟨by decide, by decide, by decide⟩
  have number : Encodes (idlGraph amountDoc) (.int 8 false) (.int 5) [5, 0, 0, 0, 0, 0, 0, 0] := .int 8 false 5 (by decide)
  refine ⟨hygienic, rfl, .synonym amountName (.int 8 false) _ _ rfl number, ?_⟩
  rintro ⟨module, table, faithful⟩
  have representable := faithful_representable plainPython amountDoc hygienic module table faithful
  have empty := representable.aliases amountType (by simp [Doc.definitions, amountDoc, addMissing]) (.scalar u64Name) rfl
  cases ((empty _ _).mp number).1

end WakeSol.Gen
