import WakeSol.Gen.Call
import WakeSol.Interface.Build

/- Running the body of an emitted builder method: what each statement computes, and
   which names it needs free. -/
set_option autoImplicit false

namespace WakeSol.Gen

open TextLib RadixLib DictLib FallibleLib Codec WireLib Interface

def Obj.plain : Obj → Bool
  | .engine _ => false
  | .layout _ => false
  | _ => true

theorem plain_call (env : Env) (callee : Obj) (args : List Obj) (plain : callee.plain = true) :
    callObj env callee args = .error .typeError := by
  cases callee with
  | engine function => cases plain
  | _ => rfl

def Plain (locals : Locals) : Prop := ∀ entry ∈ locals, entry.2.plain = true

theorem plain_cons (name : Name) (obj : Obj) (locals : Locals) (first : obj.plain = true) (rest : Plain locals) :
    Plain ((name, obj) :: locals) := by
  intro entry inside
  rcases List.mem_cons.mp inside with rfl | later
  · exact first
  · exact rest entry later

theorem lookup_plain (locals : Locals) (plain : Plain locals) (name : Name) (obj : Obj) (found : locals.lookup name = some obj) :
    obj.plain = true :=
  plain (name, obj) (lookup_mem locals name obj found)

theorem lookup_absent (locals : Locals) (name : Name) (absent : name ∉ locals.map Prod.fst) : locals.lookup name = none := by
  cases found : locals.lookup name with
  | none => rfl
  | some obj => exact absurd (List.mem_map.mpr ⟨_, lookup_mem locals name obj found, rfl⟩) absent

section Names

variable (context : Context) (locals : Locals) (plain : Plain locals) (name : Name) (fixed : context.spell name = name)
  (free : name ∉ context.assigned)

include fixed free

theorem name_global (obj : Obj) (isGlobal : context.globals name = some obj) (absent : name ∉ locals.map Prod.fst) :
    lookupName context locals name = .ok obj := by
  rw [lookupName, fixed, resolve, lookup_absent locals name absent]
  simp [free, isGlobal]

include plain

theorem call_iff (function : Engine) (isGlobal : context.globals name = some (.engine function)) (args : List Expr) (obj : Obj) :
    evalExpr context locals (.call name args) = .ok obj ↔
      name ∉ locals.map Prod.fst ∧ ∃ objs, evalExprs context locals args = .ok objs ∧
        callObj context.env (.engine function) objs = .ok obj := by
  rw [evalExpr, bind_ok_iff]
  simp only [bind_ok_iff]
  by_cases present : name ∈ locals.map Prod.fst
  · obtain ⟨held, found⟩ := Option.isSome_iff_exists.mp (lookup_key locals name present)
    have resolved : lookupName context locals name = .ok held := by
      rw [lookupName, fixed, resolve, found]
    rw [resolved]
    constructor
    · rintro ⟨callee, same, objs, _, called⟩
      cases same
      rw [plain_call _ held objs (lookup_plain locals plain name held found)] at called
      cases called
    · exact fun both => absurd present both.1
  · rw [name_global context locals name fixed free _ isGlobal present]
    constructor
    · rintro ⟨callee, same, called⟩
      cases same
      exact ⟨present, called⟩
    · exact fun both => ⟨_, rfl, both.2⟩

end Names

theorem lookup_skip (context : Context) (locals : Locals) (assigned name : Name) (obj : Obj) (other : context.spell name ≠ assigned) :
    lookupName context ((assigned, obj) :: locals) name = lookupName context locals name := by
  have different : (context.spell name == assigned) = false := by simpa using other
  simp only [lookupName, resolve, List.lookup_cons, different]

theorem lookup_first (context : Context) (locals : Locals) (name : Name) (obj : Obj) (fixed : context.spell name = name) :
    lookupName context ((name, obj) :: locals) name = .ok obj := by
  simp [lookupName, resolve, fixed]

-- How CPython reads an identifier: names in ASCII without two leading underscores
-- stay as they are, and no name loses the prefix of a layout.
structure Spelling (python : Python) : Prop where
  plain : ∀ owner name, (∀ c ∈ name, c.toNat < 128) → ¬ ['_', '_'] <+: name → python.spelled owner name = name
  layout : ∀ owner name, ['_', 'E', 'N', 'C', '_'] <+: name → ['_', 'E', 'N', 'C', '_'] <+: python.spelled owner name

theorem spelled_plain (python : Python) (spelling : Spelling python) (owner name : Name)
    (ascii : (name.all fun c => c.toNat < 128) = true) (single : ¬ ['_', '_'] <+: name) : python.spelled owner name = name := by
  apply spelling.plain owner name _ single
  intro c inside
  exact of_decide_eq_true (List.all_eq_true.mp ascii c inside)

theorem eval_exprs (context : Context) (locals : Locals) (exprs : List Expr) :
    evalExprs context locals exprs = exprs.mapM (evalExpr context locals) := by
  induction exprs with
  | nil => rfl
  | cons expr rest ih => rw [evalExprs, List.mapM_cons, ih]

structure EmittedBuilder (python : Python) where
  ix : Instruction
  method : Method
  emits : emitInstruction python ix = .ok method
  owner : Name
  programId : Address
  scope : Scope
  anns : List Ann
  evaluates : (method.positional.map Prod.snd).mapM (evalAnn scope) = .ok anns
  table : Table
  place : Text
  before : Env
  imported : Env
  nodes : List Node
  compiles : compileLayout table place anns before = .ok (nodes, imported)
  cache : Env
  grown : Grown table [] imported cache

theorem as_meta_obj (env : Env) (given : MetaLike) :
    (callObj env (.engine .asMeta) [metaLikeObj given] >>= objMeta) = asMeta given := by
  cases given with
  | accountMeta found => rfl
  | value found =>
    rw [callObj, asMeta, accountMetaOf]
    simp only [metaLikeObj, asMetaFrom, accountMetaFrom, objPubkey]
    cases pubkeyOf found <;> rfl

section Builder

variable {python : Python} (b : EmittedBuilder python)

def EmittedBuilder.argKeys : List Name := b.ix.args.map fun arg => python.spelled b.owner (mangle arg.1)

def EmittedBuilder.accountKeys : List Name := b.ix.accounts.map fun a => python.spelled b.owner (mangle a.name)

def EmittedBuilder.keys : List Name :=
  python.spelled b.owner clsName :: (b.argKeys ++ (b.accountKeys ++ [python.spelled b.owner remainingName]))

def EmittedBuilder.context : Context :=
  ⟨b.cache, python.spelled b.owner, builderGlobals python b.owner b.programId b.ix b.nodes, [dataName, metasName, metasName]⟩

def EmittedBuilder.call (values : List Value) (accounts remaining : List MetaLike) : Except Raised Obj :=
  callMethod python b.owner b.cache (builderGlobals python b.owner b.programId b.ix b.nodes) b.method values accounts remaining

def EmittedBuilder.locals (values : List Value) (accounts remaining : List MetaLike) : Locals :=
  b.keys.zip (.cls :: (values.map Obj.value ++ (accounts.map metaLikeObj ++ [.sequence remaining])))

theorem builder_sizes : b.method.positional.length = b.ix.args.length ∧ b.method.keywordOnly.length = b.ix.accounts.length + 1 ∧
    b.nodes.length = b.ix.args.length := by
  obtain ⟨_, _, anns, returns, isAnns, _, isMethod⟩ := instruction_emitted python b.ix b.method b.emits
  have positional : b.method.positional.length = b.ix.args.length := by
    rw [isMethod]
    simp [(map_m_ok _ _ _ isAnns).length_eq.symm]
  have evaluated := (map_m_ok _ _ _ b.evaluates).length_eq
  have compiled := (layout_lowered b.table b.place b.anns b.before b.nodes b.imported b.compiles).2.length_eq
  rw [List.length_map] at evaluated
  refine ⟨positional, by rw [isMethod]; simp, by omega⟩

theorem builder_keys : (paramNames b.method).map (python.spelled b.owner) = b.keys := by
  obtain ⟨_, _, anns, returns, isAnns, _, isMethod⟩ := instruction_emitted python b.ix b.method b.emits
  have size := (map_m_ok _ _ _ isAnns).length_eq
  rw [paramNames, isMethod, EmittedBuilder.keys, EmittedBuilder.argKeys, EmittedBuilder.accountKeys]
  simp only [List.map_fst_zip (Nat.le_of_eq (by simpa using size) :
    (b.ix.args.map fun arg => mangle arg.1).length ≤ anns.length)]
  simp [Function.comp_def]

variable (values : List Value) (accounts remaining : List MetaLike) (valued : values.length = b.ix.args.length)
  (paired : accounts.length = b.ix.accounts.length)

include valued paired

theorem call_runs : b.call values accounts remaining = if ¬ b.keys.Nodup ∨ debugName ∈ b.keys then .error .syntaxError
    else runBody b.context (methodBody b.ix) (b.locals values accounts remaining) := by
  obtain ⟨positional, keywordOnly, _⟩ := builder_sizes b
  obtain ⟨_, _, anns, returns, _, _, isMethod⟩ := instruction_emitted python b.ix b.method b.emits
  have body : b.method.body = methodBody b.ix := by rw [isMethod]
  rw [EmittedBuilder.call, callMethod]
  simp only [builder_keys b, positional, keywordOnly, valued, paired, body]
  simp only [ne_eq, not_true_eq_false, or_self, if_false]
  rfl

theorem locals_keys : (b.locals values accounts remaining).map Prod.fst = b.keys := by
  refine List.map_fst_zip (Nat.le_of_eq ?_)
  simp [EmittedBuilder.keys, EmittedBuilder.argKeys, EmittedBuilder.accountKeys, valued, paired]

theorem locals_parts : b.locals values accounts remaining = (python.spelled b.owner clsName, .cls) ::
    (b.argKeys.zip (values.map Obj.value) ++ (b.accountKeys.zip (accounts.map metaLikeObj) ++
      [(python.spelled b.owner remainingName, .sequence remaining)])) := by
  have args : b.argKeys.length = (values.map Obj.value).length := by simp [EmittedBuilder.argKeys, valued]
  have slots : b.accountKeys.length = (accounts.map metaLikeObj).length := by simp [EmittedBuilder.accountKeys, paired]
  rw [EmittedBuilder.locals, EmittedBuilder.keys, List.zip_cons_cons, List.zip_append args, List.zip_append slots]
  rfl

theorem locals_plain : Plain (b.locals values accounts remaining) := by
  rw [locals_parts b values accounts remaining valued paired]
  refine plain_cons _ _ _ rfl fun entry inside => ?_
  rcases List.mem_append.mp inside with isArg | later
  · obtain ⟨value, _, same⟩ := List.mem_map.mp (List.of_mem_zip isArg).2
    rw [← same]
    rfl
  · rcases List.mem_append.mp later with isAccount | isLast
    · obtain ⟨given, _, same⟩ := List.mem_map.mp (List.of_mem_zip isAccount).2
      rw [← same]
      cases given <;> rfl
    · rw [List.mem_singleton.mp isLast]
      rfl

section Distinct

variable (spelling : Spelling python) (distinct : b.keys.Nodup)

include spelling distinct

omit spelling in
theorem local_found (key : Name) (obj : Obj) (inside : (key, obj) ∈ b.locals values accounts remaining) :
    (b.locals values accounts remaining).lookup key = some obj := by
  refine lookup_of_mem _ ?_ key obj inside
  rw [locals_keys b values accounts remaining valued paired]
  exact distinct

omit spelling in
theorem args_found : (b.ix.args.mapM fun arg => lookupName b.context (b.locals values accounts remaining) (mangle arg.1)) =
    .ok (values.map Obj.value) := by
  refine map_m_pairs _ _ _ (by simp [valued]) fun pair inside => ?_
  have isLocal : (python.spelled b.owner (mangle pair.1.1), pair.2) ∈ b.locals values accounts remaining := by
    rw [locals_parts b values accounts remaining valued paired]
    refine List.mem_cons_of_mem _ (List.mem_append_left _ ?_)
    rw [EmittedBuilder.argKeys, List.zip_map_left]
    exact List.mem_map.mpr ⟨pair, inside, rfl⟩
  have found := local_found b values accounts remaining valued paired distinct _ _ isLocal
  simp only [lookupName, resolve, EmittedBuilder.context, found]

omit valued paired distinct in
theorem layout_global : b.context.globals (python.spelled b.owner (layoutName b.ix)) = some (.layout b.nodes) := by
  obtain ⟨rest, same⟩ := spelling.layout b.owner (layoutName b.ix) ⟨_, rfl⟩
  simp only [EmittedBuilder.context, builderGlobals, ← same]
  simp [engineOf, List.lookup_cons, encodeIxLayoutName, buildMetasName, slotName, asMetaName, instructionClassName, programIdName]

omit distinct in
theorem layout_found : ∃ layout, evalExpr b.context (b.locals values accounts remaining)
      (if b.ix.args.isEmpty then .unit else .name (layoutName b.ix)) = .ok layout ∧
    ((layout = .layout b.nodes ∧ (b.ix.args ≠ [] → python.spelled b.owner (layoutName b.ix) ∉ b.keys)) ∨
      (layout.plain = true ∧ b.ix.args ≠ [] ∧ python.spelled b.owner (layoutName b.ix) ∈ b.keys)) := by
  have keys := locals_keys b values accounts remaining valued paired
  cases isEmpty : b.ix.args with
  | nil =>
    have none : b.nodes = [] := List.eq_nil_of_length_eq_zero (by rw [(builder_sizes b).2.2, isEmpty]; rfl)
    exact ⟨.layout [], rfl, .inl ⟨by rw [none], fun nonempty => absurd rfl nonempty⟩⟩
  | cons arg rest =>
    simp only [List.isEmpty_cons, Bool.false_eq_true, if_false, evalExpr, lookupName]
    by_cases present : python.spelled b.owner (layoutName b.ix) ∈ b.keys
    · rw [← keys] at present
      obtain ⟨held, found⟩ := Option.isSome_iff_exists.mp (lookup_key _ _ present)
      refine ⟨held, by simp only [resolve, EmittedBuilder.context, found], .inr ⟨?_, by simp, by rwa [keys] at present⟩⟩
      exact lookup_plain _ (locals_plain b values accounts remaining valued paired) _ held found
    · have absent := lookup_absent (b.locals values accounts remaining) (python.spelled b.owner (layoutName b.ix))
        (by rwa [keys])
      have free : python.spelled b.owner (layoutName b.ix) ∉ b.context.assigned := by
        obtain ⟨rest, same⟩ := spelling.layout b.owner (layoutName b.ix) ⟨_, rfl⟩
        rw [← same]
        simp [EmittedBuilder.context, dataName, metasName]
      refine ⟨.layout b.nodes, ?_, .inl ⟨rfl, fun _ => present⟩⟩
      have isGlobal := layout_global b spelling
      simp only [EmittedBuilder.context] at isGlobal free
      simp only [resolve, EmittedBuilder.context, absent, if_neg free, isGlobal, Option.elim]

theorem data_iff (obj : Obj) :
    evalExpr b.context (b.locals values accounts remaining) (.call encodeIxLayoutName (.bytes b.ix.discriminator ::
        (if b.ix.args.isEmpty then .unit else .name (layoutName b.ix)) :: b.ix.args.map fun arg => .name (mangle arg.1))) = .ok obj ↔
      encodeIxLayoutName ∉ b.keys ∧ (b.ix.args ≠ [] → python.spelled b.owner (layoutName b.ix) ∉ b.keys) ∧
        ∃ raw, encodeIxLayout b.cache b.ix.discriminator b.nodes values = .ok raw ∧ obj = .value (.bytes raw) := by
  obtain ⟨layout, isLayout, kinds⟩ := layout_found b values accounts remaining valued paired spelling
  have args := args_found b values accounts remaining valued paired distinct
  have evaluated : evalExprs b.context (b.locals values accounts remaining) (.bytes b.ix.discriminator ::
      (if b.ix.args.isEmpty then .unit else .name (layoutName b.ix)) :: b.ix.args.map fun arg => .name (mangle arg.1)) =
        .ok (.value (.bytes b.ix.discriminator) :: layout :: values.map Obj.value) := by
    rw [eval_exprs, List.mapM_cons, List.mapM_cons, isLayout, List.mapM_map]
    simp only [evalExpr, Function.comp_def, args]
    rfl
  rw [call_iff b.context _ (locals_plain b values accounts remaining valued paired) encodeIxLayoutName
    (spelled_plain python spelling _ _ (by decide) (by decide)) (show encodeIxLayoutName ∉ [dataName, metasName, metasName] by decide)
    .encodeIxLayout rfl, locals_keys b values accounts remaining valued paired, evaluated]
  refine and_congr_right fun _ => ?_
  have given : (values.map Obj.value).mapM objValue = .ok values :=
    map_m_of _ _ _ (List.forall₂_map_left_iff.mpr (List.forall₂_same.mpr fun value _ => rfl))
  rcases kinds with ⟨rfl, absent⟩ | ⟨plain, nonempty, present⟩
  · have called : callObj b.context.env (.engine .encodeIxLayout) (.value (.bytes b.ix.discriminator) :: .layout b.nodes ::
        values.map Obj.value) = .ok obj ↔
          ∃ raw, encodeIxLayout b.cache b.ix.discriminator b.nodes values = .ok raw ∧ obj = .value (.bytes raw) := by
      rw [callObj, given]
      refine (bind_ok_iff _ _ _).trans ⟨?_, ?_⟩
      · rintro ⟨found, same, ran⟩
        cases same
        obtain ⟨raw, encoded, same⟩ := bind_ok _ _ _ ran
        exact ⟨raw, encoded, (Except.ok.inj same).symm⟩
      · rintro ⟨raw, encoded, rfl⟩
        exact ⟨values, rfl, (bind_ok_iff _ _ _).mpr ⟨raw, encoded, rfl⟩⟩
    constructor
    · rintro ⟨objs, same, ran⟩
      cases same
      exact ⟨absent, called.mp ran⟩
    · exact fun both => ⟨_, rfl, called.mpr both.2⟩
  · constructor
    · rintro ⟨objs, same, ran⟩
      cases same
      cases layout with
      | layout nodes => cases plain
      | engine function => cases plain
      | _ => cases ran
    · exact fun both => absurd present (both.1 nonempty)

-- An account called data is read after the method has assigned its own.
def EmittedBuilder.slots (raw : Bytes) (accounts : List MetaLike) : List Obj :=
  List.zipWith (fun (a : IxAccount) given =>
    .slot (if python.spelled b.owner (mangle a.name) = dataName then .value (.bytes raw) else metaLikeObj given)
      a.isSigner a.isWritable a.isOptional) b.ix.accounts accounts

omit spelling in
theorem account_found (raw : Bytes) (a : IxAccount) (given : MetaLike) (inside : (a, given) ∈ b.ix.accounts.zip accounts) :
    lookupName b.context ((dataName, .value (.bytes raw)) :: b.locals values accounts remaining) (mangle a.name) =
      .ok (if python.spelled b.owner (mangle a.name) = dataName then .value (.bytes raw) else metaLikeObj given) := by
  by_cases isData : python.spelled b.owner (mangle a.name) = dataName
  · rw [if_pos isData, lookupName]
    simp [resolve, EmittedBuilder.context, isData]
  · rw [if_neg isData, lookup_skip _ _ _ _ _ isData]
    have isLocal : (python.spelled b.owner (mangle a.name), metaLikeObj given) ∈ b.locals values accounts remaining := by
      rw [locals_parts b values accounts remaining valued paired]
      refine List.mem_cons_of_mem _ (List.mem_append_right _ (List.mem_append_left _ ?_))
      rw [EmittedBuilder.accountKeys, List.zip_map]
      exact List.mem_map.mpr ⟨(a, given), inside, rfl⟩
    have found := local_found b values accounts remaining valued paired distinct _ _ isLocal
    simp only [lookupName, resolve, EmittedBuilder.context, found]

theorem slots_iff (raw : Bytes) (objs : List Obj) :
    evalExprs b.context ((dataName, .value (.bytes raw)) :: b.locals values accounts remaining) (b.ix.accounts.map fun a =>
        .call slotName [.name (mangle a.name), .bool a.isSigner, .bool a.isWritable, .bool a.isOptional]) = .ok objs ↔
      (b.ix.accounts ≠ [] → slotName ∉ b.keys) ∧ objs = b.slots raw accounts := by
  have plain := plain_cons dataName (.value (.bytes raw)) _ rfl (locals_plain b values accounts remaining valued paired)
  have called := fun (args : List Expr) => call_iff b.context _ plain slotName (spelled_plain python spelling _ _ (by decide) (by decide))
    (show slotName ∉ [dataName, metasName, metasName] by decide) .slot rfl args
  rw [List.map_cons, locals_keys b values accounts remaining valued paired] at called
  rw [eval_exprs, List.mapM_map]
  by_cases present : slotName ∈ b.keys
  · constructor
    · intro ran
      cases isEmpty : b.ix.accounts with
      | nil =>
        rw [isEmpty] at ran
        cases ran
        exact ⟨fun nonempty => absurd rfl nonempty, by rw [EmittedBuilder.slots, isEmpty]; rfl⟩
      | cons a rest =>
        rw [isEmpty] at ran
        obtain ⟨obj, _, evaluated⟩ := forall_left _ _ _ (map_m_ok _ _ _ ran).flip a (by simp)
        exact absurd (by simp [present]) ((called _ obj).mp evaluated).1
    · rintro ⟨absent, rfl⟩
      have none : b.ix.accounts = [] := by
        by_contra nonempty
        exact absent nonempty present
      rw [EmittedBuilder.slots, none]
      rfl
  · have ran : b.ix.accounts.mapM (evalExpr b.context ((dataName, .value (.bytes raw)) :: b.locals values accounts remaining) ∘
        fun a => .call slotName [.name (mangle a.name), .bool a.isSigner, .bool a.isWritable, .bool a.isOptional]) =
          .ok (b.slots raw accounts) := by
      refine map_m_pairs _ _ _ (by simp [EmittedBuilder.slots, paired]) fun pair inside => ?_
      rw [EmittedBuilder.slots, List.zip, List.zipWith_zipWith_right, List.zipWith3_same_left] at inside
      obtain ⟨a, _, given, _, rfl, isPair⟩ := zip_with_mem _ _ _ pair inside
      refine (called _ _).mpr ⟨by simpa [present] using (by decide : slotName ≠ dataName),
        [_, .value (.bool a.isSigner), .value (.bool a.isWritable), .value (.bool a.isOptional)], ?_, rfl⟩
      rw [eval_exprs, List.mapM_cons, evalExpr, account_found b values accounts remaining valued paired distinct raw a given isPair]
      rfl
    rw [ran]
    constructor
    · intro same
      exact ⟨fun _ => present, (Except.ok.inj same).symm⟩
    · rintro ⟨_, rfl⟩
      rfl

def EmittedBuilder.program (values : List Value) (accounts remaining : List MetaLike) : Obj :=
  ((b.locals values accounts remaining).lookup programIdName).getD (.value (.pubkey b.programId))

omit valued paired distinct in
theorem program_found :
    lookupName b.context (b.locals values accounts remaining) programIdName = .ok (b.program values accounts remaining) := by
  have fixed : b.context.spell programIdName = programIdName := spelled_plain python spelling _ _ (by decide) (by decide)
  rw [lookupName, fixed, resolve, EmittedBuilder.program]
  cases found : (b.locals values accounts remaining).lookup programIdName with
  | some obj => rfl
  | none =>
    have free : programIdName ∉ b.context.assigned := show programIdName ∉ [dataName, metasName, metasName] by decide
    rw [if_neg free]
    rfl

theorem metas_iff (raw : Bytes) (obj : Obj) :
    evalExpr b.context ((dataName, .value (.bytes raw)) :: b.locals values accounts remaining)
        (.call buildMetasName (.name programIdName :: b.ix.accounts.map fun a =>
          .call slotName [.name (mangle a.name), .bool a.isSigner, .bool a.isWritable, .bool a.isOptional])) = .ok obj ↔
      buildMetasName ∉ b.keys ∧ (b.ix.accounts ≠ [] → slotName ∉ b.keys) ∧
        ∃ own, (b.slots raw accounts).mapM (slotMetaFrom (b.program values accounts remaining)) = .ok own ∧ obj = .metas own := by
  have plain := plain_cons dataName (.value (.bytes raw)) _ rfl (locals_plain b values accounts remaining valued paired)
  have program : evalExpr b.context ((dataName, .value (.bytes raw)) :: b.locals values accounts remaining) (.name programIdName) =
      .ok (b.program values accounts remaining) := by
    have fixed : b.context.spell programIdName = programIdName := spelled_plain python spelling _ _ (by decide) (by decide)
    rw [evalExpr, lookup_skip _ _ _ _ _ (by rw [fixed]; decide)]
    exact program_found b values accounts remaining spelling
  have apart : buildMetasName ∉ dataName :: b.keys ↔ buildMetasName ∉ b.keys := by
    have other : buildMetasName ≠ dataName := by decide
    simp [other]
  rw [call_iff b.context _ plain buildMetasName (spelled_plain python spelling _ _ (by decide) (by decide))
    (show buildMetasName ∉ [dataName, metasName, metasName] by decide) .buildMetas rfl, List.map_cons,
    locals_keys b values accounts remaining valued paired, apart]
  refine and_congr_right fun _ => ?_
  simp only [evalExprs, program, bind_ok_iff, slots_iff b values accounts remaining valued paired spelling distinct raw]
  constructor
  · rintro ⟨objs, ⟨first, isFirst, rest, ⟨free, rfl⟩, same⟩, called⟩
    cases isFirst
    cases same
    exact ⟨free, map_ok _ _ _ called⟩
  · rintro ⟨free, own, ran, rfl⟩
    refine ⟨_, ⟨_, rfl, _, ⟨free, rfl⟩, rfl⟩, ?_⟩
    rw [callObj, ran]
    rfl

omit spelling in
theorem remaining_found (own : List AccountMeta) (raw : Bytes) (fixed : python.spelled b.owner remainingName = remainingName) :
    lookupName b.context ((metasName, .metas own) :: (dataName, .value (.bytes raw)) :: b.locals values accounts remaining)
      remainingName = .ok (.sequence remaining) := by
  have spelled : b.context.spell remainingName = remainingName := fixed
  have inside : (remainingName, Obj.sequence remaining) ∈ b.locals values accounts remaining := by
    rw [locals_parts b values accounts remaining valued paired, fixed]
    simp
  have found := local_found b values accounts remaining valued paired distinct _ _ inside
  rw [lookup_skip _ _ _ _ _ (by rw [spelled]; decide), lookup_skip _ _ _ _ _ (by rw [spelled]; decide), lookupName, spelled,
    resolve, found]

omit distinct in
theorem element_found (own : List AccountMeta) (raw : Bytes) (given : MetaLike) :
    ∃ callee, lookupName b.context ((b.context.spell itemName, metaLikeObj given) :: (metasName, .metas own) ::
        (dataName, .value (.bytes raw)) :: b.locals values accounts remaining) asMetaName = .ok callee ∧
      ((callee = .engine .asMeta ∧ asMetaName ∉ b.keys) ∨ (callee.plain = true ∧ asMetaName ∈ b.keys)) := by
  have item : b.context.spell itemName = itemName := spelled_plain python spelling _ _ (by decide) (by decide)
  have spelled : b.context.spell asMetaName = asMetaName := spelled_plain python spelling _ _ (by decide) (by decide)
  have keys := locals_keys b values accounts remaining valued paired
  rw [item, lookup_skip _ _ _ _ _ (by rw [spelled]; decide), lookup_skip _ _ _ _ _ (by rw [spelled]; decide),
    lookup_skip _ _ _ _ _ (by rw [spelled]; decide)]
  by_cases present : asMetaName ∈ b.keys
  · rw [← keys] at present
    obtain ⟨held, found⟩ := Option.isSome_iff_exists.mp (lookup_key _ _ present)
    refine ⟨held, by rw [lookupName, spelled, resolve, found], .inr ⟨?_, by rwa [keys] at present⟩⟩
    exact lookup_plain _ (locals_plain b values accounts remaining valued paired) _ held found
  · refine ⟨.engine .asMeta, ?_, .inl ⟨rfl, present⟩⟩
    exact name_global b.context _ asMetaName spelled (show asMetaName ∉ [dataName, metasName, metasName] by decide) _ rfl
      (by rwa [keys])

theorem rest_iff (raw : Bytes) (own : List AccountMeta) (obj : Obj) :
    evalExpr b.context ((metasName, .metas own) :: (dataName, .value (.bytes raw)) :: b.locals values accounts remaining)
        (.forEach asMetaName itemName remainingName) = .ok obj ↔
      (remaining ≠ [] → asMetaName ∉ b.keys) ∧ ∃ rest, remaining.mapM asMeta = .ok rest ∧ obj = .metas rest := by
  have fixed := spelled_plain python spelling b.owner remainingName (by decide) (by decide)
  have element := element_found b values accounts remaining valued paired spelling own raw
  rw [evalExpr, remaining_found b values accounts remaining valued paired distinct own raw fixed]
  refine (map_ok_iff _ _ _).trans ?_
  by_cases present : asMetaName ∈ b.keys
  · cases isEmpty : remaining with
    | nil => simp
    | cons first rest =>
      constructor
      · rintro ⟨metas, ran, _⟩
        obtain ⟨found, _, called⟩ := forall_left _ _ _ (map_m_ok _ _ _ ran).flip first (by simp)
        obtain ⟨callee, isCallee, ⟨_, absent⟩ | ⟨plain, _⟩⟩ := element first
        · exact absurd present absent
        · obtain ⟨other, isOther, called⟩ := bind_ok _ _ _ called
          rw [← isEmpty, isCallee] at isOther
          cases isOther
          rw [plain_call _ callee _ plain] at called
          cases called
      · exact fun both => absurd present (both.1 (by simp))
  · have same : ∀ given : MetaLike, (do
        let callee ← lookupName b.context ((b.context.spell itemName, metaLikeObj given) :: (metasName, .metas own) ::
          (dataName, .value (.bytes raw)) :: b.locals values accounts remaining) asMetaName
        objMeta (← callObj b.context.env callee [metaLikeObj given])) = asMeta given := by
      intro given
      obtain ⟨callee, isCallee, ⟨rfl, _⟩ | ⟨_, inside⟩⟩ := element given
      · rw [isCallee]
        exact as_meta_obj b.context.env given
      · exact absurd inside present
    simp only [same, present, not_false_eq_true, implies_true, true_and]

omit distinct in
theorem return_iff (raw : Bytes) (own whole : List AccountMeta) (obj : Obj) :
    evalExpr b.context ((metasName, .metas whole) :: (metasName, .metas own) :: (dataName, .value (.bytes raw)) ::
          b.locals values accounts remaining)
        (.call instructionClassName [.name programIdName, .name metasName, .name dataName]) = .ok obj ↔
      instructionClassName ∉ b.keys ∧
        ∃ key, objPubkey (b.program values accounts remaining) = .ok key ∧ obj = .instruction ⟨key, whole, raw⟩ := by
  have spelled : ∀ name ∈ [programIdName, metasName, dataName, instructionClassName], b.context.spell name = name := by
    intro name inside
    refine spelled_plain python spelling _ _ ?_ ?_
    · revert name
      decide
    · revert name
      decide
  have plain := plain_cons metasName (.metas whole) _ rfl (plain_cons metasName (.metas own) _ rfl
    (plain_cons dataName (.value (.bytes raw)) _ rfl (locals_plain b values accounts remaining valued paired)))
  have apart : instructionClassName ∉ metasName :: metasName :: dataName :: b.keys ↔ instructionClassName ∉ b.keys := by
    have first : instructionClassName ≠ metasName := by decide
    have second : instructionClassName ≠ dataName := by decide
    simp [first, second]
  have evaluated : evalExprs b.context ((metasName, .metas whole) :: (metasName, .metas own) :: (dataName, .value (.bytes raw)) ::
      b.locals values accounts remaining) [.name programIdName, .name metasName, .name dataName] =
        .ok [b.program values accounts remaining, .metas whole, .value (.bytes raw)] := by
    have isProgram := spelled programIdName (by decide)
    have isData := spelled dataName (by decide)
    have program : ∀ (name : Name) (obj : Obj) (locals : Locals), name ≠ programIdName → lookupName b.context ((name, obj) :: locals) programIdName =
        lookupName b.context locals programIdName := fun name obj locals other =>
      lookup_skip _ _ _ _ _ (by rw [isProgram]; exact other.symm)
    simp only [evalExprs, evalExpr]
    rw [program _ _ _ (by decide), program _ _ _ (by decide), program _ _ _ (by decide), program_found b values accounts remaining spelling,
      lookup_first _ _ _ _ (spelled metasName (by decide)), lookup_skip _ _ _ _ _ (by rw [isData]; decide),
      lookup_skip _ _ _ _ _ (by rw [isData]; decide), lookup_first _ _ _ _ isData]
    rfl
  rw [call_iff b.context _ plain instructionClassName (spelled _ (by decide))
    (show instructionClassName ∉ [dataName, metasName, metasName] by decide) .instruction rfl, evaluated]
  simp only [List.map_cons, locals_keys b values accounts remaining valued paired, apart]
  refine and_congr_right fun _ => ?_
  constructor
  · rintro ⟨objs, same, called⟩
    cases same
    exact map_ok _ _ _ called
  · rintro ⟨key, isKey, rfl⟩
    refine ⟨_, rfl, ?_⟩
    rw [callObj, isKey]
    rfl

structure FreeNames : Prop where
  encode : encodeIxLayoutName ∉ b.keys
  layout : b.ix.args ≠ [] → python.spelled b.owner (layoutName b.ix) ∉ b.keys
  metas : buildMetasName ∉ b.keys
  slot : b.ix.accounts ≠ [] → slotName ∉ b.keys
  rest : remaining ≠ [] → asMetaName ∉ b.keys
  instruction : instructionClassName ∉ b.keys

theorem run_iff (obj : Obj) : runBody b.context (methodBody b.ix) (b.locals values accounts remaining) = .ok obj ↔
    FreeNames b remaining ∧ ∃ raw own rest key, encodeIxLayout b.cache b.ix.discriminator b.nodes values = .ok raw ∧
      (b.slots raw accounts).mapM (slotMetaFrom (b.program values accounts remaining)) = .ok own ∧
      remaining.mapM asMeta = .ok rest ∧ objPubkey (b.program values accounts remaining) = .ok key ∧
      obj = .instruction ⟨key, own ++ rest, raw⟩ := by
  have isData : b.context.spell dataName = dataName := spelled_plain python spelling _ _ (by decide) (by decide)
  have isMetas : b.context.spell metasName = metasName := spelled_plain python spelling _ _ (by decide) (by decide)
  have data := data_iff b values accounts remaining valued paired spelling distinct
  have metas := metas_iff b values accounts remaining valued paired spelling distinct
  have more := rest_iff b values accounts remaining valued paired spelling distinct
  have final := return_iff b values accounts remaining valued paired spelling
  simp only [methodBody, runBody, isData, isMetas]
  rw [bind_ok_iff]
  constructor
  · rintro ⟨dataObj, isDataObj, ran⟩
    obtain ⟨encode, layout, raw, encoded, rfl⟩ := (data dataObj).mp isDataObj
    obtain ⟨metasObj, isMetasObj, ran⟩ := bind_ok _ _ _ ran
    obtain ⟨build, slot, own, isOwn, rfl⟩ := (metas raw metasObj).mp isMetasObj
    obtain ⟨front, isFront, ran⟩ := bind_ok _ _ _ ran
    rw [lookup_first _ _ _ _ isMetas] at isFront
    cases isFront
    obtain ⟨back, isBack, ran⟩ := bind_ok _ _ _ ran
    obtain ⟨asMeta, rest, isRest, rfl⟩ := (more raw own back).mp isBack
    obtain ⟨instruction, key, isKey, same⟩ := (final raw own (own ++ rest) obj).mp ran
    exact ⟨⟨encode, layout, build, slot, asMeta, instruction⟩, raw, own, rest, key, encoded, isOwn, isRest, isKey, same⟩
  · rintro ⟨free, raw, own, rest, key, encoded, isOwn, isRest, isKey, rfl⟩
    refine ⟨_, (data _).mpr ⟨free.encode, free.layout, raw, encoded, rfl⟩, ?_⟩
    refine (bind_ok_iff _ _ _).mpr ⟨_, (metas raw _).mpr ⟨free.metas, free.slot, own, isOwn, rfl⟩, ?_⟩
    refine (bind_ok_iff _ _ _).mpr ⟨_, lookup_first _ _ _ _ isMetas, ?_⟩
    refine (bind_ok_iff _ _ _).mpr ⟨_, (more raw own _).mpr ⟨free.rest, rest, isRest, rfl⟩, ?_⟩
    exact (final raw own (own ++ rest) _).mpr ⟨free.instruction, key, isKey, rfl⟩

end Distinct

end Builder

end WakeSol.Gen
