import WakeSol.Interface.Builder

set_option autoImplicit false

namespace WakeSol.Interface

open TextLib RadixLib DictLib WireLib Codec

def Lowered (env : Env) (ann : Ann) (node : Node) : Prop := lower ann = some node ∧ KnownRefs [] node.refs env

variable (table : Table)

theorem lowered_grown (before after : Env) (grown : Grown table [] before after) (ann : Ann) (node : Node)
    (lowered : Lowered before ann node) : Lowered after ann node :=
  ⟨lowered.1, known_refs_grown table [] _ before after grown lowered.2⟩

structure Registered (overrides : Overrides) (env : Env) (method : BuilderMethod) (d : InstructionDef) : Prop where
  name : d.name = method.ix.name
  discriminator : d.discriminator = method.ix.discriminator
  decodes : method.ix.serialization = .borsh → overrides.lookup method.ix.name = none →
    ∃ signature nodes, method.signature = .ok signature ∧
      List.Forall₂ (fun param node => Lowered env param.2 node) signature.dataParams nodes ∧
      d.accountNames = signature.accountNames ∧
      d.decodeArgs = makeBorshDecoder ((signature.dataParams.map Prod.fst).zip nodes)

variable (overrides : Overrides)

theorem registered_grown (before after : Env) (grown : Grown table [] before after)
    (method : BuilderMethod) (d : InstructionDef) (registered : Registered overrides before method d) :
    Registered overrides after method d where
  name := registered.name
  discriminator := registered.discriminator
  decodes isBorsh free := by
    obtain ⟨signature, nodes, isSignature, lowered, names, decoder⟩ := registered.decodes isBorsh free
    exact ⟨signature, nodes, isSignature, lowered.imp fun _ _ held => lowered_grown table before after grown _ _ held, names, decoder⟩

theorem returns_run (ix : IxMeta) : Runs table [] (compileReturns table ix) fun _ _ => True := by
  unfold compileReturns
  split
  · exact runs_pure table [] _ _ fun _ => trivial
  · exact runs_return table [] _ _ _ _ (field_runs table _ _) fun _ _ _ => trivial

theorem register_runs (iface : ProgramInterface) (method : BuilderMethod) :
    Runs table [] (registerMethod table overrides iface method) fun result env =>
      ∃ d, result = { iface with defs := iface.defs ++ [d] } ∧ Registered overrides env method d := by
  unfold registerMethod
  by_cases refusing : method.ix.serialization ≠ .borsh ∧ (overrides.lookup method.ix.name).isNone = true
  · rw [if_pos refusing]
    exact runs_pure table [] _ _ fun env => ⟨_, rfl, rfl, rfl, fun isBorsh => absurd isBorsh refusing.1⟩
  · rw [if_neg refusing]
    refine runs_bind table [] _ _ _ _ (runs_lifted table [] method.signature (fun signature _ => method.signature = .ok signature)
      fun _ _ same => same) fun signature _ isSignature => ?_
    refine runs_bind table [] _ _ _ _ (runs_map_m table [] _ signature.dataParams (fun param node env => Lowered env param.2 node)
      (fun param node before after grown held => lowered_grown table before after grown _ _ held)
      fun param _ => field_runs table _ param.2) fun nodes middle lowered => ?_
    refine runs_return table [] _ _ _ _ (returns_run table method.ix) fun decodeReturn env _ grown _ => ?_
    refine ⟨_, rfl, rfl, rfl, fun _ free => ⟨signature, nodes, isSignature, ?_, rfl, by simp [free]⟩⟩
    exact lowered.imp fun _ _ held => lowered_grown table middle env grown _ _ held

theorem events_keep (iface : ProgramInterface) :
    (table.foldl registerEvent iface).defs = iface.defs ∧ (table.foldl registerEvent iface).name = iface.name := by
  induction table generalizing iface with
  | nil => exact ⟨rfl, rfl⟩
  | cons cls rest ih =>
    have same : (registerEvent iface cls).defs = iface.defs ∧ (registerEvent iface cls).name = iface.name := by
      unfold registerEvent
      split
      · split_ifs
        · exact ⟨rfl, rfl⟩
        · exact ⟨rfl, rfl⟩
      · exact ⟨rfl, rfl⟩
    rw [List.foldl_cons, ← same.1, ← same.2]
    exact ih (registerEvent iface cls)

theorem forall_snoc {α β : Type} (holds : α → β → Prop) (firsts : List α) (seconds : List β) (first : α) (second : β)
    (each : List.Forall₂ holds firsts seconds) (last : holds first second) :
    List.Forall₂ holds (firsts ++ [first]) (seconds ++ [second]) := by
  induction each with
  | nil => exact .cons last .nil
  | cons here _ ih => exact .cons here ih

theorem interface_built (methods : List BuilderMethod) (programId programName : Text) (overrides : Overrides)
    (before after : Env) (iface : ProgramInterface)
    (built : buildInterface table methods programId programName overrides before = .ok (iface, after)) :
    ∃ registered, iface = table.foldl registerEvent registered ∧ registered.name = programName ∧ registered.events = [] ∧
      List.Forall₂ (Registered overrides after) methods registered.defs := by
  rw [buildInterface, compile_bind] at built
  cases ran : methods.foldlM (registerMethod table overrides) ⟨programId, programName, [], []⟩ before with
  | error e => simp [ran] at built
  | ok pair =>
    obtain ⟨registered, finished⟩ := pair
    simp only [ran] at built
    obtain ⟨rfl, rfl⟩ := Prod.mk.inj (Except.ok.inj built)
    have invariant := fold_m_grows table [] (registerMethod table overrides)
      (fun done iface env => iface.name = programName ∧ iface.events = [] ∧ List.Forall₂ (Registered overrides env) done iface.defs)
      (fun done iface method before result after ran held => by
        obtain ⟨grown, d, rfl, isRegistered⟩ := register_runs table overrides iface method before result after ran
        refine ⟨grown, held.1, held.2.1, forall_snoc _ _ _ _ _ (held.2.2.imp fun method d => ?_) isRegistered⟩
        exact registered_grown table overrides before after grown method d)
      methods [] _ registered before finished ran ⟨rfl, rfl, .nil⟩
    exact ⟨registered, rfl, invariant.2⟩

theorem build_registers (methods : List BuilderMethod) (programId programName : Text) (overrides : Overrides)
    (before after : Env) (iface : ProgramInterface)
    (built : buildInterface table methods programId programName overrides before = .ok (iface, after)) :
    iface.name = programName ∧ List.Forall₂ (Registered overrides after) methods iface.defs := by
  obtain ⟨registered, rfl, name, _, each⟩ := interface_built table methods programId programName overrides before after iface built
  rw [(events_keep table registered).1, (events_keep table registered).2]
  exact ⟨name, each⟩

variable (env : Env)

theorem encode_same (anns : List Ann) (nodes : List Node) (values : List Value)
    (lowered : List.Forall₂ (Lowered env) anns nodes) (size : values.length = nodes.length) (discriminator : Bytes) :
    encodeIx table discriminator (values.zip anns) env =
      (encodeIxLayout env discriminator nodes values).map fun raw => (raw, env) := by
  rw [encodeIxLayout, if_neg (not_not.mpr size), encodeIx]
  induction lowered generalizing values discriminator with
  | nil =>
    rw [List.zip_nil_right]
    rfl
  | @cons ann node anns nodes first _ ih =>
    cases values with
    | nil => cases size
    | cons value rest =>
      have step : (do
          let node ← compileField table ixArgPlace ann
          lifted (writeOnto (← get) node value discriminator) : Compile Bytes) env =
            (writeOnto env node value discriminator).map fun raw => (raw, env) := by
        rw [compile_bind, field_cached table env ixArgPlace ann node first.1 first.2]
        rfl
      rw [List.zip_cons_cons, List.zip_cons_cons, List.foldlM_cons, List.foldlM_cons, compile_bind, step]
      cases writeOnto env node value discriminator with
      | error e => rfl
      | ok raw => exact ih rest (by simpa using size) raw

theorem layout_emits (levels : Nat) (nodes : List Node) (values : List Value)
    (typed : List.Forall₂ (Typed env levels) nodes values) (discriminator : Bytes) :
    (allTagsFit values = true → ∃ parts : List (Value × Bytes), values = parts.map Prod.fst ∧
      List.Forall₂ (fun node part => Readable env levels node part.1 part.2) nodes parts ∧
      encodeIxLayout env discriminator nodes values = .ok (discriminator ++ (parts.map Prod.snd).flatten)) ∧
    (allTagsFit values = false → ∃ e, encodeIxLayout env discriminator nodes values = .error e) := by
  rw [encodeIxLayout, if_neg (not_not.mpr typed.length_eq.symm)]
  induction typed generalizing discriminator with
  | nil => exact ⟨fun _ => ⟨[], rfl, .nil, by simp; rfl⟩, fun unfit => by cases unfit⟩
  | @cons node value nodes values first _ ih =>
    rw [List.zip_cons_cons, List.foldlM_cons, allTagsFit]
    cases fits : value.tagsFit with
    | false =>
      obtain ⟨e, failed⟩ :=
        (typed_decided env levels node value (value.height + 1) first (Nat.lt_succ_self _) []).2 fits discriminator
      exact ⟨fun fit => by simp at fit, fun _ => ⟨e, by rw [writeOnto, failed]; rfl⟩⟩
    | true =>
      obtain ⟨raw, readable⟩ := typed_readable env levels node value first fits
      have written : writeOnto env node value discriminator = .ok (discriminator ++ raw) := by
        rw [writeOnto, wire_emits env levels node value raw _ [] readable.1 (Nat.lt_succ_self _) discriminator]
      rw [written]
      obtain ⟨whole, broken⟩ := ih (discriminator ++ raw)
      refine ⟨fun fit => ?_, fun unfit => broken (by simpa using unfit)⟩
      obtain ⟨parts, rfl, all, encoded⟩ := whole (by simpa using fit)
      rw [List.append_assoc] at encoded
      exact ⟨(value, raw) :: parts, rfl, .cons readable all, encoded⟩

theorem zip_consumes (names : List Name) (nodes : List Node) (size : names.length = nodes.length)
    (parts : List (Value × Bytes))
    (readable : List.Forall₂ (fun node part => Readable env maxDecodeDepth node part.1 part.2) nodes parts) :
    List.Forall₂ (fun (param : Name × Node) (part : Value × Bytes) =>
      Consumes (Codec.read env maxDecodeDepth param.2 [.field param.1]) part.1 part.2) (names.zip nodes) parts := by
  induction readable generalizing names with
  | nil =>
    rw [List.zip_nil_right]
    exact .nil
  | cons first _ ih =>
    cases names with
    | nil => cases size
    | cons name rest => exact .cons (first.2 [.field name]) (ih rest (by simpa using size))

theorem decoder_reads (names : List Name) (distinct : names.Nodup) (nodes : List Node) (size : names.length = nodes.length)
    (parts : List (Value × Bytes))
    (readable : List.Forall₂ (fun node part => Readable env maxDecodeDepth node part.1 part.2) nodes parts) :
    makeBorshDecoder (names.zip nodes) env (parts.map Prod.snd).flatten = .ok (names.zip (parts.map Prod.fst)) := by
  have each := zip_consumes env names nodes size parts readable
  have taken := consumes_map_m _ _ parts each 0 []
  rw [List.append_nil] at taken
  have keys : (names.zip nodes).map Prod.fst = names := List.map_fst_zip (Nat.le_of_eq size)
  have apart : ((names.zip (parts.map Prod.fst)).map Prod.fst).Nodup := by
    rw [List.map_fst_zip (by rw [List.length_map, ← readable.length_eq]; exact Nat.le_of_eq size)]
    exact distinct
  rw [makeBorshDecoder, taken]
  simp [keys, dict_of_distinct _ apart]

theorem data_params_distinct (signature : Signature) : (signature.dataParams.map Prod.fst).Nodup :=
  signature.distinct.sublist (List.filter_sublist.map Prod.fst)

theorem lowered_unique (first second : Env) (params : List (Name × Ann)) (nodes others : List Node)
    (lowered : List.Forall₂ (Lowered first) (params.map Prod.snd) nodes)
    (again : List.Forall₂ (fun param node => Lowered second param.2 node) params others) : nodes = others := by
  induction again generalizing nodes with
  | nil =>
    cases lowered
    rfl
  | cons here _ ih =>
    cases lowered with
    | cons there rest =>
      have same := there.1.symm.trans here.1
      cases same
      rw [ih _ rest]

structure Registration (table : Table) where
  methods : List BuilderMethod
  programId : Text
  programName : Text
  overrides : Overrides
  before : Env
  after : Env
  iface : ProgramInterface
  built : buildInterface table methods programId programName overrides before = .ok (iface, after)
  prefixFree : PrefixFree (methods.map fun method => method.ix.discriminator)

structure BorshIx {table : Table} (registration : Registration table) where
  index : Nat
  method : BuilderMethod
  listed : registration.methods[index]? = some method
  borsh : method.ix.serialization = .borsh
  derived : registration.overrides.lookup method.ix.name = none
  signature : Signature
  signed : method.signature = .ok signature
  place : Text
  start : Env
  imported : Env
  layout : List Node
  compiled : compileLayout table place (signature.dataParams.map Prod.snd) start = .ok (layout, imported)

theorem registered_discriminators (methods : List BuilderMethod) (defs : List InstructionDef)
    (registered : List.Forall₂ (Registered overrides env) methods defs) :
    defs.map InstructionDef.discriminator = methods.map fun method => method.ix.discriminator := by
  induction registered with
  | nil => rfl
  | cons first _ ih => rw [List.map_cons, List.map_cons, ih, first.discriminator]

theorem forall_at {α β : Type} (holds : α → β → Prop) (firsts : List α) (seconds : List β) (each : List.Forall₂ holds firsts seconds)
    (i : Nat) (first : α) (found : firsts[i]? = some first) : ∃ second, seconds[i]? = some second ∧ holds first second := by
  induction each generalizing i with
  | nil => simp at found
  | @cons here there _ _ held _ ih =>
    cases i with
    | zero =>
      cases found
      exact ⟨there, rfl, held⟩
    | succ i => exact ih i found

theorem layout_lowered (place : Text) (anns : List Ann) :
    Runs table [] (compileLayout table place anns) fun nodes env => List.Forall₂ (Lowered env) anns nodes :=
  runs_map_m table [] _ anns (fun ann node env => Lowered env ann node)
    (fun ann node before after grown held => lowered_grown table before after grown ann node held)
    fun ann _ => field_runs table place ann

theorem ix_registered {table : Table} (r : Registration table) (ix : BorshIx r) (cache : Env) (grown : Grown table [] r.after cache) :
    ∃ d, r.iface.defs[ix.index]? = some d ∧ d.name = ix.method.ix.name ∧ d.discriminator = ix.method.ix.discriminator ∧
      d.accountNames = ix.signature.accountNames ∧
      d.decodeArgs = makeBorshDecoder ((ix.signature.dataParams.map Prod.fst).zip ix.layout) ∧
      List.Forall₂ (Lowered cache) (ix.signature.dataParams.map Prod.snd) ix.layout := by
  obtain ⟨_, registered⟩ := build_registers table r.methods r.programId r.programName r.overrides r.before r.after r.iface r.built
  obtain ⟨d, found, kept⟩ := forall_at _ _ _ registered ix.index ix.method ix.listed
  obtain ⟨signature, nodes, signed, lowered, names, decoder⟩ := kept.decodes ix.borsh ix.derived
  rw [ix.signed] at signed
  cases signed
  obtain ⟨_, atImport⟩ := layout_lowered table ix.place _ ix.start ix.layout ix.imported ix.compiled
  have same := lowered_unique ix.imported r.after ix.signature.dataParams ix.layout nodes atImport lowered
  subst same
  refine ⟨d, found, kept.name, kept.discriminator, names, decoder, List.forall₂_map_left_iff.mpr ?_⟩
  exact lowered.imp fun param node held => lowered_grown table r.after cache grown param.2 node held

theorem ix_decodes {table : Table} (r : Registration table) (ix : BorshIx r) (cache : Env) (grown : Grown table [] r.after cache)
    (parts : List (Value × Bytes))
    (readable : List.Forall₂ (fun node part => Readable cache maxDecodeDepth node part.1 part.2) ix.layout parts) (nAccounts : Nat) :
    (∃ d, r.iface.defs[ix.index]? = some d ∧
      matchDef r.iface.defs (ix.method.ix.discriminator ++ (parts.map Prod.snd).flatten) = some d) ∧
    r.iface.decode cache (ix.method.ix.discriminator ++ (parts.map Prod.snd).flatten) nAccounts =
      .ok ⟨r.programName, some ix.method.ix.name, (ix.signature.dataParams.map Prod.fst).zip (parts.map Prod.fst),
        paddedNames ix.signature.accountNames nAccounts⟩ := by
  obtain ⟨isName, registered⟩ :=
    build_registers table r.methods r.programId r.programName r.overrides r.before r.after r.iface r.built
  obtain ⟨d, found, name, discriminator, names, decoder, lowered⟩ := ix_registered r ix cache grown
  have free : PrefixFree (r.iface.defs.map InstructionDef.discriminator) := by
    rw [registered_discriminators r.overrides r.after r.methods r.iface.defs registered]
    exact r.prefixFree
  have selected := match_prefix_free r.iface.defs free d (List.mem_of_getElem? found) (parts.map Prod.snd).flatten
  have size : (ix.signature.dataParams.map Prod.fst).length = ix.layout.length := by
    rw [← lowered.length_eq, List.length_map, List.length_map]
  have decoded := decoder_reads cache _ (data_params_distinct ix.signature) ix.layout size parts readable
  rw [discriminator] at selected
  refine ⟨⟨d, found, selected⟩, ?_⟩
  rw [ProgramInterface.decode, selected]
  simp only [discriminator, List.drop_left, decoder, decoded, isName, name, names]

theorem build_dispatch_decode (table : Table) :
    (∀ (r : Registration table) (ix : BorshIx r) (cache : Env) (values : List Value) (nAccounts : Nat),
      Grown table [] r.after cache → List.Forall₂ (Typed cache maxDecodeDepth) ix.layout values →
      encodeIx table ix.method.ix.discriminator (values.zip (ix.signature.dataParams.map Prod.snd)) cache =
        (encodeIxLayout cache ix.method.ix.discriminator ix.layout values).map (fun raw => (raw, cache)) ∧
      ((∃ raw, encodeIxLayout cache ix.method.ix.discriminator ix.layout values = .ok raw ∧
          (∃ d, r.iface.defs[ix.index]? = some d ∧ matchDef r.iface.defs raw = some d) ∧
          r.iface.decode cache raw nAccounts = .ok ⟨r.programName, some ix.method.ix.name,
            (ix.signature.dataParams.map Prod.fst).zip values, paddedNames ix.signature.accountNames nAccounts⟩) ↔
        ∀ value ∈ values, value.tagsFit = true)) ∧
    (∀ defs : List InstructionDef, (defs.map InstructionDef.discriminator).Nodup → ∀ data : Bytes,
      (∀ d, matchDef defs data = some d ↔ d ∈ defs ∧ d.discriminator <+: data ∧
        ∀ other ∈ defs, other.discriminator <+: data → other.discriminator.length ≤ d.discriminator.length) ∧
      (∀ order : List InstructionDef, order.Perm defs → matchDef order data = matchDef defs data) ∧
      (matchDef defs data = none ↔ ∀ d ∈ defs, ¬ d.discriminator <+: data)) := by
  constructor
  · intro r ix cache values nAccounts grown typed
    obtain ⟨d, _, _, _, _, _, lowered⟩ := ix_registered r ix cache grown
    refine ⟨encode_same table cache _ ix.layout values lowered typed.length_eq.symm _, ?_⟩
    rw [← all_tags_fit_iff]
    obtain ⟨whole, broken⟩ := layout_emits cache maxDecodeDepth ix.layout values typed ix.method.ix.discriminator
    cases fits : allTagsFit values with
    | false =>
      obtain ⟨e, failed⟩ := broken fits
      simp [failed]
    | true =>
      obtain ⟨parts, rfl, readable, encoded⟩ := whole fits
      obtain ⟨selected, decoded⟩ := ix_decodes r ix cache grown parts readable nAccounts
      exact ⟨fun _ => rfl, fun _ => ⟨_, encoded, selected, decoded⟩⟩
  · intro defs distinct data
    exact ⟨match_longest defs distinct data, fun order perm => match_order defs order perm distinct data, match_none defs data⟩

def kindName : Name := ['K', 'i', 'n', 'd']
def kindParam : Name := ['k', 'i', 'n', 'd']

def kindTable (n : Nat) : Table := [(kindName, .intEnum (List.range n))]

def kindCache (n : Nat) : Env := [(kindName, .intEnum (List.range n))]

def kindMethod (name : Name) (discriminator : Bytes) : BuilderMethod :=
  ⟨⟨name, discriminator, .borsh, none⟩, .ok ⟨[(kindParam, .cls kindName)], [], by simp⟩⟩

def kindDef (name : Name) (discriminator : Bytes) : InstructionDef :=
  ⟨name, discriminator, [], makeBorshDecoder [(kindParam, .ref kindName)], none⟩

def kindRegistration (n : Nat) : Registration (kindTable n) where
  methods := [kindMethod ['o', 'p', 'e', 'n'] [9], kindMethod ['s', 'h', 'u', 't'] [7, 1]]
  programId := []
  programName := []
  overrides := []
  before := []
  after := kindCache n
  iface := ⟨[], [], [kindDef ['o', 'p', 'e', 'n'] [9], kindDef ['s', 'h', 'u', 't'] [7, 1]], []⟩
  built := rfl
  prefixFree := by
    change PrefixFree [[9], [7, 1]]
    simp [PrefixFree]

def shutIx (n : Nat) : BorshIx (kindRegistration n) where
  index := 1
  method := kindMethod ['s', 'h', 'u', 't'] [7, 1]
  listed := rfl
  borsh := rfl
  derived := rfl
  signature := ⟨[(kindParam, .cls kindName)], [], by simp⟩
  signed := rfl
  place := []
  start := []
  imported := kindCache n
  layout := [.ref kindName]
  compiled := rfl

theorem kind_typed (n i : Nat) (inside : i < n) :
    List.Forall₂ (Typed (kindCache n) maxDecodeDepth) (shutIx n).layout [.member kindName i] :=
  .cons ⟨_, rfl, i, List.mem_range.mpr inside, rfl⟩ .nil

theorem shut_dispatches : (∃ raw, encodeIxLayout (kindCache 2) [7, 1] [.ref kindName] [.member kindName 1] = .ok raw ∧
      (∃ d, (kindRegistration 2).iface.defs[1]? = some d ∧ matchDef (kindRegistration 2).iface.defs raw = some d) ∧
      (kindRegistration 2).iface.decode (kindCache 2) raw 0 =
        .ok ⟨[], some ['s', 'h', 'u', 't'], [(kindParam, .member kindName 1)], []⟩) ∧
    matchDef [kindDef [] [7, 1], kindDef [] [7]] [7] = matchDef [kindDef [] [7], kindDef [] [7, 1]] [7] := by
  constructor
  · exact ((build_dispatch_decode _).1 (kindRegistration 2) (shutIx 2) (kindCache 2) [.member kindName 1] 0 (grown_refl _ _ _)
      (kind_typed 2 1 (by decide))).2.mpr (by simp [Value.tagsFit])
  · exact ((build_dispatch_decode (kindTable 2)).2 [kindDef [] [7], kindDef [] [7, 1]] (by decide) [7]).2.1 _ (List.Perm.swap _ _ _)

theorem shut_unencodable : List.Forall₂ (Typed (kindCache 257) maxDecodeDepth) (shutIx 257).layout [.member kindName 256] ∧
    encodeIx (kindTable 257) [7, 1] [(.member kindName 256, .cls kindName)] (kindCache 257) = .error .overflowError ∧
    encodeIxLayout (kindCache 257) [7, 1] (shutIx 257).layout [.member kindName 256] = .error .overflowError :=
  ⟨kind_typed 257 256 (by decide), rfl, rfl⟩

end WakeSol.Interface
