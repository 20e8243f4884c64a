import WakeSol.Codec.Agree
import WakeSol.Interface.Build
import WakeSol.Interface.Returns

/- Events of a program. The interface keeps its event classes under their
   discriminators and looks the first eight bytes of a payload up among them. -/
set_option autoImplicit false

namespace WakeSol.Interface

open TextLib RadixLib DictLib WireLib Codec

structure UnknownEvent where
  programId : Text
  discriminator : Bytes
  data : Bytes
deriving DecidableEq

def UnknownEvent.new (programId : Text) (data : Bytes) : UnknownEvent := ⟨programId, data.take 8, data⟩

inductive Event where
  | decoded (value : Value)
  | unknown (event : UnknownEvent)

-- Whatever cls.decode raises gives None. A class that compiled stays cached when
-- its body does not decode.
def tryDecode (table : Table) (cls : Name) (data : Bytes) (cache : Env) : Option Value × Env :=
  match structDecode table cls data true cache with
  | .ok (value, after) => (some value, after)
  | .error _ =>
    match compileRefs table cls cache with
    | .ok (_, after) => (none, after)
    | .error _ => (none, cache)

def ProgramInterface.decodeEvent (iface : ProgramInterface) (table : Table) (data : Bytes) (cache : Env) : Option Value × Env :=
  match if data.length ≥ 8 then iface.events.lookup (data.take 8) else none with
  | none => (none, cache)
  | some cls => tryDecode table cls data cache

def eventOf (registry : Registry) (table : Table) (programId : Text) (raw : Bytes) (cache : Env) : Event × Env :=
  match registry.lookup programId with
  | none => (.unknown (.new programId raw), cache)
  | some iface =>
    match iface.decodeEvent table raw cache with
    | (some value, after) => (.decoded value, after)
    | (none, after) => (.unknown (.new programId raw), after)

def decodeEvents (registry : Registry) (table : Table) (programId : Text) : List Bytes → Env → List Event × Env
  | [], cache => ([], cache)
  | raw :: rest, cache =>
    let (event, after) := eventOf registry table programId raw cache
    let (events, final) := decodeEvents registry table programId rest after
    (event :: events, final)

def eventClasses (table : Table) : List (Bytes × Name) :=
  table.filterMap fun entry =>
    match entry.2 with
    | .dataclass _ (some borshMeta) => if borshMeta.kind = .event then some (borshMeta.discriminator, entry.1) else none
    | _ => none

theorem event_classes_iff (table : Table) (distinct : (table.map Prod.fst).Nodup) (discriminator : Bytes) (cls : Name) :
    (discriminator, cls) ∈ eventClasses table ↔ ∃ hints borshMeta, table.lookup cls = some (.dataclass hints (some borshMeta)) ∧
      borshMeta.kind = .event ∧ borshMeta.discriminator = discriminator := by
  constructor
  · intro inside
    obtain ⟨⟨name, defined⟩, member, found⟩ := List.mem_filterMap.mp inside
    cases defined with
    | dataclass hints borshMeta =>
      cases borshMeta with
      | none => cases found
      | some borshMeta =>
        simp only at found
        split_ifs at found with isEvent
        cases found
        exact ⟨hints, borshMeta, lookup_of_mem table distinct _ _ member, isEvent, rfl⟩
    | intEnum members => cases found
    | borshEnum variants => cases found
  · rintro ⟨hints, borshMeta, found, isEvent, rfl⟩
    exact List.mem_filterMap.mpr ⟨_, lookup_mem table cls _ found, by simp [isEvent]⟩

theorem register_events (table : Table) (iface : ProgramInterface) :
    (table.foldl registerEvent iface).events =
      (eventClasses table).foldl (fun dict entry => dictSet dict entry.1 entry.2) iface.events := by
  induction table generalizing iface with
  | nil => rfl
  | cons entry rest ih =>
    obtain ⟨cls, defined⟩ := entry
    rw [List.foldl_cons, ih]
    cases defined with
    | dataclass hints borshMeta =>
      cases borshMeta with
      | none => rfl
      | some borshMeta =>
        by_cases isEvent : borshMeta.kind = .event
        · simp [eventClasses, registerEvent, isEvent, ProgramInterface.addEvent]
        · simp [eventClasses, registerEvent, isEvent]
    | intEnum members => rfl
    | borshEnum variants => rfl

theorem build_events (table : Table) (methods : List BuilderMethod) (programId programName : Text) (overrides : Overrides)
    (before after : Env) (iface : ProgramInterface) (free : PrefixFree ((eventClasses table).map Prod.fst))
    (built : buildInterface table methods programId programName overrides before = .ok (iface, after)) :
    iface.events = eventClasses table := by
  obtain ⟨registered, rfl, _, empty, _⟩ :=
    interface_built table methods programId programName overrides before after iface built
  rw [register_events, empty]
  exact dict_of_distinct _ (prefix_free_distinct _ free)

theorem event_selected (events : List (Bytes × Name)) (free : PrefixFree (events.map Prod.fst)) (discriminator : Bytes)
    (cls : Name) (inside : (discriminator, cls) ∈ events) (body : Bytes) :
    (if (discriminator ++ body).length ≥ 8 then events.lookup ((discriminator ++ body).take 8) else none) =
      if discriminator.length = 8 then some cls else none := by
  have distinct := prefix_free_distinct _ free
  by_cases eight : discriminator.length = 8
  · have key : (discriminator ++ body).take 8 = discriminator := by rw [← eight, List.take_left]
    rw [if_pos eight, key, if_pos (by rw [List.length_append]; omega)]
    exact lookup_of_mem events distinct discriminator cls inside
  · rw [if_neg eight]
    split
    · rename_i long
      cases found : events.lookup ((discriminator ++ body).take 8) with
      | none => rfl
      | some other =>
        have member := List.mem_map_of_mem (f := Prod.fst) (lookup_mem events _ other found)
        have listed := List.mem_map_of_mem (f := Prod.fst) inside
        have different : discriminator ≠ (discriminator ++ body).take 8 := by
          intro same
          have size := congrArg List.length same
          rw [List.length_take] at size
          omega
        have symmetric : Std.Symm fun a b : Bytes => ¬ a <+: b ∧ ¬ b <+: a := ⟨fun a b both => ⟨both.2, both.1⟩⟩
        have apart := List.Pairwise.forall free listed member different
        have start := List.take_prefix 8 (discriminator ++ body)
        rcases Nat.le_total discriminator.length ((discriminator ++ body).take 8).length with shorter | longer
        · exact absurd (List.prefix_of_prefix_length_le (List.prefix_append _ _) start shorter) apart.1
        · exact absurd (List.prefix_of_prefix_length_le start (List.prefix_append _ _) longer) apart.2
    · rfl

def EventMeta (borshMeta : BorshMeta) : Prop := borshMeta.kind = .event ∧ borshMeta.isAccountRoot = false

theorem event_stripped_iff (borshMeta : BorshMeta) (isEvent : EventMeta borshMeta) (data body : Bytes) :
    stripped (some borshMeta) data true = .ok body ↔ data = borshMeta.discriminator ++ body := by
  simp only [stripped, isEvent.1, or_true, true_and, if_true]
  split
  · rename_i starts
    rw [Except.ok.injEq]
    constructor
    · rintro rfl
      have whole := List.take_append_drop borshMeta.discriminator.length data
      rw [starts] at whole
      exact whole.symm
    · rintro rfl
      rw [List.drop_left]
  · rename_i apart
    constructor
    · intro impossible
      cases impossible
    · rintro rfl
      exact absurd List.take_left apart

theorem event_mode (borshMeta : BorshMeta) (isEvent : EventMeta borshMeta) : structMode (some borshMeta) = .ixData := by
  simp [structMode, isEvent.2]

theorem try_decode_raises (table : Table) (before : Env) (cls : Name) (data : Bytes) (e : Raised)
    (raises : compileRefs table cls before = .error e) : tryDecode table cls data before = (none, before) := by
  have fails : structDecode table cls data true before = .error e := by
    rw [structDecode, compile_bind, raises]
  rw [tryDecode, fails, raises]

theorem try_decode_compiled (table : Table) (before env : Env) (cls : Name) (data : Bytes)
    (compiled : compileRefs table cls before = .ok ((), env)) :
    tryDecode table cls data before =
      (((stripped (classMeta table cls) data true).bind fun body =>
        decode env body (.ref cls) (structMode (classMeta table cls))).toOption, env) := by
  have ran : structDecode table cls data true before = ((stripped (classMeta table cls) data true).bind fun body =>
      decode env body (.ref cls) (structMode (classMeta table cls))).map fun value => (value, env) := by
    rw [structDecode, compile_bind, compiled]
    simp only [compile_bind, get, getThe, MonadStateOf.get, StateT.get, pure, Except.pure, lifted]
    cases stripped (classMeta table cls) data true with
    | error e => rfl
    | ok body => rfl
  rw [tryDecode, ran, compiled]
  cases (stripped (classMeta table cls) data true).bind fun body =>
      decode env body (.ref cls) (structMode (classMeta table cls)) with
  | error e => rfl
  | ok value => rfl

theorem try_decode_grows (table : Table) (before : Env) (cls : Name) (data : Bytes) :
    Grown table [] before (tryDecode table cls data before).2 := by
  cases compiled : compileRefs table cls before with
  | error e =>
    rw [try_decode_raises table before cls data e compiled]
    exact grown_refl table [] before
  | ok pair =>
    obtain ⟨⟨⟩, env⟩ := pair
    rw [try_decode_compiled table before env cls data compiled]
    exact (type_runs table (table.length + 1) [] cls before () env compiled).1

def EventBody (table : Table) (cls : Name) (value : Value) (body : Bytes) : Prop :=
  ∃ env levels, Grown table [] [] env ∧ (env.lookup cls).isSome = true ∧ Wire env levels (.ref cls) value body

def Encodes (table : Table) (payload : Bytes) (value : Value) : Prop :=
  ∃ discriminator cls body, (discriminator, cls) ∈ eventClasses table ∧ payload = discriminator ++ body ∧
    EventBody table cls value body

structure EventTable where
  table : Table
  distinct : (table.map Prod.fst).Nodup
  events : ∀ cls hints borshMeta, table.lookup cls = some (.dataclass hints (some borshMeta)) → borshMeta.kind = .event →
    EventMeta borshMeta
  lossless : ∀ env, Grown table [] [] env → LosslessEnv env
  prefixFree : PrefixFree ((eventClasses table).map Prod.fst)

section

variable (t : EventTable) (iface : ProgramInterface) (isEvents : iface.events = eventClasses t.table)

include isEvents

theorem decode_event_iff (before env : Env) (cls : Name) (discriminator body : Bytes) (levels : Nat) (value : Value)
    (inside : (discriminator, cls) ∈ eventClasses t.table) (compiled : compileRefs t.table cls before = .ok ((), env))
    (wire : Wire env levels (.ref cls) value body) :
    (iface.decodeEvent t.table (discriminator ++ body) before).1 = some value ↔
      discriminator.length = 8 ∧ Admits env maxDecodeDepth 0 (.ref cls) value := by
  obtain ⟨hints, borshMeta, found, kind, rfl⟩ := (event_classes_iff t.table t.distinct discriminator cls).mp inside
  have isEvent := t.events cls hints borshMeta found kind
  have isMeta : classMeta t.table cls = some borshMeta := by rw [classMeta, found]
  have strips := (event_stripped_iff borshMeta isEvent (borshMeta.discriminator ++ body) body).mpr rfl
  rw [ProgramInterface.decodeEvent, isEvents, event_selected _ t.prefixFree _ cls inside body,
    ← wire_decoded_iff env levels (.ref cls) value body wire]
  by_cases eight : borshMeta.discriminator.length = 8
  · rw [if_pos eight, and_iff_right eight]
    simp only
    rw [try_decode_compiled t.table before env cls _ compiled, isMeta, strips, event_mode borshMeta isEvent]
    cases result : decode env body (.ref cls) .ixData with
    | error e => simp [Except.bind, Except.toOption, result]
    | ok other => simp [Except.bind, Except.toOption, result]
  · simp [eight]

theorem decode_event_encodes (before : Env) (started : Grown t.table [] [] before) (data : Bytes) (value : Value)
    (decoded : (iface.decodeEvent t.table data before).1 = some value) : Encodes t.table data value := by
  rw [ProgramInterface.decodeEvent, isEvents] at decoded
  split at decoded
  · cases decoded
  · rename_i cls selected
    split_ifs at selected
    have inside := lookup_mem _ _ cls selected
    obtain ⟨hints, borshMeta, found, kind, same⟩ := (event_classes_iff t.table t.distinct _ cls).mp inside
    have isEvent := t.events cls hints borshMeta found kind
    have isMeta : classMeta t.table cls = some borshMeta := by rw [classMeta, found]
    cases compiled : compileRefs t.table cls before with
    | error e =>
      rw [try_decode_raises t.table before cls data e compiled] at decoded
      cases decoded
    | ok pair =>
      obtain ⟨⟨⟩, env⟩ := pair
      obtain ⟨grown, known⟩ := type_runs t.table (t.table.length + 1) [] cls before () env compiled
      have whole := grown_trans t.table [] [] before env started grown
      rw [try_decode_compiled t.table before env cls data compiled, isMeta, event_mode borshMeta isEvent] at decoded
      cases strips : stripped (some borshMeta) data true with
      | error e =>
        rw [strips] at decoded
        cases decoded
      | ok body =>
        rw [strips] at decoded
        cases result : decode env body (.ref cls) .ixData with
        | error e =>
          simp [Except.bind, Except.toOption, result] at decoded
        | ok other =>
          simp only [Except.bind, Except.toOption, result, Option.some.injEq] at decoded
          subst decoded
          rw [← same] at inside
          refine ⟨_, cls, body, inside, (event_stripped_iff borshMeta isEvent data body).mp strips, env, maxDecodeDepth,
            whole, known.resolve_right (by simp), ?_⟩
          exact decode_wire env (t.lossless env whole) (.ref cls) rfl body other result

end

theorem decode_event_grows (table : Table) (iface : ProgramInterface) (before : Env) (data : Bytes) :
    Grown table [] before (iface.decodeEvent table data before).2 := by
  rw [ProgramInterface.decodeEvent]
  split
  · exact grown_refl table [] before
  · exact try_decode_grows table before _ data

def FaithfulEvent (table : Table) (programId : Text) (payload : Bytes) (event : Event) : Prop :=
  (∃ value, event = .decoded value ∧ Encodes table payload value) ∨ event = .unknown ⟨programId, payload.take 8, payload⟩

theorem event_of_faithful (t : EventTable) (registry : Registry) (programId : Text)
    (registered : ∀ iface, registry.lookup programId = some iface → iface.events = eventClasses t.table) (raw : Bytes)
    (cache : Env) (started : Grown t.table [] [] cache) :
    FaithfulEvent t.table programId raw (eventOf registry t.table programId raw cache).1 ∧
      Grown t.table [] cache (eventOf registry t.table programId raw cache).2 := by
  rw [eventOf]
  cases found : registry.lookup programId with
  | none => exact ⟨.inr rfl, grown_refl t.table [] cache⟩
  | some iface =>
    have grows := decode_event_grows t.table iface cache raw
    simp only
    cases outcome : iface.decodeEvent t.table raw cache with
    | mk decoded after =>
      rw [outcome] at grows
      cases decoded with
      | none => exact ⟨.inr rfl, grows⟩
      | some value =>
        have encodes := decode_event_encodes t iface (registered iface found) cache started raw value (by rw [outcome])
        exact ⟨.inl ⟨value, rfl, encodes⟩, grows⟩

theorem decode_events_faithful (t : EventTable) (registry : Registry) (programId : Text)
    (registered : ∀ iface, registry.lookup programId = some iface → iface.events = eventClasses t.table)
    (payloads : List Bytes) (cache : Env) (started : Grown t.table [] [] cache) :
    List.Forall₂ (FaithfulEvent t.table programId) payloads (decodeEvents registry t.table programId payloads cache).1 := by
  induction payloads generalizing cache with
  | nil => exact .nil
  | cons raw rest ih =>
    obtain ⟨faithful, grown⟩ := event_of_faithful t registry programId registered raw cache started
    exact .cons faithful (ih _ (grown_trans t.table [] [] cache _ started grown))

end WakeSol.Interface
