import WakeSol.Codec.Complete

/- The encode and decode methods of generated dataclasses, and the round trip of
   the codec and of those methods. -/
set_option autoImplicit false

namespace WakeSol.Codec

open TextLib RadixLib EndianLib WireLib

def classMeta (table : Table) (cls : Name) : Option BorshMeta :=
  match table.lookup cls with
  | some (.dataclass _ borshMeta) => borshMeta
  | _ => none

def encodeName : Name := ['e', 'n', 'c', 'o', 'd', 'e']

-- value.encode(with_discriminator): an attribute of the instance hides the
-- method of the class, and no attribute value can be called.
def structEncode (table : Table) (value : Value) (withDiscriminator : Bool) : Compile Bytes :=
  match value with
  | .object (.plain cls) attrs _ =>
    if encodeName ∈ attrs then throw .typeError
    else do
      compileRefs table cls
      let body ← lifted (encode (← get) value (.ref cls))
      match classMeta table cls with
      | some borshMeta => return if withDiscriminator then borshMeta.discriminator ++ body else body
      | none => return body
  | _ => throw .attributeError

def stripped (borshMeta : Option BorshMeta) (data : Bytes) (withDiscriminator : Bool) : Except Raised Bytes :=
  match borshMeta with
  | some found =>
    if (found.isAccountRoot ∨ found.kind = .event) ∧ withDiscriminator then
      if data.take found.discriminator.length = found.discriminator then .ok (data.drop found.discriminator.length)
      else .error (.borshError .discriminatorMismatch 0 [])
    else .ok data
  | none => .ok data

def structMode (borshMeta : Option BorshMeta) : Mode :=
  match borshMeta with
  | some found => if found.isAccountRoot then .accountData else .ixData
  | none => .ixData

def structDecode (table : Table) (cls : Name) (data : Bytes) (withDiscriminator : Bool) : Compile Value := do
  compileRefs table cls
  let body ← lifted (stripped (classMeta table cls) data withDiscriminator)
  lifted (decode (← get) body (.ref cls) (structMode (classMeta table cls)))

theorem encode_fits (env : Env) (node : Node) (value : Value) (typed : Typed env maxDecodeDepth node value)
    (fits : value.tagsFit = true) : ∃ raw, encode env value node = .ok raw ∧ Readable env maxDecodeDepth node value raw := by
  obtain ⟨raw, readable⟩ := typed_readable env maxDecodeDepth node value typed fits
  refine ⟨raw, ?_, readable⟩
  rw [encode, wire_emits env maxDecodeDepth node value raw (value.height + 1) [] readable.1 (Nat.lt_succ_self _) []]
  rfl

theorem encode_unfit (env : Env) (node : Node) (value : Value) (typed : Typed env maxDecodeDepth node value)
    (unfit : value.tagsFit = false) : ∃ e, encode env value node = .error e := by
  obtain ⟨e, failed⟩ := (typed_decided env maxDecodeDepth node value (value.height + 1) typed (Nat.lt_succ_self _) []).2 unfit []
  exact ⟨e, by rw [encode, failed]⟩

theorem decode_readable (env : Env) (node : Node) (value : Value) (raw extra : Bytes) (mode : Mode)
    (readable : Readable env maxDecodeDepth node value raw) (allowed : mode = .accountData ∨ extra = []) :
    decode env (raw ++ extra) node mode = .ok value := by
  have taken := readable.2 [] 0 extra
  rw [decode, taken]
  rcases allowed with rfl | rfl
  · simp
  · simp

def roundTrip (env : Env) (node : Node) (value : Value) : Except Raised Value :=
  (encode env value node).bind fun raw => decode env raw node .ixData

theorem round_trip_iff (env : Env) (node : Node) (value : Value) (typed : Typed env maxDecodeDepth node value) :
    roundTrip env node value = .ok value ↔ value.tagsFit = true := by
  cases fits : value.tagsFit with
  | true =>
    obtain ⟨raw, encoded, readable⟩ := encode_fits env node value typed fits
    have decoded := decode_readable env node value raw [] .ixData readable (.inr rfl)
    rw [List.append_nil] at decoded
    simp [roundTrip, encoded, Except.bind, decoded]
  | false =>
    obtain ⟨e, failed⟩ := encode_unfit env node value typed fits
    simp [roundTrip, failed, Except.bind]

theorem compiled_struct (table : Table) (before env : Env) (cls : Name) (hints : Except Raised AnnFields)
    (borshMeta : Option BorshMeta) (started : Grown table [] [] before) (found : table.lookup cls = some (.dataclass hints borshMeta))
    (compiled : compileRefs table cls before = .ok ((), env)) : ∃ fields, env.lookup cls = some (.struct fields) := by
  obtain ⟨grown, known⟩ := type_runs table (table.length + 1) [] cls before () env compiled
  obtain ⟨node, cached⟩ := Option.isSome_iff_exists.mp (known.resolve_right (by simp))
  have whole := grown_trans table [] [] before env started grown
  rcases whole.added cls node cached with empty | ⟨_, _, ⟨defined, isDefined, lowered⟩, _⟩
  · cases empty
  · rw [found] at isDefined
    cases isDefined
    obtain ⟨fields, _, rfl⟩ := lowered
    exact ⟨fields, cached⟩

theorem typed_instance (env : Env) (levels : Nat) (cls : Name) (fields : Fields) (value : Value)
    (cached : env.lookup cls = some (.struct fields)) (typed : Typed env levels (.ref cls) value) :
    ∃ values, value = .object (.plain cls) fields.names values := by
  rw [typed_unfold] at typed
  obtain ⟨next, _, typedClass⟩ := typed
  simp only [TypedClass, cached] at typedClass
  obtain ⟨values, same, _⟩ := typedClass
  exact ⟨values, same⟩

def Value.attrs : Value → List Name
  | .object _ attrs _ => attrs
  | _ => []

theorem struct_encode_hidden (table : Table) (cls : ClassId) (attrs : List Name) (values : List Value)
    (withDiscriminator : Bool) (hidden : encodeName ∈ attrs) (env : Env) :
    ∃ e, structEncode table (.object cls attrs values) withDiscriminator env = .error e := by
  cases cls with
  | plain name => exact ⟨.typeError, by rw [structEncode, if_pos hidden]; rfl⟩
  | variant owner tag name => exact ⟨.attributeError, rfl⟩

theorem struct_encode_runs (table : Table) (before env : Env) (cls : Name) (attrs : List Name) (values : List Value)
    (borshMeta : BorshMeta) (withDiscriminator : Bool) (visible : encodeName ∉ attrs)
    (isMeta : classMeta table cls = some borshMeta) (compiled : compileRefs table cls before = .ok ((), env)) :
    structEncode table (.object (.plain cls) attrs values) withDiscriminator before =
      match encode env (.object (.plain cls) attrs values) (.ref cls) with
      | .ok body => .ok (if withDiscriminator then borshMeta.discriminator ++ body else body, env)
      | .error e => .error e := by
  rw [structEncode, if_neg visible, compile_bind, compiled]
  simp only [compile_bind, get, getThe, MonadStateOf.get, StateT.get, pure, Except.pure, lifted, isMeta]
  cases encode env (.object (.plain cls) attrs values) (.ref cls) with
  | error e => rfl
  | ok body => rfl

theorem stripped_full (borshMeta : BorshMeta) (body : Bytes) (withDiscriminator : Bool)
    (root : borshMeta.isAccountRoot = true ∨ borshMeta.kind = .event) :
    stripped (some borshMeta) ((if withDiscriminator then borshMeta.discriminator else []) ++ body) withDiscriminator = .ok body := by
  cases withDiscriminator with
  | false => simp [stripped]
  | true => simp [stripped, root]

theorem struct_decode_runs (table : Table) (env : Env) (cls : Name) (borshMeta : BorshMeta) (data : Bytes)
    (withDiscriminator : Bool) (isMeta : classMeta table cls = some borshMeta) (cached : (env.lookup cls).isSome = true)
    (body : Bytes) (strips : stripped (some borshMeta) data withDiscriminator = .ok body) (value : Value)
    (decodes : decode env body (.ref cls) (structMode (some borshMeta)) = .ok value) :
    structDecode table cls data withDiscriminator env = .ok (value, env) := by
  rw [structDecode, compile_bind, compile_cached table env cls cached]
  simp only [compile_bind, get, getThe, MonadStateOf.get, StateT.get, pure, Except.pure, lifted, isMeta, strips, Except.map,
    decodes]

def structRoundTrip (table : Table) (cls : Name) (value : Value) (withDiscriminator : Bool) (extra : Bytes) : Compile Value := do
  let raw ← structEncode table value withDiscriminator
  structDecode table cls (raw ++ extra) withDiscriminator

theorem struct_round_trip_iff (table : Table) (before env : Env) (cls : Name) (hints : Except Raised AnnFields)
    (borshMeta : BorshMeta) (started : Grown table [] [] before)
    (found : table.lookup cls = some (.dataclass hints (some borshMeta)))
    (root : borshMeta.isAccountRoot = true ∨ borshMeta.kind = .event)
    (compiled : compileRefs table cls before = .ok ((), env)) (value : Value) (typed : Typed env maxDecodeDepth (.ref cls) value)
    (withDiscriminator : Bool) (extra : Bytes) (allowed : borshMeta.isAccountRoot = true ∨ extra = []) :
    structRoundTrip table cls value withDiscriminator extra before = .ok (value, env) ↔
      value.tagsFit = true ∧ encodeName ∉ value.attrs := by
  obtain ⟨fields, cached⟩ := compiled_struct table before env cls hints (some borshMeta) started found compiled
  obtain ⟨values, rfl⟩ := typed_instance env maxDecodeDepth cls fields value cached typed
  have isMeta : classMeta table cls = some borshMeta := by rw [classMeta, found]
  rw [structRoundTrip, compile_bind, Value.attrs]
  by_cases hidden : encodeName ∈ fields.names
  · obtain ⟨e, failed⟩ := struct_encode_hidden table (.plain cls) fields.names values withDiscriminator hidden before
    simp [failed, hidden]
  · rw [struct_encode_runs table before env cls fields.names values borshMeta withDiscriminator hidden isMeta compiled]
    cases fits : (Value.object (.plain cls) fields.names values).tagsFit with
    | false =>
      obtain ⟨e, failed⟩ := encode_unfit env (.ref cls) _ typed fits
      simp [failed]
    | true =>
      obtain ⟨raw, encoded, readable⟩ := encode_fits env (.ref cls) _ typed fits
      have mode : structMode (some borshMeta) = .accountData ∨ extra = [] := by
        rcases allowed with account | empty
        · exact .inl (by simp [structMode, account])
        · exact .inr empty
      have decodes := decode_readable env (.ref cls) _ raw extra (structMode (some borshMeta)) readable mode
      have strips := stripped_full borshMeta (raw ++ extra) withDiscriminator root
      have runs := struct_decode_runs table env cls borshMeta _ withDiscriminator isMeta (by rw [cached]; rfl) _ strips _ decodes
      rw [encoded]
      cases withDiscriminator with
      | false => simpa [hidden] using runs
      | true => simpa [hidden] using runs

end WakeSol.Codec
