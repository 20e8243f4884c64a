import WakeSol.Codec.Write

/- What the encoder emits for any Python value at all. A value is written alike
   with any fuel above its height, a success does not depend on the path or the
   buffer, and the bytes have the shape of the node. -/
set_option autoImplicit false

namespace WakeSol.Codec

open TextLib RadixLib EndianLib BinaryLib WireLib DictLib

theorem items_height (value : Value) (items : List Value) (found : pyItems value = .ok items) (item : Value)
    (inside : item ∈ items) : item.height ≤ value.height := by
  cases value with
  | list held =>
    cases found
    rw [Value.height]
    exact height_le_heights items item inside
  | bytes raw =>
    cases found
    obtain ⟨byte, _, rfl⟩ := List.mem_map.mp inside
    simp [Value.height]
  | str s =>
    cases found
    obtain ⟨c, _, rfl⟩ := List.mem_map.mp inside
    simp [Value.height]
  | _ => simp [pyItems] at found

theorem attr_height (value attr : Value) (name : Name) (found : getAttr value name = .ok attr) :
    attr.height < value.height := by
  cases value with
  | object cls attrs values =>
    simp only [getAttr] at found
    cases held : (attrs.zip values).lookup name with
    | none => simp [held] at found
    | some other =>
      simp only [held, Option.elim_some, Except.ok.injEq] at found
      subst found
      have inside := (List.of_mem_zip (lookup_mem _ name other held)).2
      have low := height_le_heights values other inside
      rw [Value.height]
      omega
  | _ => simp [getAttr] at found

theorem write_items_congr (first second : Value → Path → Emitter Raised Unit) (items : List Value) (path : Path)
    (same : ∀ item ∈ items, ∀ path, first item path = second item path) :
    writeItems first items path = writeItems second items path :=
  for_m_congr _ _ _ fun indexed inside => same indexed.1 (List.fst_mem_of_mem_zipIdx inside) _

theorem write_node_congr (first second : Name → Value → Path → Emitter Raised Unit) (node : Node) (value : Value) (path : Path)
    (same : ∀ cls inner path, inner.height ≤ value.height → first cls inner path = second cls inner path) :
    writeNode first node value path = writeNode second node value path := by
  induction node generalizing value path with
  | option inner ih =>
    have later := ih value path same
    cases value with
    | none => rfl
    | _ => simp only [writeNode, later]
  | opt inner ih =>
    cases value with
    | opt held =>
      have later := ih held path fun cls inner path low => same cls inner path (by rwa [Value.height])
      simp only [writeNode, later]
    | _ => rfl
  | vec elem ih =>
    simp only [writeNode]
    cases found : pyItems value with
    | error e => rfl
    | ok items =>
      simp only
      rw [write_items_congr _ _ items path fun item inside path => ih item path fun cls inner path low =>
        same cls inner path (Nat.le_trans low (items_height value items found item inside))]
  | fixedArray elem n ih =>
    simp only [writeNode]
    cases found : pyItems value with
    | error e => rfl
    | ok items =>
      simp only
      rw [write_items_congr _ _ items path fun item inside path => ih item path fun cls inner path low =>
        same cls inner path (Nat.le_trans low (items_height value items found item inside))]
  | ref cls => exact same cls value path (Nat.le_refl _)
  | _ => rfl

theorem write_fields_congr (first second : NodeWriter) (fields : Fields) (value : Value) (path : Path)
    (same : ∀ node attr path, attr.height < value.height → first node attr path = second node attr path) :
    writeFields first fields value path = writeFields second fields value path := by
  refine for_m_congr _ _ _ fun entry _ => ?_
  simp only [writeAttr]
  cases found : getAttr value entry.1 with
  | error e => rfl
  | ok attr => exact same entry.2 attr _ (attr_height value attr entry.1 found)

variable (env : Env)

theorem write_class_congr (first second : NodeWriter) (cls : Name) (value : Value) (path : Path)
    (same : ∀ node attr path, attr.height < value.height → first node attr path = second node attr path) :
    writeClass env first cls value path = writeClass env second cls value path := by
  simp only [writeClass]
  cases env.lookup cls with
  | none => rfl
  | some compiled =>
    cases compiled with
    | intEnum members => rfl
    | struct fields => exact write_fields_congr first second fields value path same
    | borshEnum variants =>
      simp only
      cases variants.ofValue cls value with
      | none => rfl
      | some variant =>
        simp only
        rw [write_fields_congr first second variant.fields value path same]

theorem write_settled (fuel more : Nat) (node : Node) (value : Value) (path : Path) (enough : value.height < fuel)
    (enoughMore : value.height < more) : write env fuel node value path = write env more node value path := by
  induction fuel generalizing more node value path with
  | zero => simp at enough
  | succ fuel ih =>
    cases more with
    | zero => simp at enoughMore
    | succ more =>
      refine write_node_congr _ _ node value path fun cls inner path low => ?_
      refine write_class_congr env _ _ cls inner path fun node attr path lower => ?_
      exact ih more node attr path (by omega) (by omega)

def emit (env : Env) : NodeWriter := fun node value path => write env (value.height + 1) node value path

theorem emit_unfold (node : Node) (value : Value) (path : Path) :
    emit env node value path = writeNode (writeClass env (emit env)) node value path := by
  refine write_node_congr _ _ node value path fun cls inner path low => ?_
  refine write_class_congr env _ _ cls inner path fun node attr path lower => ?_
  exact write_settled env value.height (attr.height + 1) node attr path (by omega) (by omega)

theorem append_steady {κ : Type} (raw : Bytes) : Steady fun _ : κ => append raw :=
  steady_emits _ raw fun _ => append_emits raw

theorem throw_steady {κ : Type} (raised : κ → Bytes → Raised) :
    Steady fun path : κ => (fun out => .error (raised path out) : Emitter Raised Unit) :=
  steady_fails _ fun path out => ⟨raised path out, rfl⟩

theorem reject_steady (complaint : Complaint) : Steady (reject complaint) :=
  throw_steady fun path out => .borshError complaint out.length path

theorem append_int_steady {κ : Type} (width : Nat) (signed : Bool) (n : Int) (overflow : κ → Emitter Raised Unit)
    (steady : Steady overflow) : Steady fun path => appendInt width signed n (overflow path) := by
  simp only [appendInt]
  cases encodeInt width signed n with
  | none => exact steady
  | some raw => exact append_steady raw

theorem items_written (write : Value → Path → Emitter Raised Unit) (items : List Value) (path : Path) (out after : Bytes)
    (steady : ∀ item ∈ items, Steady (write item)) (ran : writeItems write items path out = .ok ((), after)) :
    ∃ parts : List (Value × Bytes), items = parts.map Prod.fst ∧ after = out ++ (parts.map Prod.snd).flatten ∧
      ∀ part ∈ parts, ∀ path, Emits (write part.1 path) part.2 := by
  obtain ⟨raws, rfl, each⟩ := for_m_parts _ items.zipIdx (fun indexed raw => ∀ path, Emits (write indexed.1 path) raw) out after
    (fun indexed inside out after ran => steady indexed.1 (List.fst_mem_of_mem_zipIdx inside) _ out after ran) ran
  obtain ⟨pairs, same, rfl, all⟩ := zip_parts items.zipIdx raws _ each
  refine ⟨pairs.map fun pair => (pair.1.1, pair.2), ?_, by simp [Function.comp_def], fun part inside => ?_⟩
  · rw [← List.zipIdx_map_fst 0 items, same]
    simp [Function.comp_def]
  · obtain ⟨pair, member, rfl⟩ := List.mem_map.mp inside
    exact all pair member

theorem items_steady (write : Value → Path → Emitter Raised Unit) (items : List Value)
    (steady : ∀ item ∈ items, Steady (write item)) : Steady (writeItems write items) := by
  intro path out after ran
  obtain ⟨parts, rfl, rfl, each⟩ := items_written write items path out after steady ran
  exact ⟨_, rfl, fun path => items_emit write parts path each⟩

def Attributed (next : NodeWriter) (value : Value) (entry : Name × Node) (part : Value × Bytes) : Prop :=
  getAttr value entry.1 = .ok part.1 ∧ ∀ path, Emits (next entry.2 part.1 path) part.2

variable (next : NodeWriter)

theorem fields_written (fields : Fields) (value : Value) (path : Path) (out after : Bytes)
    (steady : ∀ node attr, Steady (next node attr)) (ran : writeFields next fields value path out = .ok ((), after)) :
    ∃ parts : List (Value × Bytes), after = out ++ (parts.map Prod.snd).flatten ∧
      List.Forall₂ (Attributed next value) fields.entries parts := by
  have step : ∀ entry ∈ fields.entries, ∀ out after, writeAttr next value path entry.1 entry.2 out = .ok ((), after) →
      ∃ raw, after = out ++ raw ∧ ∃ attr, Attributed next value entry (attr, raw) := by
    intro entry _ out after ran
    simp only [writeAttr] at ran
    cases found : getAttr value entry.1 with
    | error e =>
      rw [found] at ran
      cases ran
    | ok attr =>
      rw [found] at ran
      obtain ⟨raw, rfl, emits⟩ := steady entry.2 attr _ out after ran
      exact ⟨raw, rfl, attr, found, emits⟩
  obtain ⟨raws, rfl, each⟩ := for_m_parts _ fields.entries _ out after step ran
  obtain ⟨parts, rfl, all⟩ := pair_parts fields.entries raws (fun entry attr raw => Attributed next value entry (attr, raw)) each
  exact ⟨parts, rfl, all⟩

theorem fields_steady (fields : Fields) (value : Value) (steady : ∀ node attr, Steady (next node attr)) :
    Steady (writeFields next fields value) := by
  intro path out after ran
  obtain ⟨parts, rfl, each⟩ := fields_written next fields value path out after steady ran
  refine ⟨_, rfl, fun path => emits_for_m _ _ _ ?_⟩
  rw [List.forall₂_map_right_iff]
  refine each.imp fun entry part held => ?_
  simp only [writeAttr, held.1]
  exact held.2 _

theorem len_steady {κ : Type} (n : Nat) (body : κ → Emitter Raised Unit) (steady : Steady body) :
    Steady fun path => appendLen n >>= fun _ => body path :=
  steady_then _ _ (append_int_steady 4 false n _ (throw_steady fun _ _ => .overflowError)) steady

theorem float_steady (width : Nat) (value : Value) : Steady (writeFloat width value) := by
  simp only [Steady, writeFloat]
  cases pyFloat value with
  | none => exact throw_steady fun _ _ => .structError
  | some bits =>
    by_cases nan : isNaN bits = true
    · simp only [nan, if_true]
      exact reject_steady _
    · by_cases same : bits.length = width
      · simp only [nan, same, if_true]
        exact append_steady bits
      · simp only [nan, same, if_false]
        cases pack width (unpack bits) with
        | none => exact throw_steady fun _ _ => .overflowError
        | some raw => exact append_steady raw

theorem node_steady (writeRef : Name → Value → Path → Emitter Raised Unit) (steady : ∀ cls value, Steady (writeRef cls value))
    (node : Node) (value : Value) : Steady (writeNode writeRef node value) := by
  induction node generalizing value with
  | int width signed =>
    simp only [Steady, writeNode, writeInt]
    cases value.isBool with
    | true => exact reject_steady _
    | false =>
      cases value.asInt with
      | none => exact reject_steady _
      | some n => exact append_int_steady width signed n _ (reject_steady _)
  | float width => exact float_steady width value
  | bool =>
    simp only [Steady, writeNode, writeBool]
    split
    · exact append_steady [1]
    · split
      · exact append_steady [0]
      · exact reject_steady _
  | str =>
    simp only [Steady, writeNode, writeStr]
    split
    · exact len_steady _ _ (append_steady _)
    · exact reject_steady _
  | bytes =>
    simp only [Steady, writeNode, writeBytes]
    cases pyBytes value with
    | error e => exact throw_steady fun _ _ => e
    | ok raw => exact len_steady _ _ (append_steady raw)
  | fixedBytes n =>
    simp only [Steady, writeNode, writeFixedBytes]
    cases pyBytes value with
    | error e => exact throw_steady fun _ _ => e
    | ok raw =>
      simp only
      split
      · exact reject_steady _
      · exact append_steady raw
  | pubkey =>
    simp only [Steady, writeNode, writePubkey]
    cases pubkeyOf value with
    | error e => exact throw_steady fun _ _ => e
    | ok key => exact append_steady key.bytes
  | option inner ih =>
    have later := steady_then _ _ (append_steady [1]) (ih value)
    cases value with
    | none => exact append_steady [0]
    | _ => exact later
  | opt inner ih =>
    cases value with
    | none => exact append_steady [0]
    | opt held => exact steady_then _ _ (append_steady [1]) (ih held)
    | _ => exact reject_steady _
  | vec elem ih =>
    simp only [Steady, writeNode]
    cases pyItems value with
    | error e => exact throw_steady fun _ _ => e
    | ok items => exact len_steady _ _ (items_steady _ items fun item _ => ih item)
  | fixedArray elem n ih =>
    simp only [Steady, writeNode]
    cases pyItems value with
    | error e => exact throw_steady fun _ _ => e
    | ok items =>
      simp only
      split
      · exact reject_steady _
      · exact items_steady _ items fun item _ => ih item
  | ref cls => exact steady cls value

theorem class_steady (steady : ∀ node attr, Steady (next node attr)) (cls : Name) (value : Value) :
    Steady (writeClass env next cls value) := by
  simp only [Steady, writeClass]
  cases env.lookup cls with
  | none => exact throw_steady fun _ _ => .keyError
  | some compiled =>
    cases compiled with
    | struct fields => exact fields_steady next fields value steady
    | intEnum members =>
      simp only
      cases pyInt value with
      | error e => exact throw_steady fun _ _ => e
      | ok n => exact append_int_steady 1 false n _ (throw_steady fun _ _ => .overflowError)
    | borshEnum variants =>
      simp only
      cases variants.ofValue cls value with
      | none => exact reject_steady _
      | some variant =>
        refine steady_then _ _ ?_ (fields_steady next variant.fields value steady)
        exact append_int_steady 1 false variant.tag _ (throw_steady fun _ _ => .overflowError)

theorem write_steady (fuel : Nat) (node : Node) (value : Value) : Steady (write env fuel node value) := by
  induction fuel generalizing node value with
  | zero => exact throw_steady fun _ _ => .recursionError
  | succ fuel ih => exact node_steady _ (class_steady env _ ih) node value

def Emission (env : Env) : NodeWire := fun node value raw => ∀ path, Emits (emit env node value path) raw

theorem emit_steady (node : Node) (value : Value) : Steady (emit env node value) :=
  write_steady env (value.height + 1) node value

theorem encode_emission (node : Node) (value : Value) (raw : Bytes) :
    encode env value node = .ok raw ↔ Emission env node value raw := by
  constructor
  · intro encoded
    rw [encode] at encoded
    cases ran : write env (value.height + 1) node value [] [] with
    | error e => simp [ran] at encoded
    | ok pair =>
      obtain ⟨⟨⟩, out⟩ := pair
      simp only [ran, Except.ok.injEq] at encoded
      subst encoded
      obtain ⟨bytes, rfl, emits⟩ := emit_steady env node value [] [] out ran
      exact emits
  · intro emission
    have ran := emission [] []
    rw [emit] at ran
    rw [encode, ran]
    rfl

theorem emit_node : writeNode (writeClass env (emit env)) = emit env := by
  funext node value path
  exact (emit_unfold env node value path).symm

def OutlinedFields (env : Env) (fields : Fields) (value : Value) (raw : Bytes) : Prop :=
  ∃ parts : List (Value × Bytes), raw = (parts.map Prod.snd).flatten ∧
    List.Forall₂ (Attributed (emit env) value) fields.entries parts

def OutlinedClass (env : Env) (cls : Name) (value : Value) (raw : Bytes) : Prop :=
  match env.lookup cls with
  | none => False
  | some (.struct fields) => OutlinedFields env fields value raw
  | some (.intEnum _) => ∃ tag : UInt8, pyInt value = .ok tag.toNat ∧ raw = [tag]
  | some (.borshEnum variants) => ∃ (variant : Variant) (tag : UInt8) (body : Bytes),
      variants.ofValue cls value = some variant ∧ variants.find tag.toNat = some variant ∧
        raw = tag :: body ∧ OutlinedFields env variant.fields value body

def Outlined (env : Env) : NodeWire
  | .int width _, _, raw => raw.length = width
  | .float width, _, raw => raw.length = width ∧ isNaN raw = false
  | .bool, _, raw => ∃ b : Bool, raw = [if b then 1 else 0]
  | .str, _, raw => ∃ s, (utf8Encode s).length < 256 ^ 4 ∧ raw = leBytes 4 (utf8Encode s).length ++ utf8Encode s
  | .bytes, _, raw => ∃ body : Bytes, body.length < 256 ^ 4 ∧ raw = leBytes 4 body.length ++ body
  | .fixedBytes n, _, raw => raw.length = n
  | .pubkey, _, raw => ∃ key : Address, raw = key.bytes
  | .option inner, value, raw => WireOption (Emission env) inner value raw
  | .opt inner, value, raw => WireOpt (Emission env) inner value raw
  | .vec elem, value, raw => ∃ items body, pyItems value = .ok items ∧ items.length < 256 ^ 4 ∧
      raw = leBytes 4 items.length ++ body ∧ WireItems (Emission env) elem items body
  | .fixedArray elem n, value, raw => ∃ items, pyItems value = .ok items ∧ items.length = n ∧
      WireItems (Emission env) elem items raw
  | .ref cls, value, raw => OutlinedClass env cls value raw

theorem append_run (bytes out after : Bytes) (ran : append bytes out = .ok ((), after)) : after = out ++ bytes :=
  (Prod.mk.inj (Except.ok.inj ran)).2.symm

theorem append_int_run (width : Nat) (signed : Bool) (n : Int) (e : Bytes → Raised) (out after : Bytes)
    (ran : appendInt width signed n (fun out => .error (e out)) out = .ok ((), after)) :
    InRange width signed n ∧ after = out ++ leBytes width (unsignedOf width n) := by
  rw [appendInt, encodeInt] at ran
  by_cases range : InRange width signed n
  · rw [if_pos range] at ran
    exact ⟨range, append_run _ out after ran⟩
  · rw [if_neg range] at ran
    cases ran

theorem append_nat_run (width n : Nat) (e : Bytes → Raised) (out after : Bytes)
    (ran : appendInt width false n (fun out => .error (e out)) out = .ok ((), after)) :
    n < 256 ^ width ∧ after = out ++ leBytes width n := by
  obtain ⟨range, grown⟩ := append_int_run width false n e out after ran
  have bounds : 0 ≤ (n : Int) ∧ (n : Int) < (256 ^ width : Nat) := by simpa [InRange] using range
  refine ⟨by omega, ?_⟩
  rw [grown, unsignedOf, if_neg (by omega), Int.toNat_natCast]

theorem nat_then_run (width n : Nat) (body : Emitter Raised Unit) (out after : Bytes)
    (ran : (appendInt width false n (throw .overflowError) >>= fun _ => body) out = .ok ((), after)) :
    n < 256 ^ width ∧ body (out ++ leBytes width n) = .ok ((), after) := by
  rw [write_bind] at ran
  cases ranFirst : appendInt width false n (throw .overflowError) out with
  | error e => simp [ranFirst] at ran
  | ok pair =>
    obtain ⟨⟨⟩, middle⟩ := pair
    obtain ⟨small, rfl⟩ := append_nat_run width n (fun _ => .overflowError) out middle ranFirst
    rw [ranFirst] at ran
    exact ⟨small, ran⟩

theorem of_value_find (variants : Variants) (cls : Name) (value : Value) (variant : Variant)
    (isVariant : variants.ofValue cls value = some variant) : variants.find variant.tag = some variant := by
  cases value with
  | object owner attrs values =>
    cases owner with
    | plain name => cases isVariant
    | «variant» owner tag name =>
      obtain ⟨found, _⟩ := Option.filter_eq_some_iff.mp isVariant
      have same : variant.tag = tag := by simpa using List.find?_some found
      rwa [same]
  | _ => cases isVariant

theorem float_outlined (width : Nat) (value : Value) (path : Path) (raw : Bytes)
    (ran : writeFloat width value path [] = .ok ((), raw)) : raw.length = width ∧ isNaN raw = false := by
  rw [writeFloat] at ran
  cases number : pyFloat value with
  | none =>
    rw [number] at ran
    cases ran
  | some bits =>
    simp only [number] at ran
    by_cases nan : isNaN bits = true
    · rw [if_pos nan] at ran
      cases ran
    · rw [if_neg nan] at ran
      by_cases same : bits.length = width
      · rw [if_pos same] at ran
        rw [append_run bits [] raw ran]
        exact ⟨same, by simpa using nan⟩
      · rw [if_neg same] at ran
        cases packed : pack width (unpack bits) with
        | none =>
          rw [packed] at ran
          cases ran
        | some other =>
          rw [packed] at ran
          rw [append_run other [] raw ran]
          exact pack_number width (unpack bits) other packed

theorem fields_outlined (fields : Fields) (value : Value) (path : Path) (out raw : Bytes)
    (ran : writeFields (emit env) fields value path out = .ok ((), raw)) :
    ∃ body, raw = out ++ body ∧ OutlinedFields env fields value body := by
  obtain ⟨parts, rfl, each⟩ := fields_written (emit env) fields value path out raw (emit_steady env) ran
  exact ⟨_, rfl, parts, rfl, each⟩

theorem class_outlined (cls : Name) (value : Value) (path : Path) (raw : Bytes)
    (ran : writeClass env (emit env) cls value path [] = .ok ((), raw)) : OutlinedClass env cls value raw := by
  rw [writeClass] at ran
  rw [OutlinedClass]
  cases found : env.lookup cls with
  | none =>
    rw [found] at ran
    cases ran
  | some compiled =>
    rw [found] at ran
    cases compiled with
    | struct fields =>
      obtain ⟨body, rfl, outlined⟩ := fields_outlined env fields value path [] raw ran
      exact outlined
    | intEnum members =>
      simp only at ran ⊢
      cases number : pyInt value with
      | error e =>
        rw [number] at ran
        cases ran
      | ok n =>
        rw [number] at ran
        obtain ⟨range, rfl⟩ := append_int_run 1 false n (fun _ => .overflowError) [] raw ran
        have bounds : 0 ≤ n ∧ n < 256 := by simpa [InRange] using range
        obtain ⟨tag, rfl⟩ := Int.eq_ofNat_of_zero_le bounds.1
        have same : (UInt8.ofNat tag).toNat = tag := by
          rw [UInt8.toNat_ofNat']
          exact Nat.mod_eq_of_lt (by omega)
        refine ⟨UInt8.ofNat tag, by rw [same], ?_⟩
        rw [unsignedOf, if_neg (by omega), Int.toNat_natCast]
        rfl
    | borshEnum variants =>
      simp only at ran ⊢
      cases isVariant : variants.ofValue cls value with
      | none =>
        rw [isVariant] at ran
        cases ran
      | some variant =>
        simp only [isVariant] at ran
        obtain ⟨small, rest⟩ := nat_then_run 1 variant.tag _ [] raw ran
        obtain ⟨body, rfl, outlined⟩ := fields_outlined env variant.fields value path _ raw rest
        have same : (UInt8.ofNat variant.tag).toNat = variant.tag := by
          rw [UInt8.toNat_ofNat']
          exact Nat.mod_eq_of_lt (by omega)
        refine ⟨variant, UInt8.ofNat variant.tag, body, rfl, ?_, rfl, outlined⟩
        rw [same]
        exact of_value_find variants cls value variant isVariant

theorem emission_outlined (node : Node) (value : Value) (raw : Bytes) (emission : Emission env node value raw) :
    Outlined env node value raw := by
  have ran : writeNode (writeClass env (emit env)) node value [] [] = .ok ((), raw) := by
    have held := emission [] []
    rwa [emit_unfold] at held
  cases node with
  | int width signed =>
    simp only [writeNode, writeInt] at ran
    cases isBool : value.isBool with
    | true =>
      rw [isBool] at ran
      cases ran
    | false =>
      cases number : value.asInt with
      | none =>
        rw [isBool, number] at ran
        cases ran
      | some n =>
        rw [isBool, number] at ran
        obtain ⟨_, rfl⟩ := append_int_run width signed n _ [] raw ran
        exact le_bytes_length width _
  | float width => exact float_outlined width value [] raw ran
  | bool =>
    simp only [writeNode, writeBool] at ran
    split at ran
    · exact ⟨true, append_run [1] [] raw ran⟩
    · split at ran
      · exact ⟨false, append_run [0] [] raw ran⟩
      · cases ran
  | str =>
    simp only [writeNode, writeStr] at ran
    split at ran
    · rename_i s
      obtain ⟨small, rest⟩ := nat_then_run 4 _ _ [] raw ran
      exact ⟨s, small, append_run _ _ raw rest⟩
    · cases ran
  | bytes =>
    simp only [writeNode, writeBytes] at ran
    cases found : pyBytes value with
    | error e =>
      rw [found] at ran
      cases ran
    | ok body =>
      rw [found] at ran
      obtain ⟨small, rest⟩ := nat_then_run 4 _ _ [] raw ran
      exact ⟨body, small, append_run _ _ raw rest⟩
  | fixedBytes n =>
    simp only [writeNode, writeFixedBytes] at ran
    cases found : pyBytes value with
    | error e =>
      rw [found] at ran
      cases ran
    | ok body =>
      simp only [found] at ran
      by_cases same : (body.length : Int) = n
      · rw [if_neg (by simpa using same)] at ran
        rw [append_run body [] raw ran]
        exact same
      · rw [if_pos same] at ran
        cases ran
  | pubkey =>
    simp only [writeNode, writePubkey] at ran
    cases found : pubkeyOf value with
    | error e =>
      rw [found] at ran
      cases ran
    | ok key =>
      rw [found] at ran
      exact ⟨key, append_run key.bytes [] raw ran⟩
  | option inner =>
    by_cases absent : value = .none
    · subst absent
      exact .inl ⟨rfl, append_run [0] [] raw ran⟩
    · have later : (append [1] >>= fun _ => emit env inner value []) [] = .ok ((), raw) := by
        rw [← emit_node env]
        cases value with
        | none => exact absurd rfl absent
        | _ => exact ran
      obtain ⟨body, rfl, emits⟩ := emit_steady env inner value [] [1] raw later
      exact .inr ⟨absent, body, rfl, emits⟩
  | opt inner =>
    cases value with
    | none => exact .inl ⟨rfl, append_run [0] [] raw ran⟩
    | opt held =>
      have later : (append [1] >>= fun _ => emit env inner held []) [] = .ok ((), raw) := by
        rw [← emit_node env]
        exact ran
      obtain ⟨body, rfl, emits⟩ := emit_steady env inner held [] [1] raw later
      exact .inr ⟨held, body, rfl, rfl, emits⟩
    | _ => cases ran
  | vec elem =>
    simp only [writeNode, emit_node] at ran
    cases found : pyItems value with
    | error e =>
      rw [found] at ran
      cases ran
    | ok items =>
      rw [found] at ran
      obtain ⟨small, rest⟩ := nat_then_run 4 _ _ [] raw ran
      obtain ⟨parts, same, rfl, each⟩ := items_written _ items [] _ raw (fun item _ => emit_steady env elem item) rest
      exact ⟨items, _, found, small, rfl, parts, same, rfl, each⟩
  | fixedArray elem n =>
    simp only [writeNode, emit_node] at ran
    cases found : pyItems value with
    | error e =>
      rw [found] at ran
      cases ran
    | ok items =>
      simp only [found] at ran
      by_cases same : (items.length : Int) = n
      · rw [if_neg (by simpa using same)] at ran
        obtain ⟨parts, whole, rfl, each⟩ := items_written _ items [] [] raw (fun item _ => emit_steady env elem item) ran
        exact ⟨items, found, same, parts, whole, rfl, each⟩
      · rw [if_pos same] at ran
        cases ran
  | ref cls => exact class_outlined env cls value [] raw ran

theorem outlined_wire (fields : Fields) (value : Value) (raw : Bytes) (outlined : OutlinedFields env fields value raw) :
    ∃ values, WireFields (Emission env) fields values raw := by
  obtain ⟨parts, rfl, each⟩ := outlined
  exact ⟨_, parts, rfl, rfl, each.imp fun _ _ held => held.2⟩

theorem emission_min_class (least : Node → List Node → Int) (bounded : Bounded least (Emission env))
    (stack : List Node) (cls : Name) (value : Value) (raw : Bytes) (outlined : OutlinedClass env cls value raw) :
    minClass env least stack cls ≤ raw.length := by
  rw [OutlinedClass] at outlined
  cases found : env.lookup cls with
  | none => simp [found] at outlined
  | some compiled =>
    rw [found] at outlined
    cases compiled with
    | intEnum members =>
      obtain ⟨tag, _, rfl⟩ := outlined
      simp [minClass, found]
    | struct fields =>
      obtain ⟨values, wire⟩ := outlined_wire env fields value raw outlined
      exact min_struct env least stack cls fields _ found fun stack =>
        min_fields least _ bounded fields stack values raw wire
    | borshEnum variants =>
      obtain ⟨variant, tag, body, _, known, rfl, outlinedFields⟩ := outlined
      obtain ⟨values, wire⟩ := outlined_wire env variant.fields value body outlinedFields
      have inside : variant ∈ variants.entries := List.mem_of_find?_eq_some known
      exact min_variant env least stack cls variants variant body.length found inside fun stack =>
        min_fields least _ bounded variant.fields stack values body wire

theorem emission_min_node (minRef : List Node → Name → Int)
    (refs : ∀ stack cls value raw, OutlinedClass env cls value raw → minRef stack cls ≤ raw.length) :
    Bounded (minNode minRef) (Emission env) := by
  intro node
  induction node with
  | fixedArray elem n ih =>
    intro stack value raw emission
    obtain ⟨items, _, count, wireItems⟩ := emission_outlined env _ value raw emission
    rw [minNode]
    by_cases again : Node.fixedArray elem n ∈ stack
    · simp [again]
    · rw [if_neg again, ← count]
      exact min_items elem _ (Emission env) (fun value raw => ih _ value raw) items raw wireItems
  | ref cls => exact fun stack value raw emission => refs stack cls value raw (emission_outlined env _ value raw emission)
  | int width signed =>
    intro stack value raw emission
    have size := emission_outlined env _ value raw emission
    simp only [Outlined] at size
    simp [minNode, size]
  | float width =>
    intro stack value raw emission
    have size := (emission_outlined env _ value raw emission).1
    simp [minNode, size]
  | bool =>
    intro stack value raw emission
    obtain ⟨b, rfl⟩ := emission_outlined env _ value raw emission
    simp [minNode]
  | str =>
    intro stack value raw emission
    obtain ⟨s, _, rfl⟩ := emission_outlined env _ value raw emission
    simp [minNode, le_bytes_length]
  | bytes =>
    intro stack value raw emission
    obtain ⟨body, _, rfl⟩ := emission_outlined env _ value raw emission
    simp [minNode, le_bytes_length]
  | fixedBytes n =>
    intro stack value raw emission
    have size := emission_outlined env _ value raw emission
    simp only [Outlined] at size
    simp [minNode, size]
  | pubkey =>
    intro stack value raw emission
    obtain ⟨key, rfl⟩ := emission_outlined env _ value raw emission
    simp [minNode, key.size]
  | option inner =>
    intro stack value raw emission
    obtain ⟨_, rfl⟩ | ⟨_, body, rfl, _⟩ := emission_outlined env _ value raw emission <;> simp [minNode]
  | opt inner =>
    intro stack value raw emission
    obtain ⟨_, rfl⟩ | ⟨_, body, _, rfl, _⟩ := emission_outlined env _ value raw emission <;> simp [minNode]
  | vec elem =>
    intro stack value raw emission
    obtain ⟨items, body, _, _, rfl, _⟩ := emission_outlined env _ value raw emission
    simp [minNode, le_bytes_length]

theorem emission_min (fuel : Nat) : Bounded (minWire env fuel) (Emission env) := by
  induction fuel with
  | zero => exact emission_min_node env _ fun _ _ _ _ _ => by simp
  | succ fuel ih => exact emission_min_node env _ fun stack cls value raw => emission_min_class env _ ih stack cls value raw

end WakeSol.Codec
