import WakeSol.Codec.Wire

set_option autoImplicit false

namespace WakeSol.Codec

open TextLib RadixLib EndianLib WireLib

def levelBelow {α : Type} (run : Nat → α) : Nat → Option α
  | 0 => none
  | levels + 1 => some (run levels)

theorem level_below_some {α : Type} (run : Nat → α) (levels : Nat) (next : α) (found : levelBelow run levels = some next) :
    ∃ below, levels = below + 1 ∧ next = run below := by
  cases levels with
  | zero => simp [levelBelow] at found
  | succ below => exact ⟨below, rfl, (Option.some.inj found).symm⟩

theorem wire_unfold (env : Env) (levels : Nat) : Wire env levels = wireNode env (levelBelow (Wire env) levels) := by
  cases levels <;> rfl

theorem typed_unfold (env : Env) (levels : Nat) : Typed env levels = typedNode env (levelBelow (Typed env) levels) := by
  cases levels <;> rfl

theorem read_unfold (env : Env) (room : Nat) : read env room = readNode env (levelBelow (read env) room) := by
  cases room <;> rfl

theorem take_consumes (raw : Bytes) (n : Int) (path : Path) (size : (raw.length : Int) = n) :
    Consumes (take n path) raw raw := by
  intro pos after
  subst size
  simp [take]

theorem take_splits (n : Int) (path : Path) : Splits (take n path) fun raw bytes => raw = bytes ∧ (bytes.length : Int) = n := by
  intro cur raw after ran
  rw [take] at ran
  by_cases short : n < 0 ∨ n > cur.rest.length
  · simp [short] at ran
  · rw [if_neg short] at ran
    obtain ⟨rfl, rfl⟩ := Prod.mk.inj (Except.ok.inj ran)
    have size : ((cur.rest.take n.toNat).length : Int) = n := by
      rw [List.length_take]
      omega
    refine ⟨cur.rest.take n.toNat, (List.take_append_drop _ _).symm, ?_, rfl, size⟩
    simp only
    omega

theorem byte_consumes (byte : UInt8) (path : Path) : Consumes (takeByte path) byte [byte] :=
  consumes_bind _ _ [byte] byte [byte] [] (take_consumes [byte] 1 path rfl) (consumes_pure byte)

theorem byte_splits (path : Path) : Splits (takeByte path) fun byte bytes => bytes = [byte] := by
  intro cur byte after ran
  obtain ⟨bytes, rest, pos, raw, front, back, rfl, ⟨rfl, size⟩, rfl, rfl⟩ :=
    splits_bind _ _ _ _ (take_splits 1 path) (fun raw => splits_pure (raw.headD 0)) cur byte after ran
  refine ⟨_, rest, pos, ?_⟩
  obtain ⟨only, rfl⟩ := List.length_eq_one_iff.mp (by omega : raw.length = 1)
  rfl

theorem refuse_splits {α : Type} (complaint : Complaint) (back : Nat) (path : Path) (holds : α → Bytes → Prop) :
    Splits (refuse complaint back path) holds := by
  intro cur value after ran
  simp [refuse] at ran

theorem seq_len_runs (minElem : Int) (path : Path) (n : Nat) (small : n < 256 ^ 4) (rest : Bytes)
    (enough : n ≤ rest.length) (floor : 0 < minElem → n * minElem ≤ rest.length) (pos : Nat) :
    readSeqLen minElem path ⟨pos, leBytes 4 n ++ rest⟩ = .ok (n, ⟨pos + 4, rest⟩) := by
  have value := le_nat_le_bytes 4 n small
  have length := le_bytes_length 4 n
  have taken := take_consumes (leBytes 4 n) 4 path (by simp [length]) pos rest
  rw [length] at taken
  rw [readSeqLen, run_bind, taken]
  simp only [run_bind, remaining, value]
  rw [if_neg (by omega), if_neg]
  · rfl
  · rintro ⟨positive, beyond⟩
    have fits := Int.le_ediv_of_mul_le positive (floor positive)
    omega

theorem seq_len_consumes {α : Type} (minElem : Int) (path : Path) (next : Nat → Reader Raised α) (n : Nat)
    (small : n < 256 ^ 4) (value : α) (body : Bytes) (enough : n ≤ body.length)
    (floor : 0 < minElem → n * minElem ≤ body.length) (consumes : Consumes (next n) value body) :
    Consumes (readSeqLen minElem path >>= next) value (leBytes 4 n ++ body) := by
  intro pos after
  have longer : n ≤ (body ++ after).length := by
    rw [List.length_append]
    omega
  have floorLonger : 0 < minElem → (n : Int) * minElem ≤ (body ++ after).length := by
    intro positive
    have short := floor positive
    rw [List.length_append]
    push_cast
    omega
  rw [run_bind, List.append_assoc, seq_len_runs minElem path n small (body ++ after) longer floorLonger pos]
  simp only
  rw [consumes, List.length_append, le_bytes_length, Nat.add_assoc]

theorem seq_len_splits (minElem : Int) (path : Path) :
    Splits (readSeqLen minElem path) fun n bytes => n < 256 ^ 4 ∧ bytes = leBytes 4 n := by
  intro cur n after ran
  rw [readSeqLen, run_bind] at ran
  cases took : take 4 path cur with
  | error e => simp [took] at ran
  | ok pair =>
    obtain ⟨raw, middle⟩ := pair
    obtain ⟨bytes, rest, pos, rfl, size⟩ := take_splits 4 path cur raw middle took
    have width : raw.length = 4 := by omega
    simp only [took, run_bind, remaining] at ran
    split at ran
    · simp [refuse] at ran
    · split at ran
      · simp [refuse] at ran
      · obtain ⟨rfl, rfl⟩ := Prod.mk.inj (Except.ok.inj ran)
        refine ⟨raw, rest, pos, ?_, ?_⟩
        · rw [← width]
          exact le_nat_lt raw
        · rw [← width, le_bytes_le_nat]

theorem items_consume (next : NodeReader) (elem : Node) (parts : List (Value × Bytes)) (path : Path)
    (each : ∀ part ∈ parts, ∀ path, Consumes (next elem path) part.1 part.2) :
    Consumes (readItems elem parts.length path next) (.list (parts.map Prod.fst)) (parts.map Prod.snd).flatten := by
  refine consumes_last _ _ (parts.map Prod.fst) _ _ (consumes_map_m _ _ parts ?_) (consumes_pure _)
  rw [List.forall₂_iff_zip]
  refine ⟨by simp, fun {i part} inside => ?_⟩
  exact each part (List.of_mem_zip inside).2 _

theorem items_split (next : NodeReader) (elem : Node) (n : Nat) (path : Path) (holds : NodeWire)
    (each : ∀ path, Splits (next elem path) (holds elem)) :
    Splits (readItems elem n path next) fun value bytes =>
      ∃ items : List Value, value = .list items ∧ items.length = n ∧ WireItems holds elem items bytes := by
  intro cur value after ran
  obtain ⟨bytes, rest, pos, values, front, back, rfl, ⟨parts, rfl, rfl, all⟩, rfl, rfl⟩ :=
    splits_bind _ _ _ _ (splits_map_m _ (List.range n) (fun _ => holds elem) fun i _ => each _)
      (fun values => splits_pure (Value.list values)) cur value after ran
  refine ⟨_, rest, pos, _, rfl, ?_, parts, rfl, by simp, ?_⟩
  · rw [List.length_map, ← all.length_eq, List.length_range]
  · exact forall_right (List.range n) parts _ all

theorem fields_consume (next : NodeReader) (entries : List (Name × Node)) (parts : List (Value × Bytes))
    (pathOf : Name × Node → Path)
    (each : List.Forall₂ (fun entry part => ∀ path, Consumes (next entry.2 path) part.1 part.2) entries parts) :
    Consumes (entries.mapM fun entry => next entry.2 (pathOf entry)) (parts.map Prod.fst) (parts.map Prod.snd).flatten :=
  consumes_map_m _ entries parts (each.imp fun entry _ consumes => consumes (pathOf entry))

theorem fields_split (next : NodeReader) (fields : Fields) (pathOf : Name × Node → Path) (holds : NodeWire)
    (each : ∀ entry ∈ fields.entries, ∀ path, Splits (next entry.2 path) (holds entry.2)) :
    Splits (fields.entries.mapM fun entry => next entry.2 (pathOf entry)) (WireFields holds fields) :=
  splits_map_m _ fields.entries (fun entry => holds entry.2) fun entry inside => each entry inside (pathOf entry)

theorem int_consumes (width : Nat) (signed : Bool) (n : Int) (range : InRange width signed n) (path : Path) :
    Consumes (readInt width signed path) (.int n) (leBytes width (unsignedOf width n)) := by
  have taken := take_consumes (leBytes width (unsignedOf width n)) width path (by rw [le_bytes_length])
  refine consumes_last _ _ _ _ _ taken ?_
  rw [decode_encode_int width signed n range]
  exact consumes_pure _

theorem float_consumes (bits : Bytes) (number : isNaN bits = false) (path : Path) :
    Consumes (readFloat bits.length path) (.float bits) bits := by
  refine consumes_last _ _ bits _ _ (take_consumes bits bits.length path rfl) ?_
  rw [number]
  exact consumes_pure _

theorem bool_consumes (b : Bool) (path : Path) : Consumes (readBool path) (.bool b) [if b then 1 else 0] := by
  cases b with
  | false => exact consumes_bind _ _ 0 _ [0] [] (byte_consumes 0 path) (consumes_pure _)
  | true => exact consumes_bind _ _ 1 _ [1] [] (byte_consumes 1 path) (consumes_pure _)

theorem str_consumes (s : String) (small : (utf8Encode s).length < 256 ^ 4) (path : Path) :
    Consumes (readStr path) (.str s) (leBytes 4 (utf8Encode s).length ++ utf8Encode s) := by
  refine seq_len_consumes 1 path _ _ small _ _ (Nat.le_refl _) (by simp) ?_
  refine consumes_last _ _ (utf8Encode s) _ _ (take_consumes _ _ path rfl) ?_
  rw [utf8_decode_encode]
  exact consumes_pure _

theorem bytes_consumes (raw : Bytes) (small : raw.length < 256 ^ 4) (path : Path) :
    Consumes (readBytes path) (.bytes raw) (leBytes 4 raw.length ++ raw) := by
  refine seq_len_consumes 1 path _ _ small _ _ (Nat.le_refl _) (by simp) ?_
  exact consumes_last _ _ _ _ _ (take_consumes raw raw.length path rfl) (consumes_pure _)

theorem fixed_bytes_consumes (raw : Bytes) (path : Path) : Consumes (readFixedBytes raw.length path) (.bytes raw) raw :=
  consumes_last _ _ _ _ _ (take_consumes raw raw.length path rfl) (consumes_pure _)

theorem pubkey_consumes (key : Address) (path : Path) : Consumes (readPubkey path) (.pubkey key) key.bytes := by
  have found : Consumes (pubkeyFrom key.bytes) (.pubkey key) [] := by
    intro pos after
    simp [pubkeyFrom, addressOf, key.size, Except.map]
  exact consumes_last _ _ _ _ _ (take_consumes key.bytes 32 path (by rw [key.size]; rfl)) found

theorem none_consumes (wrap : Value → Value) (inner : Node) (path : Path) (next : NodeReader) :
    Consumes (readOption wrap inner path next) .none [0] :=
  consumes_bind _ _ 0 _ [0] [] (byte_consumes 0 path) (consumes_pure _)

theorem some_consumes (wrap : Value → Value) (inner : Node) (path : Path) (next : NodeReader) (value : Value) (body : Bytes)
    (consumes : Consumes (next inner path) value body) :
    Consumes (readOption wrap inner path next) (wrap value) (1 :: body) := by
  refine consumes_bind _ _ 1 _ [1] body (byte_consumes 1 path) ?_
  exact consumes_last _ _ _ _ _ consumes (consumes_pure _)

theorem vec_consumes (minElem : Int) (elem : Node) (path : Path) (next : NodeReader) (parts : List (Value × Bytes))
    (small : parts.length < 256 ^ 4) (enough : parts.length ≤ (parts.map Prod.snd).flatten.length)
    (floor : 0 < minElem → parts.length * minElem ≤ (parts.map Prod.snd).flatten.length)
    (each : ∀ part ∈ parts, ∀ path, Consumes (next elem path) part.1 part.2) :
    Consumes (readVec minElem elem path next) (.list (parts.map Prod.fst))
      (leBytes 4 parts.length ++ (parts.map Prod.snd).flatten) :=
  seq_len_consumes minElem path _ _ small _ _ enough floor (items_consume next elem parts path each)

theorem struct_consumes (cls : Name) (fields : Fields) (path : Path) (next : NodeReader) (parts : List (Value × Bytes))
    (each : List.Forall₂ (fun entry part => ∀ path, Consumes (next entry.2 path) part.1 part.2) fields.entries parts) :
    Consumes (readStruct cls fields path next) (.object (.plain cls) fields.names (parts.map Prod.fst))
      (parts.map Prod.snd).flatten :=
  consumes_last _ _ _ _ _ (fields_consume next fields.entries parts _ each) (consumes_pure _)

theorem int_enum_consumes (cls : Name) (members : List Nat) (tag : UInt8) (known : tag.toNat ∈ members) (path : Path) :
    Consumes (readIntEnum cls members path) (.member cls tag.toNat) [tag] := by
  refine consumes_bind _ _ tag _ [tag] [] (byte_consumes tag path) ?_
  rw [if_pos known]
  exact consumes_pure _

theorem variant_consumes (cls : Name) (variants : Variants) (variant : Variant) (tag : UInt8) (path : Path)
    (next : NodeReader) (known : variants.find tag.toNat = some variant) (parts : List (Value × Bytes))
    (each : List.Forall₂ (fun entry part => ∀ path, Consumes (next entry.2 path) part.1 part.2)
      variant.fields.entries parts) :
    Consumes (readBorshEnum cls variants path next)
      (.object (.variant cls tag.toNat variant.name) variant.fields.names (parts.map Prod.fst))
      (tag :: (parts.map Prod.snd).flatten) := by
  refine consumes_bind _ _ tag _ [tag] _ (byte_consumes tag path) ?_
  rw [known]
  exact consumes_last _ _ _ _ _ (fields_consume next variant.fields.entries parts _ each) (consumes_pure _)

theorem find_tag (variants : Variants) (variant : Variant) (inside : variant ∈ variants.entries) :
    variants.find variant.tag = some variant := by
  obtain ⟨entries, distinct, bounded⟩ := variants
  simp only [Variants.find] at inside ⊢
  induction entries with
  | nil => simp at inside
  | cons first rest ih =>
    simp only [List.map_cons, List.nodup_cons] at distinct
    rcases List.mem_cons.mp inside with rfl | later
    · simp
    · have other : (first.tag == variant.tag) = false := by
        rw [beq_eq_false_iff_ne]
        intro same
        exact distinct.1 (same ▸ List.mem_map_of_mem later)
      rw [List.find?_cons, other]
      exact ih distinct.2 (fun v member => bounded v (by simp [member])) later

def Readable (env : Env) (levels : Nat) (node : Node) (value : Value) (raw : Bytes) : Prop :=
  Wire env levels node value raw ∧ ∀ path, Consumes (read env levels node path) value raw

theorem readable_fields (env : Env) (levels : Nat) (fields : Fields) (values : List Value)
    (typed : TypedFields (Typed env levels) fields values) (fits : allTagsFit values = true)
    (deeper : ∀ node value, Typed env levels node value → value.tagsFit = true → ∃ raw, Readable env levels node value raw) :
    ∃ parts : List (Value × Bytes), values = parts.map Prod.fst ∧
      List.Forall₂ (fun entry part => Readable env levels entry.2 part.1 part.2) fields.entries parts :=
  choose_parts_along fields.entries values _ _ typed fun entry value inside held =>
    deeper entry.2 value held ((all_tags_fit_iff values).mp fits value inside)

theorem readable_items (env : Env) (levels : Nat) (elem : Node) (items : List Value)
    (typed : ∀ item ∈ items, Typed env levels elem item) (fits : allTagsFit items = true)
    (deeper : ∀ node value, Typed env levels node value → value.tagsFit = true → ∃ raw, Readable env levels node value raw) :
    ∃ parts : List (Value × Bytes), items = parts.map Prod.fst ∧
      ∀ part ∈ parts, Readable env levels elem part.1 part.2 :=
  choose_parts items _ fun item inside =>
    deeper elem item (typed item inside) ((all_tags_fit_iff items).mp fits item inside)

theorem readable_class (env : Env) (levels : Nat) (cls : Name) (value : Value)
    (typed : TypedClass env cls value (Typed env levels)) (fits : value.tagsFit = true)
    (deeper : ∀ node value, Typed env levels node value → value.tagsFit = true → ∃ raw, Readable env levels node value raw) :
    ∃ raw, WireClass env cls value raw (Wire env levels) ∧
      ∀ path, Consumes (readClass env cls path (read env levels)) value raw := by
  simp only [TypedClass, WireClass, readClass] at typed ⊢
  cases found : env.lookup cls with
  | none => simp [found] at typed
  | some compiled =>
    rw [found] at typed
    cases compiled with
    | struct fields =>
      obtain ⟨values, rfl, typedFields⟩ := typed
      obtain ⟨parts, rfl, each⟩ := readable_fields env levels fields values typedFields fits deeper
      refine ⟨_, ⟨_, rfl, parts, rfl, rfl, each.imp fun _ _ held => held.1⟩, fun path => ?_⟩
      exact struct_consumes cls fields path _ parts (each.imp fun _ _ held => held.2)
    | intEnum members =>
      obtain ⟨n, known, rfl⟩ := typed
      have small : n < 256 := by simpa [Value.tagsFit] using fits
      have same : (UInt8.ofNat n).toNat = n := by simpa using Nat.mod_eq_of_lt small
      refine ⟨[UInt8.ofNat n], ⟨UInt8.ofNat n, by rwa [same], by rw [same], rfl⟩, fun path => ?_⟩
      have result := int_enum_consumes cls members (UInt8.ofNat n) (by rwa [same]) path
      rwa [same] at result
    | borshEnum variants =>
      obtain ⟨variant, inside, values, rfl, typedFields⟩ := typed
      obtain ⟨parts, rfl, each⟩ := readable_fields env levels variant.fields values typedFields fits deeper
      have same : (UInt8.ofNat variant.tag).toNat = variant.tag := by
        simpa using Nat.mod_eq_of_lt (variants.bounded variant inside)
      have known : variants.find (UInt8.ofNat variant.tag).toNat = some variant := by
        rw [same]
        exact find_tag variants variant inside
      refine ⟨UInt8.ofNat variant.tag :: (parts.map Prod.snd).flatten, ⟨variant, UInt8.ofNat variant.tag, _, _, known,
        by rw [same], rfl, parts, rfl, rfl, each.imp fun _ _ held => held.1⟩, fun path => ?_⟩
      have result := variant_consumes cls variants variant _ path _ known parts (each.imp fun _ _ held => held.2)
      rwa [same] at result

theorem readable_vec (env : Env) (levels : Nat) (elem : Node) (parts : List (Value × Bytes)) (small : parts.length < 256 ^ 4)
    (solid : parts.map Prod.fst = [] ∨ 0 < minWireSize env elem)
    (each : ∀ part ∈ parts, Readable env levels elem part.1 part.2) (path : Path) :
    Consumes (readVec (minWireSize env elem) elem path (read env levels)) (.list (parts.map Prod.fst))
      (leBytes 4 parts.length ++ (parts.map Prod.snd).flatten) := by
  have floor : (parts.length : Int) * minWireSize env elem ≤ (parts.map Prod.snd).flatten.length := by
    have wire : WireItems (Wire env levels) elem (parts.map Prod.fst) (parts.map Prod.snd).flatten :=
      ⟨parts, rfl, rfl, fun part inside => (each part inside).1⟩
    have bound := min_items elem (minWireSize env elem) _ (wire_min env levels _ elem []) _ _ wire
    rwa [List.length_map] at bound
  refine vec_consumes _ elem path _ parts small ?_ (fun _ => floor) fun part inside => (each part inside).2
  rcases solid with empty | positive
  · rw [List.map_eq_nil_iff.mp empty]
    simp
  · have grows : (parts.length : Int) ≤ parts.length * minWireSize env elem := le_mul_of_one_le_right (by omega) positive
    omega

theorem typed_readable (env : Env) (levels : Nat) (node : Node) (value : Value) (typed : Typed env levels node value)
    (fits : value.tagsFit = true) : ∃ raw, Readable env levels node value raw := by
  induction levels using Nat.strong_induction_on generalizing node value with
  | _ levels ih =>
    simp only [Readable]
    rw [typed_unfold] at typed
    rw [wire_unfold, read_unfold]
    cases node with
    | int width signed =>
      obtain ⟨n, rfl, range⟩ := typed
      exact ⟨_, ⟨n, rfl, range, rfl⟩, int_consumes width signed n range⟩
    | float width =>
      obtain ⟨bits, rfl, rfl, number⟩ := typed
      exact ⟨bits, ⟨rfl, rfl, number⟩, float_consumes bits number⟩
    | bool =>
      obtain ⟨b, rfl⟩ := typed
      exact ⟨_, ⟨b, rfl, rfl⟩, bool_consumes b⟩
    | str =>
      obtain ⟨s, rfl, small⟩ := typed
      exact ⟨_, ⟨s, rfl, small, rfl⟩, str_consumes s small⟩
    | bytes =>
      obtain ⟨raw, rfl, small⟩ := typed
      exact ⟨_, ⟨raw, rfl, small, rfl⟩, bytes_consumes raw small⟩
    | fixedBytes n =>
      obtain ⟨raw, rfl, rfl⟩ := typed
      exact ⟨raw, ⟨rfl, rfl⟩, fixed_bytes_consumes raw⟩
    | pubkey =>
      obtain ⟨key, rfl⟩ := typed
      exact ⟨_, ⟨key, rfl, rfl⟩, pubkey_consumes key⟩
    | option inner =>
      obtain ⟨next, isNext, held⟩ := typed
      obtain ⟨below, rfl, rfl⟩ := level_below_some _ levels next isNext
      rcases held with rfl | ⟨present, typedInner⟩
      · exact ⟨[0], ⟨_, rfl, .inl ⟨rfl, rfl⟩⟩, fun path => none_consumes _ inner path _⟩
      · obtain ⟨body, wire, consumes⟩ := ih below (Nat.lt_succ_self below) inner value typedInner fits
        exact ⟨1 :: body, ⟨_, rfl, .inr ⟨present, body, rfl, wire⟩⟩,
          fun path => some_consumes id inner path _ value body (consumes path)⟩
    | opt inner =>
      obtain ⟨next, isNext, held⟩ := typed
      obtain ⟨below, rfl, rfl⟩ := level_below_some _ levels next isNext
      rcases held with rfl | ⟨kept, rfl, typedInner⟩
      · exact ⟨[0], ⟨_, rfl, .inl ⟨rfl, rfl⟩⟩, fun path => none_consumes _ inner path _⟩
      · have keptFits : kept.tagsFit = true := by simpa [Value.tagsFit] using fits
        obtain ⟨body, wire, consumes⟩ := ih below (Nat.lt_succ_self below) inner kept typedInner keptFits
        exact ⟨1 :: body, ⟨_, rfl, .inr ⟨kept, body, rfl, rfl, wire⟩⟩,
          fun path => some_consumes .opt inner path _ kept body (consumes path)⟩
    | vec elem =>
      obtain ⟨next, isNext, items, rfl, small, solid, typedItems⟩ := typed
      obtain ⟨below, rfl, rfl⟩ := level_below_some _ levels next isNext
      obtain ⟨parts, rfl, each⟩ := readable_items env below elem items typedItems (by simpa [Value.tagsFit] using fits)
        (ih below (Nat.lt_succ_self below))
      rw [List.length_map] at small
      refine ⟨leBytes 4 parts.length ++ (parts.map Prod.snd).flatten, ⟨_, rfl, _, _, rfl, by rwa [List.length_map],
        by rw [List.length_map], parts, rfl, rfl, fun part inside => (each part inside).1⟩, ?_⟩
      exact readable_vec env below elem parts small solid each
    | fixedArray elem n =>
      obtain ⟨next, isNext, items, rfl, count, typedItems⟩ := typed
      obtain ⟨below, rfl, rfl⟩ := level_below_some _ levels next isNext
      obtain ⟨parts, rfl, each⟩ := readable_items env below elem items typedItems (by simpa [Value.tagsFit] using fits)
        (ih below (Nat.lt_succ_self below))
      refine ⟨_, ⟨_, rfl, _, rfl, count, parts, rfl, rfl, fun part inside => (each part inside).1⟩, fun path => ?_⟩
      have size : n.toNat = parts.length := by
        rw [List.length_map] at count
        omega
      have result := items_consume (read env below) elem parts path fun part inside => (each part inside).2
      rwa [← size] at result
    | ref cls =>
      obtain ⟨next, isNext, typedClass⟩ := typed
      obtain ⟨below, rfl, rfl⟩ := level_below_some _ levels next isNext
      obtain ⟨raw, wire, consumes⟩ := readable_class env below cls value typedClass fits (ih below (Nat.lt_succ_self below))
      exact ⟨raw, ⟨_, rfl, wire⟩, consumes⟩

end WakeSol.Codec
