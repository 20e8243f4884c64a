import WakeSol.Codec.Read

set_option autoImplicit false

namespace WakeSol.Codec

open TextLib RadixLib EndianLib WireLib DictLib

theorem append_emits (raw : Bytes) : Emits (append raw) raw := by
  intro out
  rfl

theorem append_int_emits (width : Nat) (signed : Bool) (n : Int) (overflow : Emitter Raised Unit)
    (range : InRange width signed n) : Emits (appendInt width signed n overflow) (leBytes width (unsignedOf width n)) := by
  rw [appendInt, encodeInt, if_pos range]
  exact append_emits _

theorem append_nat_emits (width n : Nat) (overflow : Emitter Raised Unit) (small : n < 256 ^ width) :
    Emits (appendInt width false n overflow) (leBytes width n) := by
  rw [appendInt, encode_nat width n small]
  exact append_emits _

theorem append_nat_fails (width n : Nat) (e : Raised) (large : 256 ^ width ≤ n) :
    Fails (appendInt width false n (throw e)) := by
  rw [appendInt, encode_nat_large width n large]
  exact fun out => ⟨e, rfl⟩

theorem append_tag_emits (tag : UInt8) : Emits (appendTag tag.toNat) [tag] := by
  have bytes : leBytes 1 tag.toNat = [tag] := by simp [leBytes]
  rw [← bytes]
  exact append_nat_emits 1 tag.toNat _ tag.toNat_lt

theorem len_then_emits (n : Nat) (small : n < 256 ^ 4) (body : Emitter Raised Unit) (raw : Bytes) (emits : Emits body raw) :
    Emits (appendLen n >>= fun _ => body) (leBytes 4 n ++ raw) :=
  emits_bind _ _ _ _ (append_nat_emits 4 n _ small) emits

theorem items_emit (write : Value → Path → Emitter Raised Unit) (parts : List (Value × Bytes)) (path : Path)
    (each : ∀ part ∈ parts, ∀ path, Emits (write part.1 path) part.2) :
    Emits (writeItems write (parts.map Prod.fst) path) (parts.map Prod.snd).flatten := by
  refine emits_for_m _ _ _ (List.forall₂_iff_zip.mpr ⟨by simp, fun {indexed raw} inside => ?_⟩)
  obtain ⟨position, bound, same⟩ := List.mem_iff_getElem.mp inside
  simp only [List.getElem_zip, List.getElem_zipIdx, List.getElem_map, Prod.mk.injEq] at same
  obtain ⟨rfl, rfl⟩ := same
  exact each _ (List.getElem_mem _) _

theorem attr_found (cls : ClassId) (fields : Fields) (values : List Value) (size : fields.entries.length = values.length)
    (entry : Name × Node) (value : Value) (inside : (entry, value) ∈ fields.entries.zip values) :
    getAttr (.object cls fields.names values) entry.1 = .ok value := by
  have paired : (entry.1, value) ∈ fields.names.zip values := by
    rw [Fields.names, List.zip_map_left]
    exact List.mem_map.mpr ⟨(entry, value), inside, rfl⟩
  have distinct : ((fields.names.zip values).map Prod.fst).Nodup := by
    rw [List.map_fst_zip (by rw [Fields.names, List.length_map]; omega)]
    exact fields.distinct
  rw [getAttr, lookup_of_mem _ distinct entry.1 value paired]
  rfl

theorem fields_emit (next : NodeWriter) (cls : ClassId) (fields : Fields) (parts : List (Value × Bytes)) (path : Path)
    (each : List.Forall₂ (fun entry part => ∀ path, Emits (next entry.2 part.1 path) part.2) fields.entries parts) :
    Emits (writeFields next fields (.object cls fields.names (parts.map Prod.fst)) path) (parts.map Prod.snd).flatten := by
  obtain ⟨size, zipped⟩ := List.forall₂_iff_zip.mp each
  refine emits_for_m _ _ _ ?_
  rw [List.forall₂_map_right_iff, List.forall₂_iff_zip]
  refine ⟨size, fun {entry part} inside => ?_⟩
  have found := attr_found cls fields (parts.map Prod.fst) (by rw [List.length_map]; exact size) entry part.1 (by
    rw [List.zip_map_right]
    exact List.mem_map.mpr ⟨(entry, part), inside, rfl⟩)
  simp only [writeAttr, found]
  exact zipped inside _

theorem fields_low (entries : List (Name × Node)) (parts : List (Value × Bytes)) (fuel : Nat)
    (holds : Name × Node → Value × Bytes → Prop) (each : List.Forall₂ holds entries parts)
    (enough : heights (parts.map Prod.fst) < fuel) :
    List.Forall₂ (fun entry part => holds entry part ∧ part.1.height < fuel) entries parts := by
  obtain ⟨size, zipped⟩ := List.forall₂_iff_zip.mp each
  refine List.forall₂_iff_zip.mpr ⟨size, fun {entry part} inside => ⟨zipped inside, ?_⟩⟩
  exact Nat.lt_of_le_of_lt (height_le_heights _ _ (List.mem_map_of_mem (List.of_mem_zip inside).2)) enough

theorem class_emits (env : Env) (levels fuel : Nat) (cls : Name) (value : Value) (raw : Bytes) (path : Path)
    (wire : WireClass env cls value raw (Wire env levels)) (enough : value.height < fuel + 1)
    (deeper : ∀ node value raw path, Wire env levels node value raw → value.height < fuel →
      Emits (write env fuel node value path) raw) :
    Emits (writeClass env (write env fuel) cls value path) raw := by
  simp only [WireClass, writeClass] at wire ⊢
  cases found : env.lookup cls with
  | none => simp [found] at wire
  | some compiled =>
    rw [found] at wire
    cases compiled with
    | struct fields =>
      obtain ⟨values, rfl, parts, rfl, rfl, each⟩ := wire
      rw [Value.height] at enough
      refine fields_emit _ _ fields parts path ((fields_low _ parts fuel _ each (by omega)).imp ?_)
      exact fun entry part held path => deeper entry.2 part.1 part.2 path held.1 held.2
    | intEnum members =>
      obtain ⟨tag, _, rfl, rfl⟩ := wire
      exact append_tag_emits tag
    | borshEnum variants =>
      obtain ⟨variant, tag, values, body, known, rfl, rfl, parts, rfl, rfl, each⟩ := wire
      rw [Value.height] at enough
      have same : variant.tag = tag.toNat := by simpa using List.find?_some known
      have ofValue : variants.ofValue cls (.object (.variant cls tag.toNat variant.name) variant.fields.names
          (parts.map Prod.fst)) = some variant := by
        simp [Variants.ofValue, known]
      simp only [ofValue]
      refine emits_bind _ _ [tag] _ (by rw [same]; exact append_tag_emits tag) ?_
      refine fields_emit _ _ variant.fields parts path ((fields_low _ parts fuel _ each (by omega)).imp ?_)
      exact fun entry part held path => deeper entry.2 part.1 part.2 path held.1 held.2

theorem wire_emits (env : Env) (levels : Nat) (node : Node) (value : Value) (raw : Bytes) (fuel : Nat) (path : Path)
    (wire : Wire env levels node value raw) (enough : value.height < fuel) : Emits (write env fuel node value path) raw := by
  induction levels using Nat.strong_induction_on generalizing node value raw fuel path with
  | _ levels ih =>
    cases fuel with
    | zero => simp at enough
    | succ fuel =>
      rw [wire_unfold] at wire
      cases node with
      | int width signed =>
        obtain ⟨n, rfl, range, rfl⟩ := wire
        exact append_int_emits width signed n _ range
      | float width =>
        obtain ⟨rfl, size, number⟩ := wire
        simp only [write, writeNode, writeFloat, pyFloat, number, size, Bool.false_eq_true, if_false, if_true]
        exact append_emits _
      | bool =>
        obtain ⟨b, rfl, rfl⟩ := wire
        cases b <;> exact append_emits _
      | str =>
        obtain ⟨s, rfl, small, rfl⟩ := wire
        exact len_then_emits _ small _ _ (append_emits _)
      | bytes =>
        obtain ⟨body, rfl, small, rfl⟩ := wire
        exact len_then_emits _ small _ _ (append_emits _)
      | fixedBytes n =>
        obtain ⟨rfl, size⟩ := wire
        simp only [write, writeNode, writeFixedBytes, pyBytes, size, ne_eq, not_true_eq_false, if_false]
        exact append_emits _
      | pubkey =>
        obtain ⟨key, rfl, rfl⟩ := wire
        exact append_emits _
      | option inner =>
        obtain ⟨next, isNext, held⟩ := wire
        obtain ⟨below, rfl, rfl⟩ := level_below_some _ levels next isNext
        rcases held with ⟨rfl, rfl⟩ | ⟨present, body, rfl, wireInner⟩
        · exact append_emits _
        · have later := ih below (Nat.lt_succ_self below) inner value body (fuel + 1) path wireInner enough
          have result := emits_bind (append [1]) _ [1] body (append_emits [1]) later
          cases value with
          | none => exact absurd rfl present
          | _ => exact result
      | opt inner =>
        obtain ⟨next, isNext, held⟩ := wire
        obtain ⟨below, rfl, rfl⟩ := level_below_some _ levels next isNext
        rcases held with ⟨rfl, rfl⟩ | ⟨kept, body, rfl, rfl, wireInner⟩
        · exact append_emits _
        · have low : kept.height < fuel + 1 := by rwa [Value.height] at enough
          have later := ih below (Nat.lt_succ_self below) inner kept body (fuel + 1) path wireInner low
          exact emits_bind (append [1]) _ [1] body (append_emits [1]) later
      | vec elem =>
        obtain ⟨next, isNext, items, body, rfl, small, rfl, parts, rfl, rfl, each⟩ := wire
        obtain ⟨below, rfl, rfl⟩ := level_below_some _ levels next isNext
        rw [Value.height] at enough
        refine len_then_emits _ small _ _ (items_emit _ parts path fun part inside path => ?_)
        exact ih below (Nat.lt_succ_self below) elem part.1 part.2 (fuel + 1) path (each part inside)
          (Nat.lt_of_le_of_lt (height_le_heights _ _ (List.mem_map_of_mem inside)) enough)
      | fixedArray elem n =>
        obtain ⟨next, isNext, items, rfl, count, parts, rfl, rfl, each⟩ := wire
        obtain ⟨below, rfl, rfl⟩ := level_below_some _ levels next isNext
        rw [Value.height] at enough
        simp only [write, writeNode, pyItems, count, ne_eq, not_true_eq_false, if_false]
        refine items_emit _ parts path fun part inside path => ?_
        exact ih below (Nat.lt_succ_self below) elem part.1 part.2 (fuel + 1) path (each part inside)
          (Nat.lt_of_le_of_lt (height_le_heights _ _ (List.mem_map_of_mem inside)) enough)
      | ref cls =>
        obtain ⟨next, isNext, wireClass⟩ := wire
        obtain ⟨below, rfl, rfl⟩ := level_below_some _ levels next isNext
        exact class_emits env below fuel cls value raw path wireClass enough fun node value raw path held low =>
          ih below (Nat.lt_succ_self below) node value raw fuel path held low

theorem not_all_fit (values : List Value) (unfit : allTagsFit values = false) : ∃ value ∈ values, value.tagsFit = false := by
  by_contra none
  have all : allTagsFit values = true :=
    (all_tags_fit_iff values).mpr fun value inside => by
      cases fits : value.tagsFit with
      | true => rfl
      | false => exact absurd ⟨value, inside, fits⟩ none
  rw [all] at unfit
  exact Bool.noConfusion unfit

def Decided (write : Value → Path → Emitter Raised Unit) (value : Value) : Prop :=
  ∀ path, (value.tagsFit = true → ∃ raw, Emits (write value path) raw) ∧ (value.tagsFit = false → Fails (write value path))

theorem decided_either (write : Value → Path → Emitter Raised Unit) (value : Value) (path : Path) (decided : Decided write value) :
    (∃ raw, Emits (write value path) raw) ∨ Fails (write value path) := by
  cases fits : value.tagsFit with
  | true => exact .inl ((decided path).1 fits)
  | false => exact .inr ((decided path).2 fits)

theorem items_fail (write : Value → Path → Emitter Raised Unit) (items : List Value) (path : Path)
    (each : ∀ item ∈ items, Decided write item) (unfit : allTagsFit items = false) : Fails (writeItems write items path) := by
  obtain ⟨culprit, inside, culpritUnfit⟩ := not_all_fit items unfit
  refine fails_for_m _ _ (fun indexed member => ?_) ?_
  · exact decided_either write indexed.1 _ (each indexed.1 (List.fst_mem_of_mem_zipIdx member))
  · obtain ⟨position, bound, same⟩ := List.mem_iff_getElem.mp inside
    refine ⟨(culprit, position), ?_, (each culprit inside _).2 culpritUnfit⟩
    rw [List.mk_mem_zipIdx_iff_getElem?, List.getElem?_eq_getElem bound, same]

theorem fields_fail (next : NodeWriter) (cls : ClassId) (fields : Fields) (values : List Value) (path : Path)
    (each : List.Forall₂ (fun entry value => Decided (next entry.2) value) fields.entries values)
    (unfit : allTagsFit values = false) : Fails (writeFields next fields (.object cls fields.names values) path) := by
  obtain ⟨size, zipped⟩ := List.forall₂_iff_zip.mp each
  have found := attr_found cls fields values size
  have paired : ∀ (position : Nat) (bound : position < fields.entries.length),
      (fields.entries[position], values[position]) ∈ fields.entries.zip values := by
    intro position bound
    rw [← List.getElem_zip (h := by rw [List.length_zip]; omega)]
    exact List.getElem_mem _
  refine fails_for_m _ _ (fun entry member => ?_) ?_
  · obtain ⟨position, bound, rfl⟩ := List.mem_iff_getElem.mp member
    simp only [writeAttr, found _ _ (paired position bound)]
    exact decided_either _ _ _ (zipped (paired position bound))
  · obtain ⟨culprit, inside, culpritUnfit⟩ := not_all_fit values unfit
    obtain ⟨position, bound, rfl⟩ := List.mem_iff_getElem.mp inside
    have here := paired position (by omega)
    refine ⟨fields.entries[position], List.getElem_mem _, ?_⟩
    simp only [writeAttr, found _ _ here]
    exact (zipped here _).2 culpritUnfit

theorem typed_emits (env : Env) (levels : Nat) (node : Node) (value : Value) (fuel : Nat) (path : Path)
    (typed : Typed env levels node value) (enough : value.height < fuel) (fits : value.tagsFit = true) :
    ∃ raw, Emits (write env fuel node value path) raw := by
  obtain ⟨raw, wire, _⟩ := typed_readable env levels node value typed fits
  exact ⟨raw, wire_emits env levels node value raw fuel path wire enough⟩

theorem typed_low (env : Env) (levels fuel : Nat) (fields : Fields) (values : List Value)
    (typed : TypedFields (Typed env levels) fields values) (enough : heights values < fuel)
    (deeper : ∀ node value, Typed env levels node value → value.height < fuel → Decided (write env fuel node) value) :
    List.Forall₂ (fun entry value => Decided (write env fuel entry.2) value) fields.entries values := by
  obtain ⟨size, zipped⟩ := List.forall₂_iff_zip.mp typed
  refine List.forall₂_iff_zip.mpr ⟨size, fun {entry value} inside => deeper entry.2 value (zipped inside) ?_⟩
  exact Nat.lt_of_le_of_lt (height_le_heights _ _ (List.of_mem_zip inside).2) enough

theorem class_fails (env : Env) (levels fuel : Nat) (cls : Name) (value : Value) (path : Path)
    (typed : TypedClass env cls value (Typed env levels)) (enough : value.height < fuel + 1) (unfit : value.tagsFit = false)
    (deeper : ∀ node value, Typed env levels node value → value.height < fuel → Decided (write env fuel node) value) :
    Fails (writeClass env (write env fuel) cls value path) := by
  simp only [TypedClass, writeClass] at typed ⊢
  cases found : env.lookup cls with
  | none => simp [found] at typed
  | some compiled =>
    rw [found] at typed
    cases compiled with
    | struct fields =>
      obtain ⟨values, rfl, typedFields⟩ := typed
      rw [Value.height] at enough
      exact fields_fail _ _ fields values path (typed_low env levels fuel fields values typedFields (by omega) deeper) unfit
    | intEnum members =>
      obtain ⟨n, known, rfl⟩ := typed
      have large : 256 ≤ n := by simpa [Value.tagsFit] using unfit
      exact append_nat_fails 1 n _ large
    | borshEnum variants =>
      obtain ⟨variant, inside, values, rfl, typedFields⟩ := typed
      rw [Value.height] at enough
      have ofValue : variants.ofValue cls (.object (.variant cls variant.tag variant.name) variant.fields.names values) =
          some variant := by
        simp [Variants.ofValue, find_tag variants variant inside]
      simp only [ofValue]
      have small : variant.tag < 256 ^ 1 := variants.bounded variant inside
      refine fails_second _ _ _ (append_nat_emits 1 variant.tag _ small) ?_
      exact fields_fail _ _ variant.fields values path
        (typed_low env levels fuel variant.fields values typedFields (by omega) deeper) unfit

theorem typed_decided (env : Env) (levels : Nat) (node : Node) (value : Value) (fuel : Nat)
    (typed : Typed env levels node value) (enough : value.height < fuel) : Decided (write env fuel node) value := by
  intro path
  refine ⟨typed_emits env levels node value fuel path typed enough, fun unfit => ?_⟩
  induction levels using Nat.strong_induction_on generalizing node value fuel path with
  | _ levels ih =>
    have decided : ∀ below < levels, ∀ node value fuel, Typed env below node value → value.height < fuel →
        Decided (write env fuel node) value := fun below less node value fuel typed low path =>
      ⟨typed_emits env below node value fuel path typed low, ih below less node value fuel typed low path⟩
    cases fuel with
    | zero => simp at enough
    | succ fuel =>
      rw [typed_unfold] at typed
      cases node with
      | option inner =>
        obtain ⟨next, isNext, held⟩ := typed
        obtain ⟨below, rfl, rfl⟩ := level_below_some _ levels next isNext
        rcases held with rfl | ⟨present, typedInner⟩
        · simp [Value.tagsFit] at unfit
        · have later := ih below (Nat.lt_succ_self below) inner value (fuel + 1) typedInner enough path unfit
          have result := fails_second (append [1]) _ [1] (append_emits [1]) later
          cases value with
          | none => exact absurd rfl present
          | _ => exact result
      | opt inner =>
        obtain ⟨next, isNext, held⟩ := typed
        obtain ⟨below, rfl, rfl⟩ := level_below_some _ levels next isNext
        rcases held with rfl | ⟨kept, rfl, typedInner⟩
        · simp [Value.tagsFit] at unfit
        · rw [Value.height] at enough
          rw [Value.tagsFit] at unfit
          have later := ih below (Nat.lt_succ_self below) inner kept (fuel + 1) typedInner enough path unfit
          exact fails_second (append [1]) _ [1] (append_emits [1]) later
      | vec elem =>
        obtain ⟨next, isNext, items, rfl, small, _, typedItems⟩ := typed
        obtain ⟨below, rfl, rfl⟩ := level_below_some _ levels next isNext
        rw [Value.height] at enough
        refine fails_second _ _ _ (append_nat_emits 4 _ _ small) (items_fail _ items path (fun item inside => ?_) unfit)
        exact decided below (Nat.lt_succ_self below) elem item (fuel + 1) (typedItems item inside)
          (Nat.lt_of_le_of_lt (height_le_heights _ _ inside) enough)
      | fixedArray elem n =>
        obtain ⟨next, isNext, items, rfl, count, typedItems⟩ := typed
        obtain ⟨below, rfl, rfl⟩ := level_below_some _ levels next isNext
        rw [Value.height] at enough
        simp only [write, writeNode, pyItems, count, ne_eq, not_true_eq_false, if_false]
        refine items_fail _ items path (fun item inside => ?_) unfit
        exact decided below (Nat.lt_succ_self below) elem item (fuel + 1) (typedItems item inside)
          (Nat.lt_of_le_of_lt (height_le_heights _ _ inside) enough)
      | ref cls =>
        obtain ⟨next, isNext, typedClass⟩ := typed
        obtain ⟨below, rfl, rfl⟩ := level_below_some _ levels next isNext
        exact class_fails env below fuel cls value path typedClass enough unfit fun node value held low =>
          decided below (Nat.lt_succ_self below) node value fuel held low
      | int width signed =>
        obtain ⟨n, rfl, _⟩ := typed
        simp [Value.tagsFit] at unfit
      | float width =>
        obtain ⟨bits, rfl, _⟩ := typed
        simp [Value.tagsFit] at unfit
      | bool =>
        obtain ⟨b, rfl⟩ := typed
        simp [Value.tagsFit] at unfit
      | str =>
        obtain ⟨s, rfl, _⟩ := typed
        simp [Value.tagsFit] at unfit
      | bytes =>
        obtain ⟨raw, rfl, _⟩ := typed
        simp [Value.tagsFit] at unfit
      | fixedBytes n =>
        obtain ⟨raw, rfl, _⟩ := typed
        simp [Value.tagsFit] at unfit
      | pubkey =>
        obtain ⟨key, rfl⟩ := typed
        simp [Value.tagsFit] at unfit

end WakeSol.Codec
