import WakeSol.Codec.Write

/- What the decoder accepts. Every accepted input is the bytes of the value
   returned, provided that no option holds an option without a carrier and that
   no array length is negative. -/
set_option autoImplicit false

namespace WakeSol.Codec

open TextLib RadixLib EndianLib WireLib

def Node.optional : Node → Bool
  | .option _ => true
  | .opt _ => true
  | _ => false

def Node.lossless : Node → Bool
  | .option inner => !inner.optional && inner.lossless
  | .opt inner => inner.lossless
  | .vec elem => elem.lossless
  | .fixedArray elem n => decide (0 ≤ n) && elem.lossless
  | _ => true

def ClassNode.nodes : ClassNode → List Node
  | .struct fields => fields.nodes
  | .intEnum _ => []
  | .borshEnum variants => variants.entries.flatMap fun variant => variant.fields.nodes

def LosslessEnv (env : Env) : Prop :=
  ∀ cls compiled, env.lookup cls = some compiled → ∀ node ∈ compiled.nodes, node.lossless = true

variable (env : Env)

theorem wire_present (levels : Nat) (node : Node) (value : Value) (raw : Bytes)
    (wire : Wire env levels node value raw) (plain : node.optional = false) : value ≠ .none := by
  rintro rfl
  rw [wire_unfold] at wire
  cases node with
  | option inner => simp [Node.optional] at plain
  | opt inner => simp [Node.optional] at plain
  | vec elem =>
    obtain ⟨_, _, _, _, impossible, _⟩ := wire
    exact Value.noConfusion impossible
  | fixedArray elem n =>
    obtain ⟨_, _, _, impossible, _⟩ := wire
    exact Value.noConfusion impossible
  | ref cls =>
    obtain ⟨next, _, wireClass⟩ := wire
    rw [WireClass] at wireClass
    split at wireClass
    · exact wireClass
    · obtain ⟨_, impossible, _⟩ := wireClass
      exact Value.noConfusion impossible
    · obtain ⟨_, _, impossible, _⟩ := wireClass
      exact Value.noConfusion impossible
    · obtain ⟨_, _, _, _, _, impossible, _⟩ := wireClass
      exact Value.noConfusion impossible
  | _ => simp [wireNode] at wire

variable (below : Option NodeWire)

theorem int_splits (width : Nat) (signed : Bool) (path : Path) :
    Splits (readInt width signed path) (wireNode env below (.int width signed)) := by
  refine splits_imp _ _ _ (splits_return _ _ _ (take_splits width path)) ?_
  rintro value raw ⟨taken, rfl, rfl, size⟩
  have width : taken.length = width := by omega
  subst width
  exact ⟨_, rfl, decode_int_range signed taken, (encode_decode_int signed taken).symm⟩

theorem float_splits (width : Nat) (path : Path) :
    Splits (readFloat width path) (wireNode env below (.float width)) := by
  refine splits_imp _ _ _ (splits_bind _ _ _ (fun bits value raw => value = .float bits ∧ isNaN bits = false ∧ raw = [])
    (take_splits width path) fun bits => ?_) ?_
  · cases number : isNaN bits with
    | true => exact refuse_splits _ _ _ _
    | false => exact splits_imp _ _ _ (splits_pure (Value.float bits)) fun value raw held => ⟨held.1, rfl, held.2⟩
  · rintro value raw ⟨bits, front, back, rfl, ⟨rfl, size⟩, rfl, number, rfl⟩
    rw [List.append_nil]
    exact ⟨rfl, by omega, number⟩

variable (path : Path)

theorem bool_splits : Splits (readBool path) (wireNode env below .bool) := by
  refine splits_imp _ _ _ (splits_bind _ _ _ (fun byte value raw => (byte = 0 ∨ byte = 1) ∧ value = .bool (byte = 1) ∧ raw = [])
    (byte_splits path) fun byte => ?_) ?_
  · by_cases valid : byte = 0 ∨ byte = 1
    · rw [if_pos valid]
      exact splits_imp _ _ _ (splits_pure _) fun value raw held => ⟨valid, held.1, held.2⟩
    · rw [if_neg valid]
      exact refuse_splits _ _ _ _
  · rintro value raw ⟨byte, front, back, rfl, rfl, zero | one, rfl, rfl⟩
    · subst zero
      exact ⟨false, rfl, rfl⟩
    · subst one
      exact ⟨true, rfl, rfl⟩

theorem str_splits : Splits (readStr path) (wireNode env below .str) := by
  refine splits_imp _ _ _ (splits_bind _ _ _ (fun n value body => ∃ s, value = .str s ∧ utf8Encode s = body ∧ body.length = n)
    (seq_len_splits 1 path) fun n => ?_) ?_
  · refine splits_imp _ _ _ (splits_bind _ _ _ (fun raw value rest => ∃ s, value = .str s ∧ utf8Encode s = raw ∧ rest = [])
      (take_splits n path) fun raw => ?_) ?_
    · cases decoded : utf8Decode raw with
      | none => exact refuse_splits _ _ _ _
      | some s =>
        exact splits_imp _ _ _ (splits_pure _) fun value rest held => ⟨s, held.1, utf8_encode_decode raw s decoded, held.2⟩
    · rintro value raw ⟨taken, front, back, rfl, ⟨rfl, size⟩, s, rfl, encoded, rfl⟩
      exact ⟨s, rfl, by rw [encoded, List.append_nil], by rw [List.append_nil]; omega⟩
  · rintro value raw ⟨n, front, back, rfl, ⟨small, rfl⟩, s, rfl, rfl, rfl⟩
    exact ⟨s, rfl, small, rfl⟩

theorem bytes_splits : Splits (readBytes path) (wireNode env below .bytes) := by
  refine splits_imp _ _ _ (splits_bind _ _ _ _ (seq_len_splits 1 path)
    fun n => splits_return _ _ _ (take_splits n path)) ?_
  rintro value raw ⟨n, front, back, rfl, ⟨small, rfl⟩, taken, rfl, rfl, size⟩
  have count : taken.length = n := by omega
  subst count
  exact ⟨taken, rfl, small, rfl⟩

theorem fixed_bytes_splits (n : Int) (path : Path) :
    Splits (readFixedBytes n path) (wireNode env below (.fixedBytes n)) := by
  refine splits_imp _ _ _ (splits_return _ _ _ (take_splits n path)) ?_
  rintro value raw ⟨_, rfl, rfl, size⟩
  exact ⟨rfl, size⟩

theorem pubkey_splits : Splits (readPubkey path) (wireNode env below .pubkey) := by
  refine splits_imp _ _ _ (splits_bind _ _ _ (fun raw value rest => ∃ key : Address, value = .pubkey key ∧ key.bytes = raw ∧ rest = [])
    (take_splits 32 path) fun raw => ?_) ?_
  · intro cur value after ran
    rw [pubkeyFrom, addressOf] at ran
    split at ran
    · obtain ⟨rfl, rfl⟩ := Prod.mk.inj (Except.ok.inj ran)
      exact ⟨[], rfl, rfl, _, rfl, rfl, rfl⟩
    · simp [Except.map] at ran
  · rintro value raw ⟨_, front, back, rfl, ⟨rfl, _⟩, key, rfl, rfl, rfl⟩
    exact ⟨key, rfl, by rw [List.append_nil]⟩

theorem option_splits (wrap : Value → Value) (inner : Node) (path : Path) (next : NodeReader) (holds : Value → Bytes → Prop)
    (deeper : Splits (next inner path) holds) : Splits (readOption wrap inner path next) fun value raw =>
      (value = .none ∧ raw = [0]) ∨ ∃ held body, value = wrap held ∧ raw = 1 :: body ∧ holds held body := by
  refine splits_imp _ _ _ (splits_bind _ _ _ (fun tag value rest => (tag = 0 ∧ value = .none ∧ rest = []) ∨
    (tag = 1 ∧ ∃ held, value = wrap held ∧ holds held rest)) (byte_splits path) fun tag => ?_) ?_
  · by_cases absent : tag = 0
    · rw [if_pos absent]
      exact splits_imp _ _ _ (splits_pure _) fun value rest held => .inl ⟨absent, held.1, held.2⟩
    · by_cases present : tag = 1
      · rw [if_neg absent, if_pos present]
        exact splits_imp _ _ _ (splits_return _ _ _ deeper) fun value rest held => .inr ⟨present, held⟩
      · rw [if_neg absent, if_neg present]
        exact refuse_splits _ _ _ _
  · rintro value raw ⟨tag, front, back, rfl, rfl, ⟨rfl, rfl, rfl⟩ | ⟨rfl, held, rfl, holding⟩⟩
    · exact .inl ⟨rfl, rfl⟩
    · exact .inr ⟨held, back, rfl, rfl, holding⟩

theorem vec_splits (minElem : Int) (elem : Node) (path : Path) (next : NodeReader) (holds : NodeWire)
    (each : ∀ path, Splits (next elem path) (holds elem)) :
    Splits (readVec minElem elem path next) (WireVec holds elem) := by
  refine splits_imp _ _ _ (splits_bind _ _ _ _ (seq_len_splits minElem path)
    fun n => items_split next elem n path holds each) ?_
  rintro value raw ⟨n, front, back, rfl, ⟨small, rfl⟩, items, rfl, rfl, wire⟩
  exact ⟨items, back, rfl, small, rfl, wire⟩

theorem class_splits (lossless : LosslessEnv env) (cls : Name) (path : Path) (next : NodeReader) (holds : NodeWire)
    (each : ∀ node path, node.lossless = true → Splits (next node path) (holds node)) :
    Splits (readClass env cls path next) fun value raw => WireClass env cls value raw holds := by
  simp only [readClass, WireClass]
  cases found : env.lookup cls with
  | none =>
    intro cur value after ran
    simp [throw, throwThe, MonadExceptOf.throw, StateT.lift, bind, Except.bind] at ran
  | some compiled =>
    have clean := lossless cls compiled found
    cases compiled with
    | struct fields =>
      refine splits_imp _ _ _ (splits_return _ _ _ (fields_split next fields (fun entry => path ++ [.field entry.1]) holds
        fun entry inside path => each entry.2 path (clean _ (List.mem_map_of_mem inside)))) ?_
      rintro value raw ⟨values, rfl, wire⟩
      exact ⟨values, rfl, wire⟩
    | intEnum members =>
      refine splits_imp _ _ _ (splits_bind _ _ _ (fun tag value rest => tag.toNat ∈ members ∧
        value = .member cls tag.toNat ∧ rest = []) (byte_splits path) fun tag => ?_) ?_
      · by_cases known : tag.toNat ∈ members
        · rw [if_pos known]
          exact splits_imp _ _ _ (splits_pure _) fun value rest held => ⟨known, held.1, held.2⟩
        · rw [if_neg known]
          exact refuse_splits _ _ _ _
      · rintro value raw ⟨tag, front, back, rfl, rfl, known, rfl, rfl⟩
        exact ⟨tag, known, rfl, rfl⟩
    | borshEnum variants =>
      refine splits_imp _ _ _ (splits_bind _ _ _ (fun tag value rest => ∃ variant values,
        variants.find tag.toNat = some variant ∧
          value = .object (.variant cls tag.toNat variant.name) variant.fields.names values ∧
          WireFields holds variant.fields values rest) (byte_splits path) fun tag => ?_) ?_
      · cases known : variants.find tag.toNat with
        | none => exact refuse_splits _ _ _ _
        | some variant =>
          have inside : variant ∈ variants.entries := List.mem_of_find?_eq_some known
          refine splits_imp _ _ _ (splits_return _ _ _ (fields_split next variant.fields
            (fun _ => path ++ [.field variant.name]) holds fun entry member path => each entry.2 path
              (clean _ (List.mem_flatMap.mpr ⟨variant, inside, List.mem_map_of_mem member⟩)))) ?_
          rintro value raw ⟨values, rfl, wire⟩
          exact ⟨variant, values, rfl, rfl, wire⟩
      · rintro value raw ⟨tag, front, back, rfl, rfl, variant, values, known, rfl, wire⟩
        exact ⟨variant, tag, values, back, known, rfl, rfl, wire⟩

theorem read_wire (lossless : LosslessEnv env) (room : Nat) (node : Node) (path : Path)
    (clean : node.lossless = true) : Splits (read env room node path) (Wire env room node) := by
  induction room using Nat.strong_induction_on generalizing node path with
  | _ room ih =>
    rw [read_unfold, wire_unfold]
    cases node with
    | int width signed => exact int_splits env _ width signed path
    | float width => exact float_splits env _ width path
    | bool => exact bool_splits env _ path
    | str => exact str_splits env _ path
    | bytes => exact bytes_splits env _ path
    | fixedBytes n => exact fixed_bytes_splits env _ n path
    | pubkey => exact pubkey_splits env _ path
    | option inner =>
      cases room with
      | zero => exact refuse_splits _ _ _ _
      | succ below =>
        simp only [Node.lossless, Bool.and_eq_true, Bool.not_eq_true'] at clean
        refine splits_imp _ _ _ (option_splits id inner path _ _ (ih below (Nat.lt_succ_self below) inner path clean.2)) ?_
        rintro value raw (absent | ⟨held, body, same, rfl, wire⟩)
        · exact ⟨_, rfl, .inl absent⟩
        · rw [same]
          exact ⟨_, rfl, .inr ⟨wire_present env below inner held body wire clean.1, body, rfl, wire⟩⟩
    | opt inner =>
      cases room with
      | zero => exact refuse_splits _ _ _ _
      | succ below =>
        exact splits_imp _ _ _ (option_splits .opt inner path _ _ (ih below (Nat.lt_succ_self below) inner path clean))
          fun value raw held => ⟨_, rfl, held⟩
    | vec elem =>
      cases room with
      | zero => exact refuse_splits _ _ _ _
      | succ below =>
        exact splits_imp _ _ _ (vec_splits _ elem path _ _ fun path => ih below (Nat.lt_succ_self below) elem path clean)
          fun value raw held => ⟨_, rfl, held⟩
    | fixedArray elem n =>
      cases room with
      | zero => exact refuse_splits _ _ _ _
      | succ below =>
        simp only [Node.lossless, Bool.and_eq_true, decide_eq_true_eq] at clean
        refine splits_imp _ _ _ (items_split _ elem n.toNat path _ fun path =>
          ih below (Nat.lt_succ_self below) elem path clean.2) ?_
        rintro value raw ⟨items, rfl, count, wire⟩
        exact ⟨_, rfl, items, rfl, by omega, wire⟩
    | ref cls =>
      cases room with
      | zero => exact refuse_splits _ _ _ _
      | succ below =>
        exact splits_imp _ _ _ (class_splits env lossless cls path _ _ fun node path clean =>
          ih below (Nat.lt_succ_self below) node path clean) fun value raw held => ⟨_, rfl, held⟩

theorem decode_wire (lossless : LosslessEnv env) (node : Node) (clean : node.lossless = true) (raw : Bytes)
    (value : Value) (decoded : decode env raw node .ixData = .ok value) : Wire env maxDecodeDepth node value raw := by
  rw [decode] at decoded
  cases ran : read env maxDecodeDepth node [] ⟨0, raw⟩ with
  | error e => simp [ran] at decoded
  | ok pair =>
    obtain ⟨result, cur⟩ := pair
    obtain ⟨bytes, rest, pos, wire⟩ := read_wire env lossless maxDecodeDepth node [] clean _ result cur ran
    simp only [ran] at decoded
    split_ifs at decoded with trailing
    cases decoded
    have whole : cur.pos = raw.length := by
      by_contra different
      exact trailing ⟨trivial, different⟩
    simp only at rest pos
    have sizes := congrArg List.length rest
    rw [List.length_append] at sizes
    have ended : cur.rest = [] := List.length_eq_zero_iff.mp (by omega)
    rw [ended, List.append_nil] at rest
    rwa [rest]

end WakeSol.Codec
