import WakeSol.Codec.Node

/- The bytes of a value. Wire relates a value of a node to its bytes, Typed says
   which values a node has; both stop after the given number of composite
   levels. -/
set_option autoImplicit false

namespace WakeSol.Codec

open TextLib RadixLib EndianLib WireLib

abbrev NodeWire := Node → Value → Bytes → Prop

def Within {α : Type} (below : Option α) (holds : α → Prop) : Prop := ∃ next, below = some next ∧ holds next

def WireItems (next : NodeWire) (elem : Node) (items : List Value) (raw : Bytes) : Prop :=
  ∃ parts : List (Value × Bytes), items = parts.map Prod.fst ∧ raw = (parts.map Prod.snd).flatten ∧
    ∀ part ∈ parts, next elem part.1 part.2

def WireFields (next : NodeWire) (fields : Fields) (values : List Value) (raw : Bytes) : Prop :=
  ∃ parts : List (Value × Bytes), values = parts.map Prod.fst ∧ raw = (parts.map Prod.snd).flatten ∧
    List.Forall₂ (fun entry part => next entry.2 part.1 part.2) fields.entries parts

def WireOption (next : NodeWire) (inner : Node) (value : Value) (raw : Bytes) : Prop :=
  (value = .none ∧ raw = [0]) ∨ (value ≠ .none ∧ ∃ body, raw = 1 :: body ∧ next inner value body)

def WireOpt (next : NodeWire) (inner : Node) (value : Value) (raw : Bytes) : Prop :=
  (value = .none ∧ raw = [0]) ∨ ∃ held body, value = .opt held ∧ raw = 1 :: body ∧ next inner held body

def WireVec (next : NodeWire) (elem : Node) (value : Value) (raw : Bytes) : Prop :=
  ∃ items body, value = .list items ∧ items.length < 256 ^ 4 ∧ raw = leBytes 4 items.length ++ body ∧
    WireItems next elem items body

def WireClass (env : Env) (cls : Name) (value : Value) (raw : Bytes) (next : NodeWire) : Prop :=
  match env.lookup cls with
  | none => False
  | some (.struct fields) => ∃ values, value = .object (.plain cls) fields.names values ∧ WireFields next fields values raw
  | some (.intEnum members) => ∃ tag : UInt8, tag.toNat ∈ members ∧ value = .member cls tag.toNat ∧ raw = [tag]
  | some (.borshEnum variants) => ∃ (variant : Variant) (tag : UInt8) (values : List Value) (body : Bytes),
      variants.find tag.toNat = some variant ∧
        value = .object (.variant cls tag.toNat variant.name) variant.fields.names values ∧
        raw = tag :: body ∧ WireFields next variant.fields values body

def wireNode (env : Env) (below : Option NodeWire) : NodeWire
  | .int width signed, value, raw => ∃ n, value = .int n ∧ InRange width signed n ∧ raw = leBytes width (unsignedOf width n)
  | .float width, value, raw => value = .float raw ∧ raw.length = width ∧ isNaN raw = false
  | .bool, value, raw => ∃ b : Bool, value = .bool b ∧ raw = [if b then 1 else 0]
  | .str, value, raw => ∃ s, value = .str s ∧ (utf8Encode s).length < 256 ^ 4 ∧
      raw = leBytes 4 (utf8Encode s).length ++ utf8Encode s
  | .bytes, value, raw => ∃ body : Bytes, value = .bytes body ∧ body.length < 256 ^ 4 ∧ raw = leBytes 4 body.length ++ body
  | .fixedBytes n, value, raw => value = .bytes raw ∧ raw.length = n
  | .pubkey, value, raw => ∃ key, value = .pubkey key ∧ raw = key.bytes
  | .option inner, value, raw => Within below fun next => WireOption next inner value raw
  | .opt inner, value, raw => Within below fun next => WireOpt next inner value raw
  | .vec elem, value, raw => Within below fun next => WireVec next elem value raw
  | .fixedArray elem n, value, raw => Within below fun next =>
    ∃ items, value = .list items ∧ items.length = n ∧ WireItems next elem items raw
  | .ref cls, value, raw => Within below (WireClass env cls value raw)

def Wire (env : Env) : (levels : Nat) → NodeWire
  | 0 => wireNode env none
  | levels + 1 => wireNode env (some (Wire env levels))

abbrev NodeTyping := Node → Value → Prop

def TypedFields (next : NodeTyping) (fields : Fields) (values : List Value) : Prop :=
  List.Forall₂ (fun entry value => next entry.2 value) fields.entries values

def TypedClass (env : Env) (cls : Name) (value : Value) (next : NodeTyping) : Prop :=
  match env.lookup cls with
  | none => False
  | some (.struct fields) => ∃ values, value = .object (.plain cls) fields.names values ∧ TypedFields next fields values
  | some (.intEnum members) => ∃ n ∈ members, value = .member cls n
  | some (.borshEnum variants) => ∃ variant ∈ variants.entries, ∃ values,
      value = .object (.variant cls variant.tag variant.name) variant.fields.names values ∧
        TypedFields next variant.fields values

def typedNode (env : Env) (below : Option NodeTyping) : NodeTyping
  | .int width signed, value => ∃ n, value = .int n ∧ InRange width signed n
  | .float width, value => ∃ bits, value = .float bits ∧ bits.length = width ∧ isNaN bits = false
  | .bool, value => ∃ b, value = .bool b
  | .str, value => ∃ s, value = .str s ∧ (utf8Encode s).length < 256 ^ 4
  | .bytes, value => ∃ raw : Bytes, value = .bytes raw ∧ raw.length < 256 ^ 4
  | .fixedBytes n, value => ∃ raw : Bytes, value = .bytes raw ∧ raw.length = n
  | .pubkey, value => ∃ key, value = .pubkey key
  | .option inner, value => Within below fun next => value = .none ∨ (value ≠ .none ∧ next inner value)
  | .opt inner, value => Within below fun next => value = .none ∨ ∃ held, value = .opt held ∧ next inner held
  | .vec elem, value => Within below fun next => ∃ items, value = .list items ∧ items.length < 256 ^ 4 ∧
      (items = [] ∨ 0 < minWireSize env elem) ∧ ∀ item ∈ items, next elem item
  | .fixedArray elem n, value => Within below fun next =>
    ∃ items : List Value, value = .list items ∧ items.length = n ∧ ∀ item ∈ items, next elem item
  | .ref cls, value => Within below (TypedClass env cls value)

def Typed (env : Env) : (levels : Nat) → NodeTyping
  | 0 => typedNode env none
  | levels + 1 => typedNode env (some (Typed env levels))

def Bounded (least : Node → List Node → Int) (next : NodeWire) : Prop :=
  ∀ node stack value raw, next node value raw → least node stack ≤ raw.length

theorem min_items (elem : Node) (least : Int) (next : NodeWire)
    (bounded : ∀ value raw, next elem value raw → least ≤ raw.length) (items : List Value) (raw : Bytes)
    (wire : WireItems next elem items raw) : items.length * least ≤ raw.length := by
  obtain ⟨parts, rfl, rfl, each⟩ := wire
  induction parts with
  | nil => simp
  | cons part rest ih =>
    have first := bounded part.1 part.2 (each part (by simp))
    have later := ih fun other inside => each other (by simp [inside])
    simp only [List.length_map] at later
    simp only [List.map_cons, List.length_cons, List.flatten_cons, List.length_append, List.length_map]
    push_cast
    linarith

theorem min_fields (least : Node → List Node → Int) (next : NodeWire) (bounded : Bounded least next)
    (fields : Fields) (stack : List Node) (values : List Value) (raw : Bytes)
    (wire : WireFields next fields values raw) : minFields least fields stack ≤ raw.length := by
  obtain ⟨parts, rfl, rfl, each⟩ := wire
  rw [minFields, Fields.nodes]
  generalize fields.entries = entries at each ⊢
  induction each with
  | nil => simp
  | cons first _ ih =>
    have here := bounded _ stack _ _ first
    simp only [List.map_cons, List.sum_cons, List.flatten_cons, List.length_append]
    push_cast
    linarith

theorem min_struct (env : Env) (least : Node → List Node → Int) (stack : List Node) (cls : Name) (fields : Fields) (size : Nat)
    (found : env.lookup cls = some (.struct fields)) (bound : ∀ stack, minFields least fields stack ≤ size) :
    minClass env least stack cls ≤ size := by
  rw [minClass, found]
  simp only
  split
  · omega
  · exact bound _

theorem min_variant (env : Env) (least : Node → List Node → Int) (stack : List Node) (cls : Name) (variants : Variants)
    (variant : Variant) (size : Nat) (found : env.lookup cls = some (.borshEnum variants)) (inside : variant ∈ variants.entries)
    (bound : ∀ stack, minFields least variant.fields stack ≤ size) : minClass env least stack cls ≤ size + 1 := by
  rw [minClass, found]
  simp only
  split
  · omega
  · split
    · omega
    · rename_i smallest isMin
      have below := (List.min?_eq_some_iff.mp isMin).2 _ (List.mem_map.mpr ⟨variant, inside, rfl⟩)
      have here := bound (stack ++ [.ref cls])
      omega

theorem min_class (env : Env) (least : Node → List Node → Int) (next : NodeWire) (bounded : Bounded least next)
    (stack : List Node) (cls : Name) (value : Value) (raw : Bytes) (wire : WireClass env cls value raw next) :
    minClass env least stack cls ≤ raw.length := by
  rw [WireClass] at wire
  cases found : env.lookup cls with
  | none => simp [found] at wire
  | some compiled =>
    rw [found] at wire
    cases compiled with
    | intEnum members =>
      obtain ⟨tag, _, _, rfl⟩ := wire
      simp [minClass, found]
    | struct fields =>
      obtain ⟨values, _, fieldsWire⟩ := wire
      exact min_struct env least stack cls fields _ found fun stack =>
        min_fields least next bounded fields stack values raw fieldsWire
    | borshEnum variants =>
      obtain ⟨variant, tag, values, body, known, _, rfl, fieldsWire⟩ := wire
      have inside : variant ∈ variants.entries := List.mem_of_find?_eq_some known
      exact min_variant env least stack cls variants variant body.length found inside fun stack =>
        min_fields least next bounded variant.fields stack values body fieldsWire

theorem min_node (env : Env) (below : Option NodeWire)
    (deeper : ∀ next, below = some next → ∀ fuel, Bounded (minWire env fuel) next) (fuel : Nat) :
    Bounded (minWire env fuel) (wireNode env below) := by
  intro node stack value raw wire
  obtain ⟨minRef, isNode, refs⟩ : ∃ minRef, minWire env fuel = minNode minRef ∧ ∀ stack cls,
      Within below (WireClass env cls value raw) → minRef stack cls ≤ raw.length := by
    cases fuel with
    | zero => exact ⟨fun _ _ => 0, rfl, fun _ _ _ => by simp⟩
    | succ fuel =>
      refine ⟨minClass env (minWire env fuel), rfl, fun stack cls inside => ?_⟩
      obtain ⟨next, isNext, wireClass⟩ := inside
      exact min_class env _ next (deeper next isNext fuel) stack cls value raw wireClass
  cases node with
  | int width signed =>
    obtain ⟨n, _, _, rfl⟩ := wire
    simp [isNode, minNode, le_bytes_length]
  | float width =>
    obtain ⟨_, rfl, _⟩ := wire
    simp [isNode, minNode]
  | bool =>
    obtain ⟨b, _, rfl⟩ := wire
    simp [isNode, minNode]
  | str =>
    obtain ⟨s, _, _, rfl⟩ := wire
    simp [isNode, minNode, le_bytes_length]
  | bytes =>
    obtain ⟨body, _, _, rfl⟩ := wire
    simp [isNode, minNode, le_bytes_length]
  | fixedBytes n =>
    obtain ⟨_, rfl⟩ := wire
    simp [isNode, minNode]
  | pubkey =>
    obtain ⟨key, _, rfl⟩ := wire
    simp [isNode, minNode, key.size]
  | option inner =>
    obtain ⟨next, _, ⟨_, rfl⟩ | ⟨_, body, rfl, _⟩⟩ := wire <;> simp [isNode, minNode]
  | opt inner =>
    obtain ⟨next, _, ⟨_, rfl⟩ | ⟨_, body, _, rfl, _⟩⟩ := wire <;> simp [isNode, minNode]
  | vec elem =>
    obtain ⟨next, _, items, body, _, _, rfl, _⟩ := wire
    simp [isNode, minNode, le_bytes_length]
  | fixedArray elem n =>
    obtain ⟨next, isNext, items, _, count, wireItems⟩ := wire
    rw [isNode, minNode]
    by_cases again : Node.fixedArray elem n ∈ stack
    · simp [again]
    · rw [if_neg again, ← count, ← isNode]
      exact min_items elem _ next (fun v r => deeper next isNext fuel elem _ v r) items raw wireItems
  | ref cls =>
    rw [isNode, minNode]
    exact refs stack cls wire

theorem wire_min (env : Env) (levels fuel : Nat) : Bounded (minWire env fuel) (Wire env levels) := by
  induction levels generalizing fuel with
  | zero => exact min_node env none (by simp) fuel
  | succ levels ih =>
    refine min_node env (some (Wire env levels)) (fun next isNext => ?_) fuel
    rw [← Option.some.inj isNext]
    exact ih

end WakeSol.Codec
