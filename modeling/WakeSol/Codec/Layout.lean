import WakeSol.Lib.Layout
import WakeSol.Codec.Accept

/- The layout a compiled node has. Its bytes are the bytes of the node, and a value
   has the shape that is laid out. -/
set_option autoImplicit false

namespace WakeSol.Codec

open TextLib RadixLib EndianLib WireLib LayoutLib

abbrev u8Layout : Layout Name := .int 1 false

def Node.layout : Node → Layout Name
  | .int width signed => .int width signed
  | .float width => .float width
  | .bool => .bool
  | .str => .string
  | .bytes => .vec u8Layout
  | .fixedBytes n => .array u8Layout n
  | .pubkey => .array u8Layout 32
  | .option inner => .option inner.layout
  | .opt inner => .option inner.layout
  | .vec elem => .vec elem.layout
  | .fixedArray elem n => .array elem.layout n
  | .ref cls => .named cls

def Fields.layouts (fields : Fields) : List (Layout Name) := fields.nodes.map Node.layout

def ClassNode.body : ClassNode → Body Name
  | .struct fields => .product fields.layouts
  | .intEnum members => .sum (members.map fun member => (member, []))
  | .borshEnum variants => .sum (variants.entries.map fun variant => (variant.tag, variant.fields.layouts))

def nodeGraph (env : Env) : Graph Name := fun cls => (env.lookup cls).map ClassNode.body

def byteShape (byte : UInt8) : Shape := .int byte.toNat

structure Drawn where
  node : Node
  value : Value
  shape : Shape

inductive Shaped (env : Env) : Node → Value → Shape → Prop where
  | int (width : Nat) (signed : Bool) (n : Int) : Shaped env (.int width signed) (.int n) (.int n)
  | float (width : Nat) (bits : Bytes) : Shaped env (.float width) (.float bits) (.float bits)
  | bool (b : Bool) : Shaped env .bool (.bool b) (.bool b)
  | str (s : String) : Shaped env .str (.str s) (.string s)
  | bytes (raw : Bytes) : Shaped env .bytes (.bytes raw) (.seq (raw.map byteShape))
  | fixedBytes (n : Int) (raw : Bytes) : Shaped env (.fixedBytes n) (.bytes raw) (.seq (raw.map byteShape))
  | pubkey (key : Address) : Shaped env .pubkey (.pubkey key) (.seq (key.bytes.map byteShape))
  | optionNone (inner : Node) : Shaped env (.option inner) .none .none
  | optionSome (inner : Node) (value : Value) (shape : Shape) (present : value ≠ .none) (held : Shaped env inner value shape) :
      Shaped env (.option inner) value (.some shape)
  | optNone (inner : Node) : Shaped env (.opt inner) .none .none
  | optSome (inner : Node) (value : Value) (shape : Shape) (held : Shaped env inner value shape) :
      Shaped env (.opt inner) (.opt value) (.some shape)
  | vec (elem : Node) (drawn : List Drawn) (elems : ∀ item ∈ drawn, item.node = elem)
      (each : ∀ item ∈ drawn, Shaped env item.node item.value item.shape) :
      Shaped env (.vec elem) (.list (drawn.map Drawn.value)) (.seq (drawn.map Drawn.shape))
  | fixedArray (elem : Node) (n : Int) (drawn : List Drawn) (elems : ∀ item ∈ drawn, item.node = elem)
      (each : ∀ item ∈ drawn, Shaped env item.node item.value item.shape) :
      Shaped env (.fixedArray elem n) (.list (drawn.map Drawn.value)) (.seq (drawn.map Drawn.shape))
  | struct (cls : Name) (fields : Fields) (drawn : List Drawn) (cached : env.lookup cls = some (.struct fields))
      (nodes : fields.nodes = drawn.map Drawn.node) (each : ∀ item ∈ drawn, Shaped env item.node item.value item.shape) :
      Shaped env (.ref cls) (.object (.plain cls) fields.names (drawn.map Drawn.value)) (.tuple (drawn.map Drawn.shape))
  | member (cls : Name) (members : List Nat) (n : Nat) (cached : env.lookup cls = some (.intEnum members)) :
      Shaped env (.ref cls) (.member cls n) (.variant n [])
  | variant (cls : Name) (variants : Variants) (variant : Variant) (drawn : List Drawn)
      (cached : env.lookup cls = some (.borshEnum variants)) (chosen : variants.find variant.tag = some variant)
      (nodes : variant.fields.nodes = drawn.map Drawn.node)
      (each : ∀ item ∈ drawn, Shaped env item.node item.value item.shape) :
      Shaped env (.ref cls) (.object (.variant cls variant.tag variant.name) variant.fields.names (drawn.map Drawn.value))
        (.variant variant.tag (drawn.map Drawn.shape))

section Bytes

variable (graph : Graph Name)

theorem byte_number (byte : UInt8) : decodeInt false [byte] = byte.toNat := by
  simp [decodeInt, leNat]

theorem byte_encodes (byte : UInt8) : Encodes graph u8Layout (byteShape byte) [byte] := by
  have range := decode_int_range false [byte]
  have bytes := encode_decode_int false [byte]
  rw [byte_number] at range bytes
  have encodes : Encodes graph u8Layout (byteShape byte) (leBytes 1 (unsignedOf 1 byte.toNat)) := .int 1 false byte.toNat range
  have single : leBytes 1 (unsignedOf 1 byte.toNat) = [byte] := bytes
  rwa [single] at encodes

theorem byte_decodes (shape : Shape) (raw : Bytes) (encodes : Encodes graph u8Layout shape raw) :
    ∃ byte, shape = byteShape byte ∧ raw = [byte] := by
  cases encodes with
  | int _ _ n range =>
    have number := decode_encode_int 1 false n range
    obtain ⟨byte, same⟩ := List.length_eq_one_iff.mp (le_bytes_length 1 (unsignedOf 1 n))
    rw [same, byte_number] at number
    exact ⟨byte, by rw [byteShape, number], same⟩

def byteParts (raw : Bytes) : List (Piece Name) := raw.map fun byte => ⟨u8Layout, byteShape byte, [byte]⟩

theorem bytes_laid (raw : Bytes) :
    Laid (byteParts raw) (List.replicate (raw.map byteShape).length u8Layout) (raw.map byteShape) raw := by
  induction raw with
  | nil => exact ⟨rfl, rfl, rfl⟩
  | cons byte rest ih =>
    obtain ⟨layouts, shapes, bytes⟩ := ih
    constructor
    · rw [List.map_cons, List.length_cons, List.replicate_succ, layouts]
      rfl
    · rw [List.map_cons, shapes]
      rfl
    · change byte :: rest = byte :: ((byteParts rest).map Piece.raw).flatten
      rw [← bytes]

theorem bytes_encode (raw : Bytes) : ∀ part ∈ byteParts raw, Encodes graph part.layout part.shape part.raw := by
  intro part inside
  obtain ⟨byte, _, rfl⟩ := List.mem_map.mp inside
  exact byte_encodes graph byte

theorem bytes_decode (parts : List (Piece Name)) (items : List Shape) (raw : Bytes)
    (laid : Laid parts (List.replicate items.length u8Layout) items raw)
    (each : ∀ part ∈ parts, Encodes graph part.layout part.shape part.raw) : items = raw.map byteShape := by
  have bytes : ∀ part ∈ parts, ∃ byte, part.shape = byteShape byte ∧ part.raw = [byte] := by
    intro part inside
    have encodes := each part inside
    rw [item_layout parts u8Layout items raw laid part inside] at encodes
    exact byte_decodes graph part.shape part.raw encodes
  rw [laid.shapes, laid.raw]
  clear laid each
  induction parts with
  | nil => rfl
  | cons part rest ih =>
    obtain ⟨byte, shape, single⟩ := bytes part (by simp)
    have later := ih fun other inside => bytes other (by simp [inside])
    rw [List.map_cons, List.map_cons, List.flatten_cons, List.map_append, shape, single, later]
    rfl

end Bytes

structure Row extends Drawn where
  raw : Bytes

section Mono

variable (narrow wide : NodeWire) (implies : ∀ node value raw, narrow node value raw → wide node value raw)

include implies

theorem wire_items_mono (elem : Node) (items : List Value) (raw : Bytes) (wire : WireItems narrow elem items raw) :
    WireItems wide elem items raw := by
  obtain ⟨parts, isItems, isRaw, each⟩ := wire
  exact ⟨parts, isItems, isRaw, fun part inside => implies elem part.1 part.2 (each part inside)⟩

theorem wire_fields_mono (fields : Fields) (values : List Value) (raw : Bytes) (wire : WireFields narrow fields values raw) :
    WireFields wide fields values raw := by
  obtain ⟨parts, isValues, isRaw, each⟩ := wire
  exact ⟨parts, isValues, isRaw, each.imp fun entry part held => implies entry.2 part.1 part.2 held⟩

variable (env : Env)

theorem wire_class_mono (cls : Name) (value : Value) (raw : Bytes) (wire : WireClass env cls value raw narrow) :
    WireClass env cls value raw wide := by
  rw [WireClass] at wire ⊢
  split at wire
  · exact wire
  · obtain ⟨values, isValue, fieldsWire⟩ := wire
    exact ⟨values, isValue, wire_fields_mono narrow wide implies _ values raw fieldsWire⟩
  · exact wire
  · obtain ⟨variant, tag, values, body, found, isValue, isRaw, fieldsWire⟩ := wire
    exact ⟨variant, tag, values, body, found, isValue, isRaw, wire_fields_mono narrow wide implies _ values body fieldsWire⟩

theorem wire_node_mono (node : Node) (value : Value) (raw : Bytes) (wire : wireNode env (some narrow) node value raw) :
    wireNode env (some wide) node value raw := by
  cases node with
  | option inner =>
    obtain ⟨next, isNext, absent | ⟨present, body, isRaw, held⟩⟩ := wire
    · exact ⟨wide, rfl, .inl absent⟩
    · cases isNext
      exact ⟨wide, rfl, .inr ⟨present, body, isRaw, implies inner value body held⟩⟩
  | opt inner =>
    obtain ⟨next, isNext, absent | ⟨held, body, isValue, isRaw, wireHeld⟩⟩ := wire
    · exact ⟨wide, rfl, .inl absent⟩
    · cases isNext
      exact ⟨wide, rfl, .inr ⟨held, body, isValue, isRaw, implies inner held body wireHeld⟩⟩
  | vec elem =>
    obtain ⟨next, isNext, items, body, isValue, short, isRaw, each⟩ := wire
    cases isNext
    exact ⟨wide, rfl, items, body, isValue, short, isRaw, wire_items_mono narrow wide implies elem items body each⟩
  | fixedArray elem n =>
    obtain ⟨next, isNext, items, isValue, size, each⟩ := wire
    cases isNext
    exact ⟨wide, rfl, items, isValue, size, wire_items_mono narrow wide implies elem items raw each⟩
  | ref cls =>
    obtain ⟨next, isNext, held⟩ := wire
    cases isNext
    exact ⟨wide, rfl, wire_class_mono narrow wide implies env cls value raw held⟩
  | _ => exact wire

end Mono

variable (env : Env)

theorem wire_step (levels : Nat) : ∀ node value raw, Wire env levels node value raw → Wire env (levels + 1) node value raw := by
  induction levels with
  | zero =>
    intro node value raw wire
    cases node with
    | option inner => obtain ⟨next, isNext, _⟩ := wire; cases isNext
    | opt inner => obtain ⟨next, isNext, _⟩ := wire; cases isNext
    | vec elem => obtain ⟨next, isNext, _⟩ := wire; cases isNext
    | fixedArray elem n => obtain ⟨next, isNext, _⟩ := wire; cases isNext
    | ref cls => obtain ⟨next, isNext, _⟩ := wire; cases isNext
    | _ => exact wire
  | succ levels ih =>
    intro node value raw wire
    exact wire_node_mono (Wire env levels) (Wire env (levels + 1)) ih env node value raw wire

theorem wire_mono (levels more : Nat) (enough : levels ≤ more) (node : Node) (value : Value) (raw : Bytes)
    (wire : Wire env levels node value raw) : Wire env more node value raw := by
  induction enough with
  | refl => exact wire
  | step _ ih => exact wire_step env _ node value raw ih

def Row.part (row : Row) : Piece Name := ⟨row.node.layout, row.shape, row.raw⟩

variable (wire : NodeWire)

theorem rows_of_wires (shaped : ∀ node value raw, wire node value raw →
      ∃ shape, Shaped env node value shape ∧ Encodes (nodeGraph env) node.layout shape raw)
    (nodes : List Node) (parts : List (Value × Bytes)) (each : List.Forall₂ (fun node part => wire node part.1 part.2) nodes parts) :
    ∃ rows : List Row, nodes = (rows.map Row.toDrawn).map Drawn.node ∧
      parts.map Prod.fst = (rows.map Row.toDrawn).map Drawn.value ∧ parts.map Prod.snd = rows.map Row.raw ∧
      ∀ row ∈ rows, Shaped env row.node row.value row.shape ∧ Encodes (nodeGraph env) row.node.layout row.shape row.raw := by
  induction each with
  | nil => exact ⟨[], rfl, rfl, rfl, by simp⟩
  | @cons node part nodes parts first _ ih =>
    obtain ⟨rows, isNodes, isValues, isRaws, all⟩ := ih
    obtain ⟨shape, isShaped, encodes⟩ := shaped node part.1 part.2 first
    refine ⟨⟨⟨node, part.1, shape⟩, part.2⟩ :: rows, ?_, ?_, ?_, ?_⟩
    · rw [List.map_cons, List.map_cons, ← isNodes]
    · rw [List.map_cons, List.map_cons, List.map_cons, ← isValues]
    · rw [List.map_cons, List.map_cons, ← isRaws]
    · intro row inside
      rcases List.mem_cons.mp inside with rfl | later
      · exact ⟨isShaped, encodes⟩
      · exact all row later

variable (rows : List Row)

theorem rows_laid : Laid (rows.map Row.part) (((rows.map Row.toDrawn).map Drawn.node).map Node.layout)
    ((rows.map Row.toDrawn).map Drawn.shape) (rows.map Row.raw).flatten := by
  constructor
  · rw [List.map_map, List.map_map, List.map_map]
    rfl
  · rw [List.map_map, List.map_map]
    rfl
  · rw [List.map_map]
    rfl

theorem rows_encode (all : ∀ row ∈ rows, Shaped env row.node row.value row.shape ∧ Encodes (nodeGraph env) row.node.layout row.shape row.raw) :
    (∀ part ∈ rows.map Row.part, Encodes (nodeGraph env) part.layout part.shape part.raw) ∧
    ∀ item ∈ rows.map Row.toDrawn, Shaped env item.node item.value item.shape := by
  constructor
  · intro part inside
    obtain ⟨row, member, rfl⟩ := List.mem_map.mp inside
    exact (all row member).2
  · intro item inside
    obtain ⟨row, member, rfl⟩ := List.mem_map.mp inside
    exact (all row member).1

theorem items_along (elem : Node) (items : List Value) (raw : Bytes) (held : WireItems wire elem items raw) :
    ∃ parts : List (Value × Bytes), items = parts.map Prod.fst ∧ raw = (parts.map Prod.snd).flatten ∧
      List.Forall₂ (fun node part => wire node part.1 part.2) (List.replicate items.length elem) parts := by
  obtain ⟨parts, rfl, rfl, each⟩ := held
  refine ⟨parts, rfl, rfl, ?_⟩
  rw [List.length_map]
  induction parts with
  | nil => exact .nil
  | cons part rest ih => exact .cons (each part (by simp)) (ih fun other inside => each other (by simp [inside]))

theorem fields_along (fields : Fields) (values : List Value) (raw : Bytes) (held : WireFields wire fields values raw) :
    ∃ parts : List (Value × Bytes), values = parts.map Prod.fst ∧ raw = (parts.map Prod.snd).flatten ∧
      List.Forall₂ (fun node part => wire node part.1 part.2) fields.nodes parts := by
  obtain ⟨parts, isValues, isRaw, each⟩ := held
  exact ⟨parts, isValues, isRaw, List.forall₂_map_left_iff.mpr each⟩

theorem find_lookup (variants : Variants) (tag : Nat) (variant : Variant) (found : variants.find tag = some variant) :
    (variants.entries.map fun variant => (variant.tag, variant.fields.layouts)).lookup tag = some variant.fields.layouts := by
  have inside := List.mem_of_find?_eq_some found
  have isTag : variant.tag = tag := by simpa using List.find?_some found
  refine DictLib.lookup_of_mem _ ?_ _ _ (List.mem_map.mpr ⟨variant, inside, by rw [isTag]⟩)
  rw [List.map_map]
  exact variants.distinct

theorem member_lookup (members : List Nat) (n : Nat) (inside : n ∈ members) :
    (members.map fun member => (member, ([] : List (Layout Name)))).lookup n = some [] := by
  induction members with
  | nil => simp at inside
  | cons first rest ih =>
    rw [List.map_cons, List.lookup_cons]
    by_cases same : n = first
    · subst same
      simp only [BEq.rfl]
    · have other : (n == first) = false := beq_eq_false_iff_ne.mpr same
      simp only [other]
      exact ih ((List.mem_cons.mp inside).resolve_left same)

theorem rows_items (elem : Node) (n : Nat) (rows : List Row) 
    (isNodes : List.replicate n elem = (rows.map Row.toDrawn).map Drawn.node) :
    (∀ item ∈ rows.map Row.toDrawn, item.node = elem) ∧ ((rows.map Row.toDrawn).map Drawn.shape).length = n ∧
    Laid (rows.map Row.part) (List.replicate ((rows.map Row.toDrawn).map Drawn.shape).length elem.layout)
      ((rows.map Row.toDrawn).map Drawn.shape) (rows.map Row.raw).flatten := by
  have size : ((rows.map Row.toDrawn).map Drawn.shape).length = n := by
    have nodes := congrArg List.length isNodes
    simp only [List.length_replicate, List.length_map] at nodes ⊢
    exact nodes.symm
  have laid := rows_laid rows
  rw [← isNodes, List.map_replicate] at laid
  refine ⟨fun item inside => ?_, size, by rwa [size]⟩
  have isNode : item.node ∈ List.replicate n elem := by
    rw [isNodes]
    exact List.mem_map_of_mem inside
  exact List.eq_of_mem_replicate isNode

theorem fields_encode (shaped : ∀ node value raw, wire node value raw →
      ∃ shape, Shaped env node value shape ∧ Encodes (nodeGraph env) node.layout shape raw)
    (fields : Fields) (values : List Value) (raw : Bytes) (held : WireFields wire fields values raw) :
    ∃ (drawn : List Drawn) (parts : List (Piece Name)), values = drawn.map Drawn.value ∧ fields.nodes = drawn.map Drawn.node ∧
      (∀ item ∈ drawn, Shaped env item.node item.value item.shape) ∧
      Laid parts fields.layouts (drawn.map Drawn.shape) raw ∧
      ∀ part ∈ parts, Encodes (nodeGraph env) part.layout part.shape part.raw := by
  obtain ⟨along, rfl, rfl, each⟩ := fields_along wire fields values raw held
  obtain ⟨rows, isNodes, isValues, isRaws, all⟩ := rows_of_wires env wire shaped _ along each
  obtain ⟨encodeAll, shapeAll⟩ := rows_encode env rows all
  have laid := rows_laid rows
  rw [← isNodes, ← isRaws] at laid
  exact ⟨rows.map Row.toDrawn, rows.map Row.part, isValues, isNodes, shapeAll, laid, encodeAll⟩

theorem class_encodes (shaped : ∀ node value raw, wire node value raw →
      ∃ shape, Shaped env node value shape ∧ Encodes (nodeGraph env) node.layout shape raw)
    (cls : Name) (value : Value) (raw : Bytes) (held : WireClass env cls value raw wire) :
    ∃ shape, Shaped env (.ref cls) value shape ∧ Encodes (nodeGraph env) (.named cls) shape raw := by
  rw [WireClass] at held
  cases cached : env.lookup cls with
  | none =>
    rw [cached] at held
    exact held.elim
  | some compiled =>
    have isBody : nodeGraph env cls = some compiled.body := by rw [nodeGraph, cached]; rfl
    rw [cached] at held
    cases compiled with
    | struct fields =>
      obtain ⟨values, rfl, fieldsWire⟩ := held
      obtain ⟨drawn, parts, rfl, nodes, shapeAll, laid, encodeAll⟩ := fields_encode env wire shaped fields values raw fieldsWire
      exact ⟨_, .struct cls fields drawn cached nodes shapeAll, .product cls _ _ raw parts isBody laid encodeAll⟩
    | intEnum members =>
      obtain ⟨tag, member, rfl, rfl⟩ := held
      exact ⟨_, .member cls members tag.toNat cached,
        .sum cls _ tag [] [] [] [] isBody (member_lookup members tag.toNat member) ⟨rfl, rfl, rfl⟩ (by simp)⟩
    | borshEnum variants =>
      obtain ⟨variant, tag, values, body, found, rfl, rfl, fieldsWire⟩ := held
      obtain ⟨drawn, parts, rfl, nodes, shapeAll, laid, encodeAll⟩ :=
        fields_encode env wire shaped variant.fields values body fieldsWire
      have isTag : variant.tag = tag.toNat := by simpa using List.find?_some found
      have isShaped := Shaped.variant cls variants variant drawn cached (by rwa [isTag]) nodes shapeAll
      rw [isTag] at isShaped
      exact ⟨_, isShaped, .sum cls _ tag _ _ body parts isBody (find_lookup variants _ variant found) laid encodeAll⟩

theorem wire_encodes (levels : Nat) (node : Node) (value : Value) (raw : Bytes) (wire : Wire env levels node value raw) :
    ∃ shape, Shaped env node value shape ∧ Encodes (nodeGraph env) node.layout shape raw := by
  induction levels using Nat.strong_induction_on generalizing node value raw with
  | _ levels ih =>
    rw [wire_unfold] at wire
    have deeper : ∀ next, levelBelow (Wire env) levels = some next → ∀ node value raw, next node value raw →
        ∃ shape, Shaped env node value shape ∧ Encodes (nodeGraph env) node.layout shape raw := by
      intro next isNext node value raw held
      obtain ⟨below, rfl, rfl⟩ := level_below_some _ _ _ isNext
      exact ih below (Nat.lt_succ_self below) node value raw held
    cases node with
    | int width signed =>
      obtain ⟨n, rfl, range, rfl⟩ := wire
      exact ⟨_, .int width signed n, .int width signed n range⟩
    | float width =>
      obtain ⟨rfl, size, number⟩ := wire
      exact ⟨_, .float width raw, .float width raw size number⟩
    | bool =>
      obtain ⟨b, rfl, rfl⟩ := wire
      exact ⟨_, .bool b, .bool b⟩
    | str =>
      obtain ⟨s, rfl, short, rfl⟩ := wire
      exact ⟨_, .str s, .string s short⟩
    | bytes =>
      obtain ⟨body, rfl, short, rfl⟩ := wire
      have encodes := Encodes.vec u8Layout (body.map byteShape) body (byteParts body) (by simpa using short) (bytes_laid body)
        (bytes_encode (nodeGraph env) body)
      rw [List.length_map] at encodes
      exact ⟨_, .bytes body, encodes⟩
    | fixedBytes n =>
      obtain ⟨rfl, size⟩ := wire
      exact ⟨_, .fixedBytes n raw, .array u8Layout n _ raw (byteParts raw) (by simpa using size) (bytes_laid raw)
        (bytes_encode _ raw)⟩
    | pubkey =>
      obtain ⟨key, rfl, rfl⟩ := wire
      exact ⟨_, .pubkey key, .array u8Layout 32 _ key.bytes (byteParts key.bytes) (by simp [key.size])
        (bytes_laid key.bytes) (bytes_encode _ key.bytes)⟩
    | option inner =>
      obtain ⟨next, isNext, ⟨rfl, rfl⟩ | ⟨present, body, rfl, held⟩⟩ := wire
      · exact ⟨_, .optionNone inner, .none inner.layout⟩
      · obtain ⟨shape, isShaped, encodes⟩ := deeper next isNext inner value body held
        exact ⟨_, .optionSome inner value shape present isShaped, .some inner.layout shape body encodes⟩
    | opt inner =>
      obtain ⟨next, isNext, ⟨rfl, rfl⟩ | ⟨held, body, rfl, rfl, wireHeld⟩⟩ := wire
      · exact ⟨_, .optNone inner, .none inner.layout⟩
      · obtain ⟨shape, isShaped, encodes⟩ := deeper next isNext inner held body wireHeld
        exact ⟨_, .optSome inner held shape isShaped, .some inner.layout shape body encodes⟩
    | vec elem =>
      obtain ⟨next, isNext, items, body, rfl, short, rfl, held⟩ := wire
      obtain ⟨parts, rfl, rfl, along⟩ := items_along next elem items body held
      obtain ⟨rows, isNodes, isValues, isRaws, all⟩ := rows_of_wires env next (deeper next isNext) _ parts along
      obtain ⟨encodeAll, shapeAll⟩ := rows_encode env rows all
      obtain ⟨elems, size, laid⟩ := rows_items elem _ rows isNodes
      have isShaped := Shaped.vec elem (rows.map Row.toDrawn) elems shapeAll
      have encodes := Encodes.vec elem.layout _ _ (rows.map Row.part) (by rwa [size]) laid encodeAll
      rw [size, ← isRaws] at encodes
      rw [← isValues] at isShaped
      exact ⟨_, isShaped, encodes⟩
    | fixedArray elem n =>
      obtain ⟨next, isNext, items, rfl, count, held⟩ := wire
      obtain ⟨parts, rfl, rfl, along⟩ := items_along next elem items raw held
      obtain ⟨rows, isNodes, isValues, isRaws, all⟩ := rows_of_wires env next (deeper next isNext) _ parts along
      obtain ⟨encodeAll, shapeAll⟩ := rows_encode env rows all
      obtain ⟨elems, size, laid⟩ := rows_items elem _ rows isNodes
      have isShaped := Shaped.fixedArray elem n (rows.map Row.toDrawn) elems shapeAll
      have encodes := Encodes.array elem.layout n _ _ (rows.map Row.part) (by rwa [size]) laid encodeAll
      rw [← isRaws] at encodes
      rw [← isValues] at isShaped
      exact ⟨_, isShaped, encodes⟩
    | ref cls =>
      obtain ⟨next, isNext, held⟩ := wire
      exact class_encodes env next (deeper next isNext) cls value raw held

theorem rows_of_parts (parts : List (Piece Name)) (nodes : List Node)
    (aligned : nodes.map Node.layout = parts.map Piece.layout) (clean : ∀ node ∈ nodes, node.lossless = true)
    (each : ∀ part ∈ parts, ∀ node : Node, node.layout = part.layout → node.lossless = true →
      ∃ levels value, Wire env levels node value part.raw ∧ Shaped env node value part.shape) :
    ∃ (levels : Nat) (rows : List Row), nodes = (rows.map Row.toDrawn).map Drawn.node ∧
      parts.map Piece.shape = (rows.map Row.toDrawn).map Drawn.shape ∧ parts.map Piece.raw = rows.map Row.raw ∧
      ∀ row ∈ rows, Wire env levels row.node row.value row.raw ∧ Shaped env row.node row.value row.shape := by
  induction parts generalizing nodes with
  | nil =>
    have none : nodes = [] := List.map_eq_nil_iff.mp aligned
    exact ⟨0, [], none, rfl, rfl, by simp⟩
  | cons part rest ih =>
    cases nodes with
    | nil => simp at aligned
    | cons node others =>
      obtain ⟨here, later⟩ := List.cons.inj aligned
      obtain ⟨levels, value, wire, shaped⟩ := each part (by simp) node here (clean node (by simp))
      obtain ⟨more, rows, isNodes, isShapes, isRaws, all⟩ := ih others later (fun other inside => clean other (by simp [inside]))
        fun other inside => each other (by simp [inside])
      refine ⟨max levels more, ⟨⟨node, value, part.shape⟩, part.raw⟩ :: rows, ?_, ?_, ?_, ?_⟩
      · rw [List.map_cons, List.map_cons, ← isNodes]
      · rw [List.map_cons, List.map_cons, List.map_cons, ← isShapes]
      · rw [List.map_cons, List.map_cons, ← isRaws]
      · intro row inside
        rcases List.mem_cons.mp inside with rfl | member
        · exact ⟨wire_mono env levels _ (Nat.le_max_left _ _) node value part.raw wire, shaped⟩
        · exact ⟨wire_mono env more _ (Nat.le_max_right _ _) _ _ _ (all row member).1, (all row member).2⟩

theorem rows_along (each : ∀ row ∈ rows, wire row.node row.value row.raw) :
    List.Forall₂ (fun node (part : Value × Bytes) => wire node part.1 part.2) ((rows.map Row.toDrawn).map Drawn.node)
      (rows.map fun row => (row.value, row.raw)) := by
  rw [List.map_map, List.forall₂_map_left_iff, List.forall₂_map_right_iff, List.forall₂_same]
  exact each

theorem rows_wire_fields (fields : Fields) (rows : List Row)
    (isNodes : fields.nodes = (rows.map Row.toDrawn).map Drawn.node) (each : ∀ row ∈ rows, wire row.node row.value row.raw) :
    WireFields wire fields ((rows.map Row.toDrawn).map Drawn.value) (rows.map Row.raw).flatten := by
  have along := rows_along wire rows each
  rw [← isNodes, Fields.nodes, List.forall₂_map_left_iff] at along
  refine ⟨_, ?_, ?_, along⟩
  · rw [List.map_map, List.map_map]
    rfl
  · rw [List.map_map]
    rfl

theorem rows_wire_items (elem : Node) (rows : List Row) (elems : ∀ row ∈ rows, row.node = elem)
    (each : ∀ row ∈ rows, wire row.node row.value row.raw) :
    WireItems wire elem ((rows.map Row.toDrawn).map Drawn.value) (rows.map Row.raw).flatten := by
  refine ⟨rows.map fun row => (row.value, row.raw), ?_, ?_, ?_⟩
  · rw [List.map_map, List.map_map]
    rfl
  · rw [List.map_map]
    rfl
  · intro part inside
    obtain ⟨row, member, rfl⟩ := List.mem_map.mp inside
    have held := each row member
    rwa [elems row member] at held

section Parts

variable (env : Env) (parts : List (Piece Name)) (raw : Bytes)
  (each : ∀ part ∈ parts, ∀ node : Node, node.layout = part.layout → node.lossless = true →
    ∃ levels value, Wire env levels node value part.raw ∧ Shaped env node value part.shape)

include each

theorem parts_wire_items (elem : Node) (clean : elem.lossless = true) (items : List Shape)
    (laid : Laid parts (List.replicate items.length elem.layout) items raw) :
    ∃ (levels : Nat) (drawn : List Drawn), (∀ item ∈ drawn, item.node = elem) ∧
      (∀ item ∈ drawn, Shaped env item.node item.value item.shape) ∧ items = drawn.map Drawn.shape ∧
      WireItems (Wire env levels) elem (drawn.map Drawn.value) raw := by
  have aligned : (List.replicate items.length elem).map Node.layout = parts.map Piece.layout := by
    rw [List.map_replicate, laid.layouts]
  obtain ⟨levels, rows, isNodes, isShapes, isRaws, all⟩ := rows_of_parts env parts _ aligned
    (fun node inside => by rw [List.eq_of_mem_replicate inside]; exact clean) each
  obtain ⟨elems, _, _⟩ := rows_items elem items.length rows isNodes
  refine ⟨levels, rows.map Row.toDrawn, elems, ?_, by rw [← isShapes, laid.shapes], ?_⟩
  · intro item inside
    obtain ⟨row, member, rfl⟩ := List.mem_map.mp inside
    exact (all row member).2
  · rw [laid.raw, isRaws]
    exact rows_wire_items _ elem rows (fun row member => elems _ (List.mem_map_of_mem member)) fun row member => (all row member).1

theorem parts_wire_fields (fields : Fields) (clean : ∀ node ∈ fields.nodes, node.lossless = true) (shapes : List Shape)
    (laid : Laid parts fields.layouts shapes raw) :
    ∃ (levels : Nat) (drawn : List Drawn), fields.nodes = drawn.map Drawn.node ∧
      (∀ item ∈ drawn, Shaped env item.node item.value item.shape) ∧ shapes = drawn.map Drawn.shape ∧
      WireFields (Wire env levels) fields (drawn.map Drawn.value) raw := by
  obtain ⟨levels, rows, isNodes, isShapes, isRaws, all⟩ := rows_of_parts env parts fields.nodes laid.layouts clean each
  refine ⟨levels, rows.map Row.toDrawn, isNodes, ?_, by rw [← isShapes, laid.shapes], ?_⟩
  · intro item inside
    obtain ⟨row, member, rfl⟩ := List.mem_map.mp inside
    exact (all row member).2
  · rw [laid.raw, isRaws]
    exact rows_wire_fields _ fields rows isNodes fun row member => (all row member).1

end Parts

theorem lookup_find (variants : Variants) (tag : Nat) (layouts : List (Layout Name))
    (chosen : (variants.entries.map fun variant => (variant.tag, variant.fields.layouts)).lookup tag = some layouts) :
    ∃ variant, variants.find tag = some variant ∧ variant.tag = tag ∧ layouts = variant.fields.layouts := by
  obtain ⟨variant, inside, same⟩ := List.mem_map.mp (DictLib.lookup_mem _ _ _ chosen)
  obtain ⟨rfl, rfl⟩ := Prod.mk.inj same
  exact ⟨variant, find_tag variants variant inside, rfl, rfl⟩

theorem graph_lookup (cls : Name) (body : Body Name) (isDefined : nodeGraph env cls = some body) :
    ∃ compiled, env.lookup cls = some compiled ∧ compiled.body = body := Option.map_eq_some_iff.mp isDefined

theorem product_wire (lossless : LosslessEnv env) (cls : Name) (fields : List (Layout Name)) (shapes : List Shape)
    (raw : Bytes) (parts : List (Piece Name)) (isDefined : nodeGraph env cls = some (.product fields))
    (laid : Laid parts fields shapes raw)
    (each : ∀ part ∈ parts, ∀ node : Node, node.layout = part.layout → node.lossless = true →
      ∃ levels value, Wire env levels node value part.raw ∧ Shaped env node value part.shape) :
    ∃ levels value, Wire env levels (.ref cls) value raw ∧ Shaped env (.ref cls) value (.tuple shapes) := by
  obtain ⟨compiled, cached, isBody⟩ := graph_lookup env cls _ isDefined
  cases compiled with
  | struct entries =>
    cases isBody
    obtain ⟨levels, drawn, isNodes, shaped, rfl, wire⟩ := parts_wire_fields env parts raw each entries
      (lossless cls _ cached) shapes laid
    refine ⟨levels + 1, _, ⟨_, rfl, ?_⟩, .struct cls entries drawn cached isNodes shaped⟩
    rw [WireClass, cached]
    exact ⟨_, rfl, wire⟩
  | intEnum members => cases isBody
  | borshEnum variants => cases isBody

theorem sum_wire (lossless : LosslessEnv env) (cls : Name) (variants : List (Nat × List (Layout Name))) (tag : UInt8)
    (fields : List (Layout Name)) (shapes : List Shape) (raw : Bytes) (parts : List (Piece Name))
    (isDefined : nodeGraph env cls = some (.sum variants)) (chosen : variants.lookup tag.toNat = some fields)
    (laid : Laid parts fields shapes raw)
    (each : ∀ part ∈ parts, ∀ node : Node, node.layout = part.layout → node.lossless = true →
      ∃ levels value, Wire env levels node value part.raw ∧ Shaped env node value part.shape) :
    ∃ levels value, Wire env levels (.ref cls) value (tag :: raw) ∧ Shaped env (.ref cls) value (.variant tag.toNat shapes) := by
  obtain ⟨compiled, cached, isBody⟩ := graph_lookup env cls _ isDefined
  cases compiled with
  | struct entries => cases isBody
  | intEnum members =>
    cases isBody
    obtain ⟨member, inside, same⟩ := List.mem_map.mp (DictLib.lookup_mem _ _ _ chosen)
    cases same
    have none : parts = [] := List.map_eq_nil_iff.mp laid.layouts.symm
    refine ⟨1, .member cls tag.toNat, ⟨_, rfl, ?_⟩, ?_⟩
    · rw [WireClass, cached, laid.raw, none]
      exact ⟨tag, inside, rfl, rfl⟩
    · rw [laid.shapes, none]
      exact .member cls members tag.toNat cached
  | borshEnum entries =>
    cases isBody
    obtain ⟨variant, found, isTag, rfl⟩ := lookup_find entries tag.toNat fields chosen
    have inside := List.mem_of_find?_eq_some found
    obtain ⟨levels, drawn, isNodes, shaped, rfl, wire⟩ := parts_wire_fields env parts raw each variant.fields
      (fun node isNode => lossless cls _ cached node (List.mem_flatMap.mpr ⟨variant, inside, isNode⟩)) shapes laid
    have isShaped := Shaped.variant cls entries variant drawn cached (by rwa [isTag]) isNodes shaped
    rw [isTag] at isShaped
    refine ⟨levels + 1, _, ⟨_, rfl, ?_⟩, isShaped⟩
    rw [WireClass, cached]
    exact ⟨variant, tag, _, raw, found, rfl, rfl, wire⟩

theorem encodes_wire (lossless : LosslessEnv env) (layout : Layout Name) (shape : Shape) (raw : Bytes)
    (encodes : Encodes (nodeGraph env) layout shape raw) (node : Node) (isLayout : node.layout = layout)
    (clean : node.lossless = true) : ∃ levels value, Wire env levels node value raw ∧ Shaped env node value shape := by
  induction encodes generalizing node with
  | int width signed n range =>
    cases node with
    | int =>
      cases isLayout
      exact ⟨0, .int n, ⟨n, rfl, range, rfl⟩, .int width signed n⟩
    | _ => cases isLayout
  | float width bits size number =>
    cases node with
    | float =>
      cases isLayout
      exact ⟨0, .float bits, ⟨rfl, size, number⟩, .float width bits⟩
    | _ => cases isLayout
  | bool b =>
    cases node with
    | bool => exact ⟨0, .bool b, ⟨b, rfl, rfl⟩, .bool b⟩
    | _ => cases isLayout
  | string s short =>
    cases node with
    | str => exact ⟨0, .str s, ⟨s, rfl, short, rfl⟩, .str s⟩
    | _ => cases isLayout
  | none inner =>
    cases node with
    | option held =>
      exact ⟨1, .none, ⟨_, rfl, .inl ⟨rfl, rfl⟩⟩, .optionNone held⟩
    | opt held => exact ⟨1, .none, ⟨_, rfl, .inl ⟨rfl, rfl⟩⟩, .optNone held⟩
    | _ => cases isLayout
  | some inner shape raw held ih =>
    cases node with
    | option node =>
      cases isLayout
      simp only [Node.lossless, Bool.and_eq_true, Bool.not_eq_true'] at clean
      obtain ⟨levels, value, wire, shaped⟩ := ih node rfl clean.2
      have present := wire_present env levels node value raw wire clean.1
      exact ⟨levels + 1, value, ⟨_, rfl, .inr ⟨present, raw, rfl, wire⟩⟩, .optionSome node value shape present shaped⟩
    | opt node =>
      cases isLayout
      obtain ⟨levels, value, wire, shaped⟩ := ih node rfl clean
      exact ⟨levels + 1, .opt value, ⟨_, rfl, .inr ⟨value, raw, rfl, rfl, wire⟩⟩, .optSome node value shape shaped⟩
    | _ => cases isLayout
  | vec elem items raw parts short laid each ih =>
    cases node with
    | bytes =>
      cases isLayout
      have isBytes := bytes_decode _ parts items raw laid each
      subst isBytes
      rw [List.length_map] at short ⊢
      exact ⟨0, .bytes raw, ⟨raw, rfl, short, rfl⟩, .bytes raw⟩
    | vec node =>
      cases isLayout
      obtain ⟨levels, drawn, elems, shaped, rfl, wire⟩ := parts_wire_items env parts raw ih node clean items laid
      rw [List.length_map] at short ⊢
      refine ⟨levels + 1, _, ⟨_, rfl, _, raw, rfl, ?_, ?_, wire⟩, .vec node drawn elems shaped⟩
      · rwa [List.length_map]
      · rw [List.length_map]
    | _ => cases isLayout
  | array elem n items raw parts size laid each ih =>
    cases node with
    | fixedBytes =>
      cases isLayout
      have isBytes := bytes_decode _ parts items raw laid each
      subst isBytes
      rw [List.length_map] at size
      exact ⟨0, .bytes raw, ⟨rfl, size⟩, .fixedBytes n raw⟩
    | pubkey =>
      cases isLayout
      have isBytes := bytes_decode _ parts items raw laid each
      subst isBytes
      rw [List.length_map] at size
      have key : raw.length = 32 := by omega
      exact ⟨0, .pubkey ⟨raw, key⟩, ⟨⟨raw, key⟩, rfl, rfl⟩, .pubkey ⟨raw, key⟩⟩
    | fixedArray node =>
      cases isLayout
      simp only [Node.lossless, Bool.and_eq_true] at clean
      obtain ⟨levels, drawn, elems, shaped, rfl, wire⟩ := parts_wire_items env parts raw ih node clean.2 items laid
      rw [List.length_map] at size
      exact ⟨levels + 1, _, ⟨_, rfl, _, rfl, by rwa [List.length_map], wire⟩, .fixedArray node n drawn elems shaped⟩
    | _ => cases isLayout
  | product name fields shapes raw parts isDefined laid each ih =>
    cases node with
    | ref cls =>
      cases isLayout
      exact product_wire env lossless name fields shapes raw parts isDefined laid ih
    | _ => cases isLayout
  | sum name variants tag fields shapes raw parts isDefined chosen laid each ih =>
    cases node with
    | ref cls =>
      cases isLayout
      exact sum_wire env lossless name variants tag fields shapes raw parts isDefined chosen laid ih
    | _ => cases isLayout
  | synonym name target shape raw isDefined held ih =>
    obtain ⟨compiled, _, isBody⟩ := graph_lookup env name _ isDefined
    cases compiled with
    | struct fields => cases isBody
    | intEnum members => cases isBody
    | borshEnum variants => cases isBody

end WakeSol.Codec
