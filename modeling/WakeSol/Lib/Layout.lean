import WakeSol.Lib.Endian

/- Borsh layouts over named definitions. A layout gives each shape its bytes; a
   name stands for the definition the graph has for it. -/
set_option autoImplicit false

namespace LayoutLib

open TextLib RadixLib EndianLib

inductive Layout (κ : Type) where
  | int (width : Nat) (signed : Bool)
  | float (width : Nat)
  | bool
  | string
  | option (inner : Layout κ)
  | vec (elem : Layout κ)
  | array (elem : Layout κ) (n : Int)
  | named (name : κ)
  | void
deriving DecidableEq

inductive Body (κ : Type) where
  | product (fields : List (Layout κ))
  | sum (variants : List (Nat × List (Layout κ)))
  | synonym (target : Layout κ)
deriving DecidableEq

abbrev Graph (κ : Type) := κ → Option (Body κ)

inductive Shape where
  | int (n : Int)
  | float (bits : Bytes)
  | bool (b : Bool)
  | string (s : String)
  | none
  | some (inner : Shape)
  | seq (items : List Shape)
  | tuple (fields : List Shape)
  | variant (tag : Nat) (fields : List Shape)

def stringBytes (s : String) : Bytes := s.toByteArray.data.toList

structure Piece (κ : Type) where
  layout : Layout κ
  shape : Shape
  raw : Bytes

section Meaning

variable {κ : Type}

structure Laid (parts : List (Piece κ)) (layouts : List (Layout κ)) (shapes : List Shape) (raw : Bytes) : Prop where
  layouts : layouts = parts.map Piece.layout
  shapes : shapes = parts.map Piece.shape
  raw : raw = (parts.map Piece.raw).flatten

inductive Encodes (graph : Graph κ) : Layout κ → Shape → Bytes → Prop where
  | int (width : Nat) (signed : Bool) (n : Int) (range : InRange width signed n) :
      Encodes graph (.int width signed) (.int n) (leBytes width (unsignedOf width n))
  | float (width : Nat) (bits : Bytes) (size : bits.length = width) (number : isNaN bits = false) :
      Encodes graph (.float width) (.float bits) bits
  | bool (b : Bool) : Encodes graph .bool (.bool b) [if b then 1 else 0]
  | string (s : String) (short : (stringBytes s).length < 256 ^ 4) :
      Encodes graph .string (.string s) (leBytes 4 (stringBytes s).length ++ stringBytes s)
  | none (inner : Layout κ) : Encodes graph (.option inner) .none [0]
  | some (inner : Layout κ) (shape : Shape) (raw : Bytes) (held : Encodes graph inner shape raw) :
      Encodes graph (.option inner) (.some shape) (1 :: raw)
  | vec (elem : Layout κ) (items : List Shape) (raw : Bytes) (parts : List (Piece κ)) (short : items.length < 256 ^ 4)
      (laid : Laid parts (List.replicate items.length elem) items raw)
      (each : ∀ part ∈ parts, Encodes graph part.layout part.shape part.raw) :
      Encodes graph (.vec elem) (.seq items) (leBytes 4 items.length ++ raw)
  | array (elem : Layout κ) (n : Int) (items : List Shape) (raw : Bytes) (parts : List (Piece κ)) (size : items.length = n)
      (laid : Laid parts (List.replicate items.length elem) items raw)
      (each : ∀ part ∈ parts, Encodes graph part.layout part.shape part.raw) : Encodes graph (.array elem n) (.seq items) raw
  | product (name : κ) (fields : List (Layout κ)) (shapes : List Shape) (raw : Bytes) (parts : List (Piece κ))
      (isDefined : graph name = Option.some (.product fields)) (laid : Laid parts fields shapes raw)
      (each : ∀ part ∈ parts, Encodes graph part.layout part.shape part.raw) :
      Encodes graph (.named name) (.tuple shapes) raw
  | sum (name : κ) (variants : List (Nat × List (Layout κ))) (tag : UInt8) (fields : List (Layout κ)) (shapes : List Shape)
      (raw : Bytes) (parts : List (Piece κ)) (isDefined : graph name = Option.some (.sum variants))
      (chosen : variants.lookup tag.toNat = Option.some fields) (laid : Laid parts fields shapes raw)
      (each : ∀ part ∈ parts, Encodes graph part.layout part.shape part.raw) :
      Encodes graph (.named name) (.variant tag.toNat shapes) (tag :: raw)
  | synonym (name : κ) (target : Layout κ) (shape : Shape) (raw : Bytes)
      (isDefined : graph name = Option.some (.synonym target)) (held : Encodes graph target shape raw) :
      Encodes graph (.named name) shape raw

def Layout.refs : Layout κ → List κ
  | .option inner => inner.refs
  | .vec elem => elem.refs
  | .array elem _ => elem.refs
  | .named name => [name]
  | _ => []

def Body.refs : Body κ → List κ
  | .product fields => fields.flatMap Layout.refs
  | .sum variants => variants.flatMap fun variant => variant.2.flatMap Layout.refs
  | .synonym target => target.refs

def SameMeaning (first second : Graph κ) (layout other : Layout κ) : Prop :=
  ∀ shape raw, Encodes first layout shape raw ↔ Encodes second other shape raw

def Covers (first second : Graph κ) (known : κ → Prop) : Prop :=
  ∀ name, known name →
    (∀ shape raw, Encodes first (.named name) shape raw → Encodes second (.named name) shape raw) ∨
    (first name = second name ∧ ∀ body, first name = some body → ∀ ref ∈ body.refs, known ref)

theorem variant_refs (variants : List (Nat × List (Layout κ))) (tag : Nat) (fields : List (Layout κ))
    (chosen : variants.lookup tag = some fields) : ∀ ref ∈ fields.flatMap Layout.refs, ref ∈ (Body.sum variants).refs := by
  obtain ⟨front, back, rfl, _⟩ := List.lookup_eq_some_iff.mp chosen
  intro ref inside
  exact List.mem_flatMap.mpr ⟨(tag, fields), by simp, inside⟩

theorem part_layout (parts : List (Piece κ)) (layouts : List (Layout κ)) (shapes : List Shape) (raw : Bytes)
    (laid : Laid parts layouts shapes raw) (part : Piece κ) (inside : part ∈ parts) : part.layout ∈ layouts := by
  rw [laid.layouts]
  exact List.mem_map_of_mem inside

theorem item_layout (parts : List (Piece κ)) (elem : Layout κ) (items : List Shape) (raw : Bytes)
    (laid : Laid parts (List.replicate items.length elem) items raw) (part : Piece κ) (inside : part ∈ parts) :
    part.layout = elem :=
  List.eq_of_mem_replicate (part_layout parts _ items raw laid part inside)

theorem encodes_covered (first second : Graph κ) (known : κ → Prop) (covers : Covers first second known)
    (layout : Layout κ) (shape : Shape) (raw : Bytes) (encodes : Encodes first layout shape raw)
    (closed : ∀ ref ∈ layout.refs, known ref) : Encodes second layout shape raw := by
  induction encodes with
  | int width signed n range => exact .int width signed n range
  | float width bits size number => exact .float width bits size number
  | bool b => exact .bool b
  | string s short => exact .string s short
  | none inner => exact .none inner
  | some inner shape raw held ih => exact .some inner shape raw (ih closed)
  | vec elem items raw parts short laid each ih =>
    refine .vec elem items raw parts short laid fun part inside => ih part inside ?_
    rw [item_layout parts elem items raw laid part inside]
    exact closed
  | array elem n items raw parts size laid each ih =>
    refine .array elem n items raw parts size laid fun part inside => ih part inside ?_
    rw [item_layout parts elem items raw laid part inside]
    exact closed
  | product name fields shapes raw parts isDefined laid each ih =>
    rcases covers name (closed name (by simp [Layout.refs])) with meaning | ⟨same, refs⟩
    · exact meaning _ _ (.product name fields shapes raw parts isDefined laid each)
    · refine .product name fields shapes raw parts (same ▸ isDefined) laid fun part inside => ih part inside ?_
      have isField := part_layout parts fields shapes raw laid part inside
      exact fun ref isRef => refs _ isDefined ref (List.mem_flatMap.mpr ⟨part.layout, isField, isRef⟩)
  | sum name variants tag fields shapes raw parts isDefined chosen laid each ih =>
    rcases covers name (closed name (by simp [Layout.refs])) with meaning | ⟨same, refs⟩
    · exact meaning _ _ (.sum name variants tag fields shapes raw parts isDefined chosen laid each)
    · refine .sum name variants tag fields shapes raw parts (same ▸ isDefined) chosen laid fun part inside => ih part inside ?_
      have isField := part_layout parts fields shapes raw laid part inside
      exact fun ref isRef => refs _ isDefined ref
        (variant_refs variants _ fields chosen ref (List.mem_flatMap.mpr ⟨part.layout, isField, isRef⟩))
  | synonym name target shape raw isDefined held ih =>
    rcases covers name (closed name (by simp [Layout.refs])) with meaning | ⟨same, refs⟩
    · exact meaning _ _ (.synonym name target shape raw isDefined held)
    · exact .synonym name target shape raw (same ▸ isDefined) (ih fun ref inside => refs _ isDefined ref inside)

theorem same_meaning (first second : Graph κ) (known : κ → Prop) (forward : Covers first second known)
    (backward : Covers second first known) (layout : Layout κ) (closed : ∀ ref ∈ layout.refs, known ref) :
    SameMeaning first second layout layout := fun shape raw =>
  ⟨fun encodes => encodes_covered first second known forward layout shape raw encodes closed,
    fun encodes => encodes_covered second first known backward layout shape raw encodes closed⟩

def Empty (graph : Graph κ) (layout : Layout κ) : Prop :=
  ∀ shape raw, Encodes graph layout shape raw ↔ shape = .tuple [] ∧ raw = []

theorem empty_product (graph : Graph κ) (name : κ) (isDefined : graph name = some (.product [])) :
    Empty graph (.named name) := by
  intro shape raw
  constructor
  · intro encodes
    cases encodes with
    | product _ fields shapes _ parts found laid each =>
      rw [isDefined] at found
      cases found
      have none : parts = [] := List.map_eq_nil_iff.mp laid.layouts.symm
      rw [laid.shapes, laid.raw, none]
      exact ⟨rfl, rfl⟩
    | sum _ variants tag fields shapes raw parts found =>
      rw [isDefined] at found
      cases found
    | synonym _ target _ _ found =>
      rw [isDefined] at found
      cases found
  · rintro ⟨rfl, rfl⟩
    exact .product name [] [] [] [] isDefined ⟨rfl, rfl, rfl⟩ (by simp)

theorem synonym_meaning (graph : Graph κ) (name : κ) (target : Layout κ) (isDefined : graph name = some (.synonym target)) :
    SameMeaning graph graph (.named name) target := by
  intro shape raw
  constructor
  · intro encodes
    cases encodes with
    | product _ fields shapes _ parts found =>
      rw [isDefined] at found
      cases found
    | sum _ variants tag fields shapes raw parts found =>
      rw [isDefined] at found
      cases found
    | synonym _ other _ _ found held =>
      rw [isDefined] at found
      cases found
      exact held
  · exact .synonym name target shape raw isDefined

end Meaning

end LayoutLib
