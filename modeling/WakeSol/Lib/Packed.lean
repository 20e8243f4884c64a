import WakeSol.Lib.Endian

/- Records of fixed-width unsigned fields packed one behind the other, as struct.pack
   has them, and regions that tile an interval of positions. -/
set_option autoImplicit false

namespace PackedLib

open RadixLib EndianLib

def packField (width : Nat) (n : Int) : Option Bytes :=
  if 0 ≤ n ∧ n < 256 ^ width then some (leBytes width n.toNat) else none

def packFields : List (Nat × Int) → Option Bytes
  | [] => some []
  | (width, n) :: rest =>
    match packField width n, packFields rest with
    | some first, some others => some (first ++ others)
    | _, _ => none

def unpackFields : List Nat → Bytes → List Nat
  | [], _ => []
  | width :: rest, data => leNat (data.take width) :: unpackFields rest (data.drop width)

theorem unpack_pack (fields : List (Nat × Int)) (packed : Bytes) (done : packFields fields = some packed) :
    packed.length = (fields.map Prod.fst).sum ∧ (∀ field ∈ fields, 0 ≤ field.2) ∧
      ∀ rest, unpackFields (fields.map Prod.fst) (packed ++ rest) = fields.map fun field => field.2.toNat := by
  induction fields generalizing packed with
  | nil =>
    cases done
    exact ⟨rfl, by simp, fun _ => rfl⟩
  | cons field others ih =>
    obtain ⟨width, n⟩ := field
    by_cases fits : 0 ≤ n ∧ n < 256 ^ width
    · cases later : packFields others with
      | none => simp [packFields, packField, fits, later] at done
      | some packedOthers =>
        obtain ⟨size, natural, read⟩ := ih packedOthers later
        have whole : leBytes width n.toNat ++ packedOthers = packed := by
          simpa [packFields, packField, fits, later] using done
        have small : n.toNat < 256 ^ width := by
          rw [Int.toNat_lt fits.1]
          exact_mod_cast fits.2
        rw [← whole]
        refine ⟨by simp [le_bytes_length, size], ?_, fun rest => ?_⟩
        · intro other inside
          rcases List.mem_cons.mp inside with rfl | member
          · exact fits.1
          · exact natural other member
        · have first : (leBytes width n.toNat ++ packedOthers ++ rest).take width = leBytes width n.toNat := by
            rw [List.append_assoc, List.take_left' (le_bytes_length width n.toNat)]
          have second : (leBytes width n.toNat ++ packedOthers ++ rest).drop width = packedOthers ++ rest := by
            rw [List.append_assoc, List.drop_left' (le_bytes_length width n.toNat)]
          simp only [List.map_cons, unpackFields, first, second, read, le_nat_le_bytes width _ small]
    · simp [packFields, packField, fits] at done

theorem pack_fits (fields : List (Nat × Int)) (fit : ∀ field ∈ fields, 0 ≤ field.2 ∧ field.2 < 256 ^ field.1) :
    ∃ packed, packFields fields = some packed := by
  induction fields with
  | nil => exact ⟨[], rfl⟩
  | cons field others ih =>
    obtain ⟨packed, isPacked⟩ := ih fun other inside => fit other (by simp [inside])
    have first := fit field (by simp)
    exact ⟨_, by rw [packFields, packField, if_pos first, isPacked]⟩

def unpackTable (widths : List Nat) : Nat → Bytes → List (List Nat)
  | 0, _ => []
  | count + 1, data => unpackFields widths data :: unpackTable widths count (data.drop widths.sum)

theorem unpack_table (widths : List Nat) (records : List (List (Nat × Int))) (packed : List Bytes) (rest : Bytes)
    (shaped : ∀ record ∈ records, record.map Prod.fst = widths)
    (done : List.Forall₂ (fun record bytes => packFields record = some bytes) records packed) :
    packed.flatten.length = widths.sum * records.length ∧
      unpackTable widths records.length (packed.flatten ++ rest) = records.map fun record => record.map fun field => field.2.toNat := by
  induction done with
  | nil => exact ⟨rfl, rfl⟩
  | @cons record bytes records packed first _ ih =>
    obtain ⟨size, read⟩ := ih fun other inside => shaped other (by simp [inside])
    obtain ⟨width, _, fields⟩ := unpack_pack record bytes first
    have shape := shaped record (by simp)
    rw [shape] at width fields
    constructor
    · rw [List.flatten_cons, List.length_append, width, size, List.length_cons, Nat.mul_succ, Nat.add_comm]
    · rw [List.flatten_cons, List.append_assoc, List.length_cons, unpackTable, fields, List.drop_left' width, read, List.map_cons]

def Tiles : Nat → List (Nat × Nat) → Nat → Prop
  | start, [], stop => start = stop
  | start, (offset, size) :: rest, stop => offset = start ∧ Tiles (start + size) rest stop

structure Fills (start : Nat) (regions : List (Nat × Nat)) (stop : Nat) : Prop where
  disjoint : regions.Pairwise fun first second => first.1 + first.2 ≤ second.1
  covers : ∀ position, (start ≤ position ∧ position < stop) ↔
    ∃ region ∈ regions, region.1 ≤ position ∧ position < region.1 + region.2

theorem tiles_append (start middle stop : Nat) (first second : List (Nat × Nat)) (left : Tiles start first middle)
    (right : Tiles middle second stop) : Tiles start (first ++ second) stop := by
  induction first generalizing start with
  | nil =>
    cases left
    exact right
  | cons region rest ih => exact ⟨left.1, ih _ left.2⟩

theorem tiles_ordered (start stop : Nat) (regions : List (Nat × Nat)) (tiles : Tiles start regions stop) :
    start ≤ stop ∧ ∀ region ∈ regions, start ≤ region.1 := by
  induction regions generalizing start with
  | nil =>
    cases tiles
    exact ⟨Nat.le_refl _, by simp⟩
  | cons region rest ih =>
    obtain ⟨begins, later⟩ := tiles
    obtain ⟨ordered, above⟩ := ih _ later
    refine ⟨by omega, fun other inside => ?_⟩
    rcases List.mem_cons.mp inside with rfl | member
    · omega
    · have bound := above other member
      omega

theorem tiles_fill (start stop : Nat) (regions : List (Nat × Nat)) (tiles : Tiles start regions stop) :
    Fills start regions stop := by
  induction regions generalizing start with
  | nil =>
    cases tiles
    exact ⟨List.Pairwise.nil, fun position => by simp⟩
  | cons region rest ih =>
    obtain ⟨begins, later⟩ := tiles
    obtain ⟨disjoint, covers⟩ := ih _ later
    obtain ⟨ordered, above⟩ := tiles_ordered _ _ rest later
    constructor
    · refine List.Pairwise.cons (fun other inside => ?_) disjoint
      have bound := above other inside
      omega
    · intro position
      rw [List.exists_mem_cons_iff, ← covers position]
      omega

end PackedLib
