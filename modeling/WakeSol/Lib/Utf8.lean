import Mathlib.Data.Char
import Mathlib.Data.List.Lex
import WakeSol.Lib.Text

/- Texts in UTF-8. The bytes of two texts stand in the same order as their
   characters, so a map with byte-wise compared keys lists them as one with
   character-wise compared keys does. -/
set_option autoImplicit false

namespace Utf8Lib

open TextLib

def utf8Char (c : Char) : List Nat := (String.utf8EncodeChar c).map UInt8.toNat

def utf8 (text : Text) : List Nat := text.flatMap utf8Char

theorem byte_toNat (n : Nat) (small : n < 256) : (UInt8.ofNat n).toNat = n := by
  rw [UInt8.toNat_ofNat']
  omega

theorem char_small (c : Char) : c.val.toNat < 0x110000 := by
  rcases c.valid with low | ⟨-, high⟩
  · exact Nat.lt_trans low (by decide)
  · exact high

def codeBytes (v : Nat) : List Nat :=
  if v ≤ 127 then [v]
  else if v ≤ 2047 then [v / 64 + 192, v % 64 + 128]
  else if v ≤ 65535 then [v / 4096 + 224, v / 64 % 64 + 128, v % 64 + 128]
  else [v / 262144 + 240, v / 4096 % 64 + 128, v / 64 % 64 + 128, v % 64 + 128]

theorem utf8_char_code (c : Char) : utf8Char c = codeBytes c.val.toNat := by
  have bound := char_small c
  rw [utf8Char, String.utf8EncodeChar, codeBytes]
  generalize c.val.toNat = v at bound ⊢
  by_cases one : v ≤ 127
  · rw [if_pos one, if_pos one, List.map_singleton, byte_toNat v (by omega)]
  · rw [if_neg one, if_neg one]
    by_cases two : v ≤ 2047
    · rw [if_pos two, if_pos two, List.map_cons, List.map_singleton, byte_toNat _ (by omega), byte_toNat _ (by omega),
        Nat.mod_eq_of_lt (by omega : v / 64 < 32)]
    · rw [if_neg two, if_neg two]
      by_cases three : v ≤ 65535
      · rw [if_pos three, if_pos three, List.map_cons, List.map_cons, List.map_singleton, byte_toNat _ (by omega),
          byte_toNat _ (by omega), byte_toNat _ (by omega), Nat.mod_eq_of_lt (by omega : v / 4096 < 16)]
      · rw [if_neg three, if_neg three, List.map_cons, List.map_cons, List.map_cons, List.map_singleton, byte_toNat _ (by omega),
          byte_toNat _ (by omega), byte_toNat _ (by omega), byte_toNat _ (by omega),
          Nat.mod_eq_of_lt (by omega : v / 262144 < 8)]

theorem digit_lt (v w : Nat) (xs ys : List Nat) (less : v < w) (tie : v / 64 = w / 64) :
    (v % 64 + 128) :: xs < (w % 64 + 128) :: ys := List.cons_lt_cons_iff.mpr (.inl (by omega))

theorem digit_le (v w : Nat) (xs ys : List Nat) (le : v ≤ w) (tie : v / 64 = w / 64) (rest : v = w → xs < ys) :
    (v % 64 + 128) :: xs < (w % 64 + 128) :: ys := by
  rcases Nat.lt_or_eq_of_le le with less | same
  · exact digit_lt v w xs ys less tie
  · exact List.cons_lt_cons_iff.mpr (.inr ⟨by rw [same], rest same⟩)

theorem lead_le (v w base : Nat) (xs ys : List Nat) (le : v ≤ w) (rest : v = w → xs < ys) :
    (v + base) :: xs < (w + base) :: ys := by
  rcases Nat.lt_or_eq_of_le le with less | same
  · exact List.cons_lt_cons_iff.mpr (.inl (by omega))
  · exact List.cons_lt_cons_iff.mpr (.inr ⟨by rw [same], rest same⟩)

theorem first_lt (x y : Nat) (xs ys : List Nat) (less : x < y) : x :: xs < y :: ys := List.cons_lt_cons_iff.mpr (.inl less)

theorem code_bytes_lt (v w : Nat) (less : v < w) (after other : List Nat) : codeBytes v ++ after < codeBytes w ++ other := by
  rw [codeBytes, codeBytes]
  by_cases one : w ≤ 127
  · rw [if_pos one, if_pos (by omega : v ≤ 127)]
    exact first_lt _ _ _ _ less
  · rw [if_neg one]
    by_cases two : w ≤ 2047
    · rw [if_pos two]
      split
      · exact first_lt _ _ _ _ (by omega)
      · rw [if_pos (by omega : v ≤ 2047)]
        exact lead_le _ _ _ _ _ (by omega) fun tie => digit_lt v w _ _ less tie
    · rw [if_neg two]
      by_cases three : w ≤ 65535
      · rw [if_pos three]
        split
        · exact first_lt _ _ _ _ (by omega)
        · split
          · exact first_lt _ _ _ _ (by omega)
          · rw [if_pos (by omega : v ≤ 65535)]
            refine lead_le _ _ _ _ _ (by omega) fun tie => ?_
            exact digit_le (v / 64) (w / 64) _ _ (by omega) (by omega) fun tie => digit_lt v w _ _ less tie
      · rw [if_neg three]
        split
        · exact first_lt _ _ _ _ (by omega)
        · split
          · exact first_lt _ _ _ _ (by omega)
          · split
            · exact first_lt _ _ _ _ (by omega)
            · refine lead_le _ _ _ _ _ (by omega) fun tie => ?_
              refine digit_le (v / 4096) (w / 4096) _ _ (by omega) (by omega) fun tie => ?_
              exact digit_le (v / 64) (w / 64) _ _ (by omega) (by omega) fun tie => digit_lt v w _ _ less tie

theorem utf8_char_lt (c d : Char) (less : c < d) (after other : List Nat) : utf8Char c ++ after < utf8Char d ++ other := by
  rw [utf8_char_code, utf8_char_code]
  exact code_bytes_lt _ _ less after other

theorem utf8_cons (c : Char) (rest : Text) : utf8 (c :: rest) = utf8Char c ++ utf8 rest := List.flatMap_cons

theorem append_lt (front left right : List Nat) (less : left < right) : front ++ left < front ++ right := by
  induction front with
  | nil => exact less
  | cons byte rest ih => exact List.cons_lt_cons_iff.mpr (.inr ⟨rfl, ih⟩)

theorem utf8_char_nonempty (c : Char) : utf8Char c ≠ [] := by
  rw [utf8_char_code, codeBytes]
  split <;> (try split) <;> (try split) <;> exact List.cons_ne_nil _ _

theorem utf8_strict : StrictMono utf8 := by
  intro left right less
  induction left generalizing right with
  | nil =>
    cases right with
    | nil => exact absurd less (lt_irrefl _)
    | cons d rest =>
      rw [utf8_cons]
      obtain ⟨byte, more, encoded⟩ := List.exists_cons_of_ne_nil (utf8_char_nonempty d)
      rw [encoded]
      exact List.nil_lt_cons byte _
  | cons c rest ih =>
    cases right with
    | nil => exact absurd less (List.not_lt_nil _)
    | cons d others =>
      rw [utf8_cons, utf8_cons]
      rcases List.cons_lt_cons_iff.mp less with first | ⟨rfl, later⟩
      · exact utf8_char_lt c d first _ _
      · exact append_lt _ _ _ (ih later)

end Utf8Lib
