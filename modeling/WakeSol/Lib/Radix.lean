import Mathlib.Data.List.GetD
import WakeSol.Lib.Text

/- Base64 with the standard alphabet and canonical padding, and Base58 with the
   Bitcoin alphabet. Both are total encoders; the Base64 decoder refuses every
   text the encoder cannot have produced. -/
set_option autoImplicit false

namespace RadixLib

open TextLib

abbrev Bytes := List UInt8

def base64Alphabet : Text := "ABCDEFGHIJKLMNOPQRSTUVWXYZabcdefghijklmnopqrstuvwxyz0123456789+/".toList

def sextetChar (n : Nat) : Char := base64Alphabet.getD n 'A'

def sextetValue (c : Char) : Option Nat := base64Alphabet.idxOf? c

def encode64 : Bytes → Text
  | [] => []
  | [x] => [sextetChar (x.toNat / 4), sextetChar (x.toNat % 4 * 16), '=', '=']
  | [x, y] =>
    [sextetChar (x.toNat / 4), sextetChar (x.toNat % 4 * 16 + y.toNat / 16), sextetChar (y.toNat % 16 * 4), '=']
  | x :: y :: z :: rest =>
    sextetChar (x.toNat / 4) :: sextetChar (x.toNat % 4 * 16 + y.toNat / 16) ::
      sextetChar (y.toNat % 16 * 4 + z.toNat / 64) :: sextetChar (z.toNat % 64) :: encode64 rest

def joinSextets (a b c d : Nat) : Bytes :=
  [UInt8.ofNat (a * 4 + b / 16), UInt8.ofNat (b % 16 * 16 + c / 4), UInt8.ofNat (c % 4 * 64 + d)]

-- The final quantum may be padded; its unused bits have to be zero.
def decodeQuantum (a b c d : Char) (final : Bool) : Option Bytes :=
  (sextetValue a).bind fun va => (sextetValue b).bind fun vb =>
    if final && c == '=' && d == '=' then
      if vb % 16 = 0 then some ((joinSextets va vb 0 0).take 1) else none
    else (sextetValue c).bind fun vc =>
      if final && d == '=' then
        if vc % 4 = 0 then some ((joinSextets va vb vc 0).take 2) else none
      else (sextetValue d).map fun vd => joinSextets va vb vc vd

def decode64 : Text → Option Bytes
  | [] => some []
  | a :: b :: c :: d :: rest =>
    (decodeQuantum a b c d rest.isEmpty).bind fun head => (decode64 rest).map fun tail => head ++ tail
  | _ => none

variable (n : Nat)

theorem sextet_value_char (small : n < 64) : sextetValue (sextetChar n) = some n := by
  have all : ∀ m : Fin 64, sextetValue (sextetChar m) = some m.val := by decide +kernel
  exact all ⟨n, small⟩

theorem sextet_char_solid : isWhitespace (sextetChar n) = false := by
  by_cases small : n < 64
  · have all : ∀ m : Fin 64, isWhitespace (sextetChar m) = false := by decide +kernel
    exact all ⟨n, small⟩
  · have past : base64Alphabet.length ≤ n := by
      have size : base64Alphabet.length = 64 := by decide
      omega
    rw [sextetChar, List.getD_eq_default _ _ past]
    decide

theorem sextet_char_not_pad (small : n < 64) : (sextetChar n == '=') = false := by
  have all : ∀ m : Fin 64, (sextetChar m == '=') = false := by decide +kernel
  exact all ⟨n, small⟩

theorem byte_of_parts (x : UInt8) (n : Nat) (same : n = x.toNat) : UInt8.ofNat n = x := by
  rw [same, UInt8.ofNat_toNat]

theorem join_split (x y z : UInt8) :
    joinSextets (x.toNat / 4) (x.toNat % 4 * 16 + y.toNat / 16) (y.toNat % 16 * 4 + z.toNat / 64) (z.toNat % 64) =
      [x, y, z] := by
  have boundX := x.toNat_lt
  have boundY := y.toNat_lt
  have boundZ := z.toNat_lt
  simp only [joinSextets]
  rw [byte_of_parts x _ (by omega), byte_of_parts y _ (by omega), byte_of_parts z _ (by omega)]

variable (bytes : Bytes)

theorem decode_encode64 : decode64 (encode64 bytes) = some bytes := by
  induction bytes using encode64.induct with
  | case1 => rfl
  | case2 x =>
    have bound := x.toNat_lt
    have joined := join_split x 0 0
    simp only [UInt8.toNat_zero, Nat.zero_div, Nat.add_zero, Nat.zero_mod, Nat.zero_mul] at joined
    have padded : x.toNat % 4 * 16 % 16 = 0 := by omega
    simp only [encode64, decode64, decodeQuantum, sextet_value_char _ (show x.toNat / 4 < 64 by omega),
      sextet_value_char _ (show x.toNat % 4 * 16 < 64 by omega), Option.bind_some, List.isEmpty_nil, Bool.true_and,
      beq_self_eq_true, if_true, padded, joined]
    rfl
  | case3 x y =>
    have boundX := x.toNat_lt
    have boundY := y.toNat_lt
    have joined := join_split x y 0
    simp only [UInt8.toNat_zero, Nat.zero_div, Nat.add_zero, Nat.zero_mod] at joined
    have padded : y.toNat % 16 * 4 % 4 = 0 := by omega
    simp only [encode64, decode64, decodeQuantum, sextet_value_char _ (show x.toNat / 4 < 64 by omega),
      sextet_value_char _ (show x.toNat % 4 * 16 + y.toNat / 16 < 64 by omega),
      sextet_value_char _ (show y.toNat % 16 * 4 < 64 by omega),
      sextet_char_not_pad _ (show y.toNat % 16 * 4 < 64 by omega), Option.bind_some, List.isEmpty_nil, Bool.true_and,
      Bool.false_and, Bool.and_false, beq_self_eq_true, if_true, padded, joined]
    rfl
  | case4 x y z rest ih =>
    have boundX := x.toNat_lt
    have boundY := y.toNat_lt
    have boundZ := z.toNat_lt
    simp only [encode64, decode64, decodeQuantum, sextet_value_char _ (show x.toNat / 4 < 64 by omega),
      sextet_value_char _ (show x.toNat % 4 * 16 + y.toNat / 16 < 64 by omega),
      sextet_value_char _ (show y.toNat % 16 * 4 + z.toNat / 64 < 64 by omega),
      sextet_value_char _ (show z.toNat % 64 < 64 by omega),
      sextet_char_not_pad _ (show z.toNat % 64 < 64 by omega), Option.bind_some, Bool.and_false,
      Bool.false_eq_true, if_false, Option.map_some, join_split, ih]
    rfl

theorem encode64_solid : Solid (encode64 bytes) := by
  induction bytes using encode64.induct with
  | case1 => simp [Solid, encode64]
  | case2 x =>
    intro c member
    simp only [encode64, List.mem_cons, List.not_mem_nil, or_false] at member
    rcases member with rfl | rfl | rfl | rfl
    · exact sextet_char_solid _
    · exact sextet_char_solid _
    · decide
    · decide
  | case3 x y =>
    intro c member
    simp only [encode64, List.mem_cons, List.not_mem_nil, or_false] at member
    rcases member with rfl | rfl | rfl | rfl
    · exact sextet_char_solid _
    · exact sextet_char_solid _
    · exact sextet_char_solid _
    · decide
  | case4 x y z rest ih =>
    intro c member
    simp only [encode64, List.mem_cons] at member
    rcases member with rfl | rfl | rfl | rfl | later
    · exact sextet_char_solid _
    · exact sextet_char_solid _
    · exact sextet_char_solid _
    · exact sextet_char_solid _
    · exact ih c later

theorem encode64_nonempty (nonempty : bytes ≠ []) : encode64 bytes ≠ [] := by
  induction bytes using encode64.induct with
  | case1 => exact absurd rfl nonempty
  | case2 x => simp [encode64]
  | case3 x y => simp [encode64]
  | case4 x y z rest ih => simp [encode64]

def base58Alphabet : Text := "123456789ABCDEFGHJKLMNPQRSTUVWXYZabcdefghijkmnopqrstuvwxyz".toList

def bigEndian (bytes : Bytes) : Nat := bytes.foldl (fun n b => n * 256 + b.toNat) 0

def base58Char (d : Nat) : Char := base58Alphabet.getD d '1'

-- Each leading zero byte is written as the zero digit; the rest is the number.
def base58 (bytes : Bytes) : Text :=
  List.replicate (bytes.takeWhile (· == 0)).length '1' ++ ((Nat.digits 58 (bigEndian bytes)).map base58Char).reverse

def base58Decode (text : Text) : Option Bytes :=
  (text.mapM fun c => base58Alphabet.idxOf? c).map fun digits =>
    List.replicate (text.takeWhile (· == '1')).length 0 ++
      ((Nat.digits 256 (digits.foldl (fun n d => n * 58 + d) 0)).map UInt8.ofNat).reverse

theorem base58_char_mem (d : Nat) : base58Char d ∈ base58Alphabet := by
  by_cases small : d < base58Alphabet.length
  · rw [base58Char, List.getD_eq_getElem _ _ small]
    exact List.getElem_mem small
  · rw [base58Char, List.getD_eq_default _ _ (Nat.le_of_not_lt small)]
    decide

theorem base58_mem (c : Char) (member : c ∈ base58 bytes) : c ∈ base58Alphabet := by
  rcases List.mem_append.mp member with zeros | digits
  · rw [List.eq_of_mem_replicate zeros]
    decide
  · obtain ⟨d, _, rfl⟩ := List.mem_map.mp (List.mem_reverse.mp digits)
    exact base58_char_mem d

theorem base58_solid : Solid (base58 bytes) := by
  intro c member
  have all : Solid base58Alphabet := by decide
  exact all c (base58_mem bytes c member)

theorem base58_avoids (c : Char) (foreign : c ∉ base58Alphabet) : c ∉ base58 bytes :=
  fun member => foreign (base58_mem bytes c member)

theorem big_endian_from (acc : Nat) : acc * 256 ^ bytes.length ≤ bytes.foldl (fun n b => n * 256 + b.toNat) acc := by
  induction bytes generalizing acc with
  | nil => simp
  | cons head tail ih =>
    calc acc * 256 ^ (tail.length + 1) = acc * 256 * 256 ^ tail.length := by ring
      _ ≤ (acc * 256 + head.toNat) * 256 ^ tail.length := Nat.mul_le_mul_right _ (Nat.le_add_right _ _)
      _ ≤ _ := ih (acc * 256 + head.toNat)

theorem base58_digits_length (head : UInt8) (tail : Bytes) (leading : head ≠ 0) :
    tail.length < (Nat.digits 58 (bigEndian (head :: tail))).length := by
  have positive : 1 ≤ head.toNat := by
    rcases Nat.eq_zero_or_pos head.toNat with zero | pos
    · exact absurd (UInt8.toNat_inj.mp zero) leading
    · exact pos
  have large : 256 ^ tail.length ≤ bigEndian (head :: tail) := by
    have start : bigEndian (head :: tail) = tail.foldl (fun n b => n * 256 + b.toNat) head.toNat := by
      simp [bigEndian]
    rw [start]
    exact Nat.le_trans (Nat.le_mul_of_pos_left _ positive) (big_endian_from tail head.toNat)
  rw [Nat.lt_digits_length_iff (by decide)]
  exact Nat.le_trans (Nat.pow_le_pow_left (by decide) _) large

theorem base58_length : bytes.length ≤ (base58 bytes).length := by
  induction bytes with
  | nil => simp
  | cons head tail ih =>
    by_cases leading : head = 0
    · subst leading
      have shorter : bigEndian (0 :: tail) = bigEndian tail := by simp [bigEndian]
      simp only [base58, shorter, List.takeWhile_cons_of_pos, beq_self_eq_true, List.length_append, List.length_cons,
        List.length_replicate] at ih ⊢
      omega
    · have digits := base58_digits_length head tail leading
      have noZero : (head :: tail).takeWhile (· == 0) = [] := by simp [leading]
      simp only [base58, noZero, List.length_append, List.length_nil, List.length_replicate, List.length_reverse,
        List.length_map, List.length_cons]
      omega

theorem fold_reverse_digits (base : Nat) (ds : List Nat) :
    ds.reverse.foldl (fun n d => n * base + d) 0 = Nat.ofDigits base ds := by
  rw [List.foldl_reverse, Nat.ofDigits_eq_foldr]
  congr 1
  funext d n
  simp [Nat.mul_comm, Nat.add_comm]

theorem big_endian_of_digits : bigEndian bytes = Nat.ofDigits 256 (bytes.map UInt8.toNat).reverse := by
  rw [← fold_reverse_digits, List.reverse_reverse, List.foldl_map]
  rfl

theorem big_endian_zeros (rest : Bytes) : bigEndian (List.replicate n 0 ++ rest) = bigEndian rest := by
  induction n with
  | zero => rfl
  | succ k ih => simpa [List.replicate_succ, bigEndian] using ih

theorem leading_zeros : List.replicate (bytes.takeWhile (· == 0)).length 0 ++ bytes.dropWhile (· == 0) = bytes := by
  have same : bytes.takeWhile (· == 0) = List.replicate (bytes.takeWhile (· == 0)).length 0 := by
    rw [List.eq_replicate_iff]
    refine ⟨rfl, fun b inside => ?_⟩
    simpa using List.mem_takeWhile_imp inside
  rw [← same, List.takeWhile_append_dropWhile]

theorem digits_big_endian (head : UInt8) (tail : Bytes) (leading : head ≠ 0) :
    (Nat.digits 256 (bigEndian (head :: tail))).map UInt8.ofNat = (head :: tail).reverse := by
  rw [big_endian_of_digits, Nat.digits_ofDigits 256 (by decide)]
  · rw [List.map_reverse, List.map_map]
    congr 1
    rw [List.map_congr_left (g := id) fun b _ => by simp]
    simp
  · intro d inside
    obtain ⟨b, _, rfl⟩ := List.mem_map.mp (List.mem_reverse.mp inside)
    exact b.toNat_lt
  · intro nonempty
    simp only [List.map_cons, List.reverse_cons, List.getLast_append_singleton]
    intro zero
    exact leading (UInt8.toNat_inj.mp zero)

theorem base58_index (d : Nat) (small : d < 58) : base58Alphabet.idxOf? (base58Char d) = some d := by
  have all : ∀ d < 58, base58Alphabet.idxOf? (base58Char d) = some d := by decide +kernel
  exact all d small

theorem base58_char_one (d : Nat) (small : d < 58) (one : base58Char d = '1') : d = 0 := by
  have first := base58_index d small
  rw [one, show base58Alphabet.idxOf? '1' = some 0 by decide] at first
  exact (Option.some.inj first).symm

theorem map_m_self (f : Nat → Option Nat) (ds : List Nat) (each : ∀ d ∈ ds, f d = some d) : ds.mapM f = some ds := by
  induction ds with
  | nil => rfl
  | cons d rest ih =>
    rw [List.mapM_cons, each d (by simp), ih fun e inside => each e (by simp [inside])]
    rfl

theorem base58_values (zeros : Nat) (ds : List Nat) (small : ∀ d ∈ ds, d < 58) :
    (List.replicate zeros '1' ++ (ds.map base58Char).reverse).mapM (fun c => base58Alphabet.idxOf? c) =
      some (List.replicate zeros 0 ++ ds.reverse) := by
  have text : List.replicate zeros '1' ++ (ds.map base58Char).reverse =
      (List.replicate zeros 0 ++ ds.reverse).map base58Char := by
    rw [List.map_append, List.map_replicate, List.map_reverse]
    rfl
  have each : ∀ d ∈ List.replicate zeros 0 ++ ds.reverse, base58Alphabet.idxOf? (base58Char d) = some d := by
    intro d inside
    rcases List.mem_append.mp inside with zero | digit
    · rw [List.eq_of_mem_replicate zero]
      decide
    · exact base58_index d (small d (List.mem_reverse.mp digit))
  rw [text, List.mapM_map]
  exact map_m_self _ _ each

theorem base58_zeros (zeros : Nat) (ds : List Nat) (small : ∀ d ∈ ds, d < 58) (leading : ∀ last, ds.getLast? = some last → last ≠ 0) :
    ((List.replicate zeros '1' ++ (ds.map base58Char).reverse).takeWhile (· == '1')).length = zeros := by
  have stops : ((ds.map base58Char).reverse).takeWhile (· == '1') = [] := by
    rw [List.takeWhile_eq_nil_iff]
    intro bound first
    have head : (ds.map base58Char).reverse.head? = some '1' := by
      rw [List.head?_eq_getElem?, List.getElem?_eq_getElem bound]
      simpa using first
    rw [List.head?_reverse, List.getLast?_map, Option.map_eq_some_iff] at head
    obtain ⟨last, isLast, one⟩ := head
    exact leading last isLast (base58_char_one last (small last (List.mem_of_getLast? isLast)) one)
  rw [List.takeWhile_append_of_pos (by intro c inside; simp [List.eq_of_mem_replicate inside]), stops]
  simp

theorem base58_leading (n last : Nat) (isLast : (Nat.digits 58 n).getLast? = some last) : last ≠ 0 := by
  have nonempty : Nat.digits 58 n ≠ [] := by
    intro empty
    simp [empty] at isLast
  rw [List.getLast?_eq_some_getLast nonempty, Option.some.injEq] at isLast
  rw [← isLast]
  exact Nat.getLast_digit_ne_zero 58 (Nat.digits_ne_nil_iff_ne_zero.mp nonempty)

theorem fold_zeros : (List.replicate n 0).foldl (fun n d => n * 58 + d) 0 = 0 := by
  induction n with
  | zero => rfl
  | succ k ih => simpa [List.replicate_succ] using ih

theorem stripped_digits : ((Nat.digits 256 (bigEndian bytes)).map UInt8.ofNat).reverse = bytes.dropWhile (· == 0) := by
  have same : bigEndian bytes = bigEndian (bytes.dropWhile (· == 0)) := by
    have padded := big_endian_zeros (bytes.takeWhile (· == 0)).length (bytes.dropWhile (· == 0))
    rwa [leading_zeros] at padded
  rw [same]
  cases rest : bytes.dropWhile (· == 0) with
  | nil => simp [bigEndian]
  | cons head tail =>
    have leading : head ≠ 0 := by
      have first := List.head?_dropWhile_not (· == 0) bytes
      simpa [rest] using first
    rw [digits_big_endian head tail leading, List.reverse_reverse]

theorem base58_decode_encode : base58Decode (base58 bytes) = some bytes := by
  have small : ∀ d ∈ Nat.digits 58 (bigEndian bytes), d < 58 := fun d inside => Nat.digits_lt_base (by decide) inside
  rw [base58Decode, base58, base58_values _ _ small, base58_zeros _ _ small (base58_leading _), Option.map_some,
    List.foldl_append, fold_zeros, fold_reverse_digits, Nat.ofDigits_digits, stripped_digits, leading_zeros]

end RadixLib
