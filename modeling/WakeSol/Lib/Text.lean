import Mathlib.Data.List.DropRight
import Mathlib.Data.Nat.Digits.Lemmas

/- Text as a sequence of Unicode scalar values, with the string operations of
   the Rust standard library that a line-oriented parser needs. Whitespace is
   the White_Space property, as char::is_whitespace has it. -/
set_option autoImplicit false

namespace TextLib

abbrev Text := List Char

instance : LawfulBEq Text := inferInstance

def isWhitespace (c : Char) : Bool :=
  let n := c.toNat
  (9 ≤ n && n ≤ 13) || n == 0x20 || n == 0x85 || n == 0xA0 || n == 0x1680 ||
    (0x2000 ≤ n && n ≤ 0x200A) || n == 0x2028 || n == 0x2029 || n == 0x202F || n == 0x205F || n == 0x3000

def trim (l : Text) : Text := (l.dropWhile isWhitespace).rdropWhile isWhitespace

def wordsFrom : Text → Text → List Text
  | word, [] => if word = [] then [] else [word]
  | word, c :: rest =>
    if isWhitespace c then
      if word = [] then wordsFrom [] rest else word :: wordsFrom [] rest
    else wordsFrom (word ++ [c]) rest

def splitWhitespace (l : Text) : List Text := wordsFrom [] l

def stripPrefix (pfx l : Text) : Option Text :=
  if pfx.isPrefixOf l then some (l.drop pfx.length) else none

def splitOnce (pat : Text) : Text → Option (Text × Text)
  | [] => if pat = [] then some ([], []) else none
  | c :: rest =>
    if pat.isPrefixOf (c :: rest) then some ([], (c :: rest).drop pat.length)
    else (splitOnce pat rest).map fun pair => (c :: pair.1, pair.2)

def Solid (l : Text) : Prop := ∀ c ∈ l, isWhitespace c = false

def Trimmed (l : Text) : Prop := trim l = l

instance (l : Text) : Decidable (Solid l) :=
  decidable_of_iff (l.all (fun c => !isWhitespace c) = true) (by simp [Solid])
instance (l : Text) : Decidable (Trimmed l) := inferInstanceAs (Decidable (trim l = l))

theorem trim_ends (first last : Char) (middle : Text) (solidFirst : isWhitespace first = false)
    (solidLast : isWhitespace last = false) : trim (first :: (middle ++ [last])) = first :: (middle ++ [last]) := by
  have front : (first :: (middle ++ [last])).dropWhile isWhitespace = first :: (middle ++ [last]) := by
    simp [solidFirst]
  rw [trim, front, ← List.cons_append, List.rdropWhile_concat_neg _ _ _ (by simp [solidLast])]

theorem trimmed_last (l : Text) (trimmed : Trimmed l) (nonempty : l ≠ []) : isWhitespace (l.getLast nonempty) = false := by
  have lengths : l.length ≤ (l.dropWhile isWhitespace).length := by
    calc l.length = (trim l).length := by rw [trimmed]
      _ ≤ (l.dropWhile isWhitespace).length := (List.rdropWhile_prefix isWhitespace _).length_le
  have kept : l.dropWhile isWhitespace = l := (List.dropWhile_suffix isWhitespace).eq_of_length_le lengths
  have same : l.rdropWhile isWhitespace = l := by
    have eq : trim l = l := trimmed
    rwa [trim, kept] at eq
  simpa using List.rdropWhile_eq_self_iff.mp same nonempty

theorem trim_append (front back : Text) (head : Char) (solidHead : isWhitespace head = false)
    (nonempty : back ≠ []) (trimmed : Trimmed back) : trim (head :: (front ++ back)) = head :: (front ++ back) := by
  have solidLast := trimmed_last back trimmed nonempty
  rw [← List.dropLast_append_getLast nonempty, ← List.append_assoc]
  exact trim_ends head _ (front ++ back.dropLast) solidHead solidLast

theorem trim_blank_end (front : Text) (head c : Char) (solidHead : isWhitespace head = false)
    (blank : isWhitespace c = true) : trim (head :: (front ++ [c])) = trim (head :: front) := by
  have whole : (head :: (front ++ [c])).dropWhile isWhitespace = (head :: front) ++ [c] := by simp [solidHead]
  have short : (head :: front).dropWhile isWhitespace = head :: front := by simp [solidHead]
  rw [trim, trim, whole, short, List.rdropWhile_concat_pos _ _ _ blank]

theorem solid_trimmed (word : Text) (solid : Solid word) : Trimmed word := by
  have front : word.dropWhile isWhitespace = word := by
    rw [List.dropWhile_eq_self_iff]
    intro bound
    simp [solid _ (List.getElem_mem bound)]
  have back : word.rdropWhile isWhitespace = word := by
    rw [List.rdropWhile_eq_self_iff]
    intro nonempty
    simp [solid _ (List.getLast_mem nonempty)]
  rw [Trimmed, trim, front, back]

theorem words_from_solid (word solid rest : Text) (c : Char) (blank : isWhitespace c = true)
    (isSolid : Solid solid) (nonempty : word ++ solid ≠ []) :
    wordsFrom word (solid ++ c :: rest) = (word ++ solid) :: wordsFrom [] rest := by
  induction solid generalizing word with
  | nil =>
    have present : word ≠ [] := by simpa using nonempty
    simp [wordsFrom, blank, present]
  | cons head tail ih =>
    have solidHead : isWhitespace head = false := isSolid head (by simp)
    rw [List.cons_append, wordsFrom, if_neg (by simp [solidHead]),
      ih (word ++ [head]) (fun d member => isSolid d (by simp [member])) (by simp)]
    simp

theorem words_from_end (word solid : Text) (isSolid : Solid solid) (nonempty : word ++ solid ≠ []) :
    wordsFrom word solid = [word ++ solid] := by
  induction solid generalizing word with
  | nil =>
    have present : word ≠ [] := by simpa using nonempty
    simp [wordsFrom, present]
  | cons head tail ih =>
    have solidHead : isWhitespace head = false := isSolid head (by simp)
    rw [wordsFrom, if_neg (by simp [solidHead]),
      ih (word ++ [head]) (fun d member => isSolid d (by simp [member])) (by simp)]
    simp

theorem split_whitespace_cons (word rest : Text) (nonempty : word ≠ []) (solid : Solid word) :
    splitWhitespace (word ++ ' ' :: rest) = word :: splitWhitespace rest := by
  simpa [splitWhitespace] using words_from_solid [] word rest ' ' (by decide) solid (by simpa using nonempty)

theorem split_whitespace_word (word : Text) (nonempty : word ≠ []) (solid : Solid word) :
    splitWhitespace word = [word] := by
  simpa [splitWhitespace] using words_from_end [] word solid (by simpa using nonempty)

theorem strip_prefix_append (pfx rest : Text) : stripPrefix pfx (pfx ++ rest) = some rest := by
  have isPrefix : pfx.isPrefixOf (pfx ++ rest) = true := by simp
  simp [stripPrefix]

theorem strip_prefix_none (pfx l : Text) (absent : ¬ pfx <+: l) : stripPrefix pfx l = none := by
  simp [stripPrefix, absent]

-- No occurrence of the pattern can start inside a word that avoids the mark,
-- because the blank after the word falls before the pattern's own blank.
theorem pattern_not_in_word (core word rest : Text) (mark : Char) (solidCore : Solid core)
    (solidMark : isWhitespace mark = false) (avoids : mark ∉ word) :
    ¬ (core ++ [mark, ' ']) <+: (word ++ ' ' :: rest) := by
  rintro ⟨suffix, eq⟩
  rcases List.append_eq_append_iff.mp (show core ++ ([mark, ' '] ++ suffix) = word ++ ' ' :: rest by simpa using eq) with
    ⟨gap, wordEq, tailEq⟩ | ⟨gap, coreEq, tailEq⟩
  · cases gap with
    | nil =>
      simp only [List.nil_append, List.cons_append, List.cons.injEq] at tailEq
      exact absurd solidMark (by rw [tailEq.1]; decide)
    | cons head tail =>
      simp only [List.cons_append, List.cons.injEq] at tailEq
      exact avoids (by rw [wordEq, tailEq.1]; simp)
  · cases gap with
    | nil =>
      simp only [List.nil_append, List.cons_append, List.cons.injEq] at tailEq
      exact absurd solidMark (by rw [← tailEq.1]; decide)
    | cons head tail =>
      simp only [List.cons_append, List.cons.injEq] at tailEq
      have blank := solidCore head (by rw [coreEq]; simp)
      rw [← tailEq.1] at blank
      exact absurd blank (by decide)

theorem split_once_word (core word rest : Text) (mark : Char) (solidCore : Solid core)
    (solidMark : isWhitespace mark = false) (avoids : mark ∉ word) :
    splitOnce (core ++ [mark, ' ']) (word ++ ' ' :: rest) =
      (splitOnce (core ++ [mark, ' ']) rest).map fun pair => (word ++ ' ' :: pair.1, pair.2) := by
  induction word with
  | nil =>
    have absent := pattern_not_in_word core [] rest mark solidCore solidMark avoids
    simp only [List.nil_append] at absent ⊢
    rw [splitOnce, if_neg (by simpa using absent)]
  | cons head tail ih =>
    have absent := pattern_not_in_word core (head :: tail) rest mark solidCore solidMark avoids
    rw [List.cons_append] at absent ⊢
    rw [splitOnce, if_neg (by simpa using absent), ih (fun member => avoids (by simp [member]))]
    simp [Function.comp_def]

theorem split_once_here (pat rest : Text) (nonempty : pat ≠ []) : splitOnce pat (pat ++ rest) = some ([], rest) := by
  cases pat with
  | nil => exact absurd rfl nonempty
  | cons head tail =>
    rw [List.cons_append, splitOnce, if_pos (by simp)]
    simp

theorem split_once_char (c : Char) (word rest : Text) (avoids : c ∉ word) :
    splitOnce [c] (word ++ c :: rest) = some (word, rest) := by
  induction word with
  | nil => simp [splitOnce]
  | cons head tail ih =>
    have different : c ≠ head := fun same => avoids (by simp [same])
    rw [List.cons_append, splitOnce, if_neg (by simpa using different), ih (fun member => avoids (by simp [member]))]
    rfl

theorem split_once_char_none (c : Char) (word : Text) (avoids : c ∉ word) : splitOnce [c] word = none := by
  induction word with
  | nil => simp [splitOnce]
  | cons head tail ih =>
    have different : c ≠ head := fun same => avoids (by simp [same])
    rw [splitOnce, if_neg (by simpa using different), ih (fun member => avoids (by simp [member]))]
    rfl

-- Decimal text of an unsigned number, and the parser that inverts it: an
-- optional plus sign, at least one digit, only digits, and no overflow.
def digitChar (d : Nat) : Char := Char.ofNat (48 + d)

def decimal (n : Nat) : Text :=
  if n = 0 then ['0'] else ((Nat.digits 10 n).map digitChar).reverse

def digitValue (c : Char) : Option Nat :=
  if 48 ≤ c.toNat && c.toNat ≤ 57 then some (c.toNat - 48) else none

def digitsValue (acc : Nat) : Text → Option Nat
  | [] => some acc
  | c :: rest => (digitValue c).bind fun d => digitsValue (acc * 10 + d) rest

def dropPlus (l : Text) : Text := if l.head? = some '+' then l.tail else l

def parseUnsigned (bits : Nat) (l : Text) : Option Nat :=
  if dropPlus l = [] then none
  else (digitsValue 0 (dropPlus l)).bind fun n => if n < 2 ^ bits then some n else none

section Numeral

variable (base : Nat) (digit : Nat → Char) (value : Char → Option Nat)

def numeral (n : Nat) : Text := if n = 0 then [digit 0] else ((Nat.digits base n).map digit).reverse

def readDigits (acc : Nat) : Text → Option Nat
  | [] => some acc
  | c :: rest => (value c).bind fun d => readDigits (acc * base + d) rest

def parseRadix (bits : Nat) (l : Text) : Option Nat :=
  if dropPlus l = [] then none
  else (readDigits base value 0 (dropPlus l)).bind fun n => if n < 2 ^ bits then some n else none

theorem read_digits_append (left right : Text) (acc : Nat) :
    readDigits base value acc (left ++ right) = (readDigits base value acc left).bind fun n => readDigits base value n right := by
  induction left generalizing acc with
  | nil => rfl
  | cons head tail ih =>
    cases found : value head with
    | none => simp [readDigits, found]
    | some d => simp [readDigits, found, ih]

theorem numeral_nonempty (n : Nat) : numeral base digit n ≠ [] := by
  by_cases zero : n = 0
  · simp [numeral, zero]
  · simp [numeral, zero, Nat.digits_ne_nil_iff_ne_zero]

variable {base digit value}

theorem numeral_mem (large : 1 < base) (n : Nat) (c : Char) (member : c ∈ numeral base digit n) :
    ∃ d, d < base ∧ digit d = c := by
  by_cases zero : n = 0
  · have same : c = digit 0 := by simpa [numeral, zero] using member
    exact ⟨0, by omega, same.symm⟩
  · have found : ∃ d ∈ Nat.digits base n, digit d = c := by simpa [numeral, zero] using member
    obtain ⟨d, present, same⟩ := found
    exact ⟨d, Nat.digits_lt_base large present, same⟩

variable (inverse : ∀ d, d < base → value (digit d) = some d)
include inverse

theorem read_digits_reverse (ds : List Nat) (small : ∀ d ∈ ds, d < base) :
    readDigits base value 0 ((ds.map digit).reverse) = some (Nat.ofDigits base ds) := by
  induction ds with
  | nil => rfl
  | cons d rest ih =>
    rw [List.map_cons, List.reverse_cons, read_digits_append, ih (fun e member => small e (by simp [member]))]
    simp only [Option.bind_some, readDigits, inverse d (small d (by simp)), Nat.ofDigits_cons]
    congr 1
    ring

theorem read_digits_numeral (large : 1 < base) (n : Nat) : readDigits base value 0 (numeral base digit n) = some n := by
  by_cases zero : n = 0
  · subst zero
    simp [numeral, readDigits, inverse 0 (by omega)]
  · rw [numeral, if_neg zero, read_digits_reverse inverse _ (fun d member => Nat.digits_lt_base large member),
      Nat.ofDigits_digits]

theorem numeral_no_plus (large : 1 < base) (noSign : value '+' = none) (n : Nat) :
    dropPlus (numeral base digit n) = numeral base digit n := by
  have first : (numeral base digit n).head? ≠ some '+' := by
    intro sign
    obtain ⟨rest, eq⟩ := List.head?_eq_some_iff.mp sign
    have read := read_digits_numeral inverse large n
    rw [eq] at read
    simp [readDigits, noSign] at read
  simp [dropPlus, first]

theorem parse_radix_numeral (large : 1 < base) (noSign : value '+' = none) (bits n : Nat) (fits : n < 2 ^ bits) :
    parseRadix base value bits (numeral base digit n) = some n := by
  simp [parseRadix, numeral_no_plus inverse large noSign, numeral_nonempty, read_digits_numeral inverse large, fits]

end Numeral

theorem digit_value_char (d : Nat) (small : d < 10) : digitValue (digitChar d) = some d := by
  interval_cases d <;> decide

theorem digit_char_solid (d : Nat) (small : d < 10) : isWhitespace (digitChar d) = false := by
  interval_cases d <;> decide

theorem decimal_numeral (n : Nat) : decimal n = numeral 10 digitChar n := rfl

theorem digits_value_read (acc : Nat) (l : Text) : digitsValue acc l = readDigits 10 digitValue acc l := by
  induction l generalizing acc with
  | nil => rfl
  | cons c rest ih => simp only [digitsValue, readDigits, ih]

theorem parse_unsigned_radix (bits : Nat) (l : Text) : parseUnsigned bits l = parseRadix 10 digitValue bits l := by
  simp only [parseUnsigned, parseRadix, digits_value_read]

theorem decimal_nonempty (n : Nat) : decimal n ≠ [] := numeral_nonempty 10 digitChar n

theorem decimal_solid (n : Nat) : Solid (decimal n) := by
  intro c member
  obtain ⟨d, small, rfl⟩ := numeral_mem (by decide) n c member
  exact digit_char_solid d small

theorem parse_unsigned_decimal (bits n : Nat) (fits : n < 2 ^ bits) : parseUnsigned bits (decimal n) = some n := by
  rw [parse_unsigned_radix, decimal_numeral]
  exact parse_radix_numeral digit_value_char (by decide) (by decide) bits n fits

def hexChar (d : Nat) : Char := if d < 10 then digitChar d else Char.ofNat (87 + d)

def hexValue (c : Char) : Option Nat :=
  if 48 ≤ c.toNat ∧ c.toNat ≤ 57 then some (c.toNat - 48)
  else if 97 ≤ c.toNat ∧ c.toNat ≤ 102 then some (c.toNat - 87)
  else if 65 ≤ c.toNat ∧ c.toNat ≤ 70 then some (c.toNat - 55)
  else none

def hexadecimal (n : Nat) : Text := numeral 16 hexChar n

theorem hex_value_char (d : Nat) (small : d < 16) : hexValue (hexChar d) = some d := by
  interval_cases d <;> decide

theorem hexadecimal_solid (n : Nat) : Solid (hexadecimal n) := by
  intro c member
  obtain ⟨d, small, rfl⟩ := numeral_mem (by decide) n c member
  interval_cases d <;> decide

theorem parse_hexadecimal (bits n : Nat) (fits : n < 2 ^ bits) : parseRadix 16 hexValue bits (hexadecimal n) = some n :=
  parse_radix_numeral hex_value_char (by decide) (by decide) bits n fits

end TextLib
