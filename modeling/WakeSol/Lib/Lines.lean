import WakeSol.Lib.Text

/- Text cut into lines and numbers read from it, as the str and int of Python do. -/
set_option autoImplicit false

namespace LinesLib

open TextLib

def isLineBreak (c : Char) : Bool :=
  let n := c.toNat
  (10 ≤ n && n ≤ 13) || (0x1C ≤ n && n ≤ 0x1E) || n == 0x85 || n == 0x2028 || n == 0x2029

def isBlank (c : Char) : Bool := isWhitespace c || (0x1C ≤ c.toNat && c.toNat ≤ 0x1F)

def strip (l : Text) : Text := (l.dropWhile isBlank).rdropWhile isBlank

-- The first argument is the line being read. A carriage return takes a line feed
-- with it, and the end of the text ends a line only if there is one.
def splitLinesFrom (line : Text) : Text → List Text
  | [] => if line = [] then [] else [line]
  | '\r' :: '\n' :: rest => line :: splitLinesFrom [] rest
  | c :: rest => if isLineBreak c then line :: splitLinesFrom [] rest else splitLinesFrom (line ++ [c]) rest

def splitLines (l : Text) : List Text := splitLinesFrom [] l

def unlines (lines : List Text) : Text := lines.flatMap fun line => line ++ ['\n']

def joinLines (lines : List Text) : Text := ['\n'].intercalate lines ++ if lines = [] then [] else ['\n']

theorem join_lines_unlines (lines : List Text) : joinLines lines = unlines lines := by
  induction lines with
  | nil => rfl
  | cons line rest ih =>
    cases rest with
    | nil => simp [joinLines, unlines]
    | cons next more =>
      rw [joinLines, if_neg (List.cons_ne_nil _ _)] at ih ⊢
      rw [List.intercalate_cons_cons, List.append_assoc, List.append_assoc, ih]
      simp [unlines]

def Plain (line : Text) : Prop := ∀ c ∈ line, isLineBreak c = false

instance (line : Text) : Decidable (Plain line) := List.decidableBAll (fun c => isLineBreak c = false) line

theorem plain_append (left right : Text) : Plain (left ++ right) ↔ Plain left ∧ Plain right := by
  simp only [Plain, List.forall_mem_append]

theorem split_lines_plain (front line rest : Text) (plain : Plain line) :
    splitLinesFrom front (line ++ '\n' :: rest) = (front ++ line) :: splitLinesFrom [] rest := by
  induction line generalizing front with
  | nil =>
    have feed : isLineBreak '\n' = true := by decide
    rw [List.nil_append, List.append_nil, splitLinesFrom.eq_3 _ _ _ (by simp), if_pos feed]
  | cons c line ih =>
    have ordinary : isLineBreak c = false := plain c List.mem_cons_self
    have notReturn : c ≠ '\r' := by
      rintro rfl
      exact absurd ordinary (by decide)
    rw [List.cons_append, splitLinesFrom.eq_3 _ _ _ (fun _ same _ => notReturn same), if_neg (by simp [ordinary]),
      ih _ fun d inside => plain d (List.mem_cons_of_mem _ inside), List.append_assoc, List.singleton_append]

theorem split_unlines (lines : List Text) (plain : ∀ line ∈ lines, Plain line) : splitLines (unlines lines) = lines := by
  induction lines with
  | nil => rfl
  | cons line rest ih =>
    have others := ih fun other inside => plain other (List.mem_cons_of_mem _ inside)
    rw [splitLines] at others
    rw [unlines, List.flatMap_cons, List.append_assoc, List.singleton_append, splitLines,
      split_lines_plain [] line _ (plain line List.mem_cons_self), List.nil_append, ← unlines, others]

theorem strip_ends (first : Char) (rest : Text) (solidFirst : isBlank first = false)
    (solidLast : ∀ last, rest.getLast? = some last → isBlank last = false) : strip (first :: rest) = first :: rest := by
  rw [strip, List.dropWhile_cons_of_neg (by simp [solidFirst])]
  refine List.rdropWhile_eq_self_iff.mpr fun nonempty => ?_
  cases final : rest.getLast? with
  | none =>
    have empty := List.getLast?_eq_none_iff.mp final
    subst empty
    simp [solidFirst]
  | some last =>
    have solid := solidLast last final
    have isLast := List.getLast?_eq_some_getLast nonempty
    rw [List.getLast?_cons, final] at isLast
    rw [← Option.some.inj isLast]
    simp [solid]

def intText (n : Int) : Text := if n < 0 then '-' :: decimal n.natAbs else decimal n.natAbs

def takeSign : Text → Bool × Text
  | '-' :: rest => (true, rest)
  | '+' :: rest => (false, rest)
  | text => (false, text)

-- Digits with single underscores between them. The digits of other scripts are left
-- out.
def readDigitGroups (text : Text) : Option Nat :=
  let groups := text.splitOn '_'
  if [] ∈ groups then none else digitsValue 0 groups.flatten

def readInt (text : Text) : Option Int :=
  let signed := takeSign (strip text)
  (readDigitGroups signed.2).map fun n : Nat => if signed.1 then -(n : Int) else n

theorem digit_char_facts (d : Nat) (small : d < 10) : isBlank (digitChar d) = false ∧ isLineBreak (digitChar d) = false ∧
    digitChar d ≠ '-' ∧ digitChar d ≠ '+' ∧ digitChar d ≠ '_' ∧ digitChar d ≠ ',' := by
  interval_cases d <;> decide

theorem decimal_mem (n : Nat) (c : Char) (member : c ∈ decimal n) : ∃ d, d < 10 ∧ digitChar d = c :=
  numeral_mem (by decide) n c member

theorem decimal_cons (n : Nat) : ∃ first rest, decimal n = first :: rest :=
  List.exists_cons_of_ne_nil (decimal_nonempty n)

theorem int_text_mem (n : Int) (c : Char) (member : c ∈ intText n) : c = '-' ∨ ∃ d, d < 10 ∧ digitChar d = c := by
  rw [intText] at member
  split at member
  · rcases List.mem_cons.mp member with sign | digit
    · exact .inl sign
    · exact .inr (decimal_mem _ c digit)
  · exact .inr (decimal_mem _ c member)

theorem int_text_plain (n : Int) : Plain (intText n) := by
  intro c member
  rcases int_text_mem n c member with rfl | ⟨d, small, rfl⟩
  · decide
  · exact (digit_char_facts d small).2.1

theorem int_text_no_comma (n : Int) : ',' ∉ intText n := by
  intro member
  rcases int_text_mem n ',' member with sign | ⟨d, small, same⟩
  · exact absurd sign (by decide)
  · exact (digit_char_facts d small).2.2.2.2.2 same

theorem int_text_solid (n : Int) (c : Char) (member : c ∈ intText n) : isBlank c = false := by
  rcases int_text_mem n c member with rfl | ⟨d, small, rfl⟩
  · decide
  · exact (digit_char_facts d small).1

theorem strip_int_text (n : Int) : strip (intText n) = intText n := by
  have shape : ∃ first rest, intText n = first :: rest := by
    rw [intText]
    split
    · exact ⟨_, _, rfl⟩
    · exact decimal_cons _
  obtain ⟨first, rest, text⟩ := shape
  rw [text]
  refine strip_ends first rest (int_text_solid n first (by simp [text])) fun last final => ?_
  exact int_text_solid n last (by simp [text, List.mem_of_getLast? final])

theorem decimal_value (n : Nat) : digitsValue 0 (decimal n) = some n := by
  rw [digits_value_read, decimal_numeral]
  exact read_digits_numeral digit_value_char (by decide) n

theorem read_decimal_groups (n : Nat) : readDigitGroups (decimal n) = some n := by
  have groups : (decimal n).splitOn '_' = [decimal n] := by
    refine List.splitOn_eq_singleton fun member => ?_
    obtain ⟨d, small, same⟩ := decimal_mem n '_' member
    exact (digit_char_facts d small).2.2.2.2.1 same
  rw [readDigitGroups, groups, if_neg (by simpa using (decimal_nonempty n).symm), List.flatten_singleton, decimal_value]

theorem take_sign_decimal (n : Nat) : takeSign (decimal n) = (false, decimal n) := by
  obtain ⟨first, rest, text⟩ := decimal_cons n
  obtain ⟨d, small, isFirst⟩ := decimal_mem n first (by simp [text])
  obtain ⟨-, -, notMinus, notPlus, -, -⟩ := digit_char_facts d small
  rw [isFirst] at notMinus notPlus
  rw [text]
  exact takeSign.eq_3 _ (fun _ same => notMinus (List.cons.inj same).1) fun _ same => notPlus (List.cons.inj same).1

theorem read_int_text (n : Int) : readInt (intText n) = some n := by
  rw [readInt, strip_int_text, intText]
  by_cases negative : n < 0
  · rw [if_pos negative, takeSign, read_decimal_groups, Option.map_some, if_pos rfl]
    congr 1
    omega
  · rw [if_neg negative, take_sign_decimal, read_decimal_groups, Option.map_some, if_neg (by simp)]
    congr 1
    omega

end LinesLib
