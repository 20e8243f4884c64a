import WakeSol.Coverage.Lcov
import WakeSol.Coverage.Resolve
import WakeSol.Lib.Lines
import WakeSol.Lib.Utf8

/- LCOV text: the reader, the two writers, and merging through files. The fixed words
   are spelled out as characters. -/
set_option autoImplicit false

namespace WakeSol.Coverage

open TextLib TallyLib DictLib LinesLib Utf8Lib

abbrev FileLines := Tally Text Int Int

def testKey : Text := ['T', 'N', ':']
def sourceKey : Text := ['S', 'F', ':']
def dataKey : Text := ['D', 'A', ':']
def foundKey : Text := ['L', 'F', ':']
def hitKey : Text := ['L', 'H', ':']
def endOfRecord : Text := ['e', 'n', 'd', '_', 'o', 'f', '_', 'r', 'e', 'c', 'o', 'r', 'd']

-- The record being read is an entry of the result, so its key stands for it.
structure LcovState where
  out : FileLines
  current : Option Text

def setDefault (files : FileLines) (path : Text) : FileLines := files.set path (row files path)

def addData (out : FileLines) (path body : Text) : FileLines :=
  let number := body.takeWhile (· ≠ ',')
  let count := (body.dropWhile (· ≠ ',')).tail.takeWhile (· ≠ ',')
  match readInt number, readInt count with
  | some n, some c => update out path n fun slot => slot.getD 0 + c
  | _, _ => out

def readRecordLine (state : LcovState) (raw : Text) : LcovState :=
  let line := strip raw
  match stripPrefix sourceKey line with
  | some path => ⟨setDefault state.out path, some path⟩
  | none =>
    match stripPrefix dataKey line, state.current with
    | some body, some path => { state with out := addData state.out path body }
    | _, _ => if line = endOfRecord then { state with current := none } else state

def parseLcov (text : Text) : FileLines := ((splitLines text).foldl readRecordLine ⟨.empty, none⟩).out

section keys

variable {κ α : Type} [LinearOrder κ] [DecidableEq κ]

def sortedKeys (dict : Dict κ α) : List κ := (dict.entries.map Prod.fst).insertionSort (· ≤ ·)

theorem sorted_keys_mem (dict : Dict κ α) (key : κ) : key ∈ sortedKeys dict ↔ (dict.get key).isSome = true := by
  rw [sortedKeys, List.mem_insertionSort, List.mem_map, Option.isSome_iff_exists]
  constructor
  · rintro ⟨entry, inside, rfl⟩
    exact ⟨entry.2, (get_iff dict _ _).mpr inside⟩
  · rintro ⟨value, found⟩
    exact ⟨(key, value), (get_iff dict _ _).mp found, rfl⟩

omit [DecidableEq κ] in
theorem sorted_keys_nodup (dict : Dict κ α) : (sortedKeys dict).Nodup :=
  (List.perm_insertionSort _ _).nodup_iff.mpr dict.distinct

theorem sorted_keys_congr {β : Type} (left : Dict κ α) (right : Dict κ β)
    (same : ∀ key, (left.get key).isSome = (right.get key).isSome) : sortedKeys left = sortedKeys right := by
  refine List.Perm.eq_of_pairwise (fun _ _ _ _ => le_antisymm) (List.pairwise_insertionSort _ _)
    (List.pairwise_insertionSort _ _) ?_
  rw [List.perm_ext_iff_of_nodup (sorted_keys_nodup left) (sorted_keys_nodup right)]
  intro key
  rw [sorted_keys_mem, sorted_keys_mem, same]

end keys

def dataLine (n count : Int) : Text := dataKey ++ intText n ++ ',' :: intText count

def recordLines (path : Text) (lines : Dict Int Int) : List Text :=
  testKey :: (sourceKey ++ path) :: (sortedKeys lines).map (fun n => dataLine n ((lines.get n).getD 0)) ++
    [foundKey ++ decimal lines.entries.length, hitKey ++ decimal (lines.entries.countP fun entry => entry.2 ≠ 0), endOfRecord]

def formatLcov (files : FileLines) : Text :=
  joinLines ((sortedKeys files).flatMap fun path => recordLines path (row files path))

def CleanPath (path : Text) : Prop := Plain path ∧ ∀ last, path.getLast? = some last → isBlank last = false

def Clean (files : FileLines) : Prop := ∀ path, (files.get path).isSome = true → CleanPath path

def SameMap (left right : FileLines) : Prop :=
  ∀ path, (left.get path).isSome = (right.get path).isSome ∧ ∀ n, cell left path n = cell right path n

theorem decimal_plain (n : Nat) : Plain (decimal n) := by
  intro c member
  obtain ⟨d, small, rfl⟩ := decimal_mem n c member
  exact (digit_char_facts d small).2.1

theorem decimal_last (n : Nat) (last : Char) (final : (decimal n).getLast? = some last) : isBlank last = false := by
  obtain ⟨d, small, rfl⟩ := decimal_mem n last (List.mem_of_getLast? final)
  exact (digit_char_facts d small).1

theorem data_line_plain (n count : Int) : Plain (dataLine n count) := by
  rw [dataLine, plain_append, plain_append]
  refine ⟨⟨by decide, int_text_plain n⟩, ?_⟩
  intro c member
  rcases List.mem_cons.mp member with rfl | digit
  · decide
  · exact int_text_plain count c digit

theorem record_lines_plain (path : Text) (lines : Dict Int Int) (plain : Plain path) :
    ∀ line ∈ recordLines path lines, Plain line := by
  intro line inside
  have parts : line = testKey ∨ line = sourceKey ++ path ∨ (∃ n count, line = dataLine n count) ∨
      (∃ n, line = foundKey ++ decimal n) ∨ (∃ n, line = hitKey ++ decimal n) ∨ line = endOfRecord := by
    simp only [recordLines, List.cons_append, List.mem_cons, List.mem_append, List.mem_map, List.not_mem_nil, or_false] at inside
    rcases inside with rfl | rfl | ⟨n, -, rfl⟩ | rfl | rfl | rfl
    · exact .inl rfl
    · exact .inr (.inl rfl)
    · exact .inr (.inr (.inl ⟨_, _, rfl⟩))
    · exact .inr (.inr (.inr (.inl ⟨_, rfl⟩)))
    · exact .inr (.inr (.inr (.inr (.inl ⟨_, rfl⟩))))
    · exact .inr (.inr (.inr (.inr (.inr rfl))))
  rcases parts with rfl | rfl | ⟨n, count, rfl⟩ | ⟨n, rfl⟩ | ⟨n, rfl⟩ | rfl
  · decide
  · exact (plain_append _ _).mpr ⟨by decide, plain⟩
  · exact data_line_plain n count
  · exact (plain_append _ _).mpr ⟨by decide, decimal_plain n⟩
  · exact (plain_append _ _).mpr ⟨by decide, decimal_plain n⟩
  · decide

theorem strip_keyed (c d : Char) (body : Text) (solid : isBlank c = false)
    (last : ∀ final, body.getLast? = some final → isBlank final = false) :
    strip (c :: d :: ':' :: body) = c :: d :: ':' :: body := by
  refine strip_ends c _ solid fun final isFinal => ?_
  rw [List.getLast?_cons, List.getLast?_cons] at isFinal
  cases ending : body.getLast? with
  | none =>
    have colon : ':' = final := by simpa [ending] using isFinal
    rw [← colon]
    decide
  | some given =>
    have same : given = final := by simpa [ending] using isFinal
    rw [← same]
    exact last given ending

theorem read_test_line (state : LcovState) : readRecordLine state testKey = state := by
  have line : strip testKey = testKey := by decide
  have noSource : stripPrefix sourceKey testKey = none := by decide
  have noData : stripPrefix dataKey testKey = none := by decide
  rw [readRecordLine, line, noSource, noData]
  exact if_neg (by decide)

theorem read_end_line (state : LcovState) : readRecordLine state endOfRecord = { state with current := none } := by
  have line : strip endOfRecord = endOfRecord := by decide
  have noSource : stripPrefix sourceKey endOfRecord = none := by decide
  have noData : stripPrefix dataKey endOfRecord = none := by decide
  rw [readRecordLine, line, noSource, noData]
  exact if_pos rfl

theorem read_count_line (state : LcovState) (d : Char) (n : Nat) : readRecordLine state ('L' :: d :: ':' :: decimal n) = state := by
  have line := strip_keyed 'L' d (decimal n) (by decide) (decimal_last n)
  have noSource : stripPrefix sourceKey ('L' :: d :: ':' :: decimal n) = none :=
    strip_prefix_none _ _ fun isPrefix => absurd (List.cons_prefix_cons.mp isPrefix).1 (by decide)
  have noData : stripPrefix dataKey ('L' :: d :: ':' :: decimal n) = none :=
    strip_prefix_none _ _ fun isPrefix => absurd (List.cons_prefix_cons.mp isPrefix).1 (by decide)
  rw [readRecordLine, line, noSource, noData]
  exact if_neg fun same => absurd (List.cons.inj same).1 (by decide)

theorem read_found_line (state : LcovState) (n : Nat) : readRecordLine state (foundKey ++ decimal n) = state :=
  read_count_line state 'F' n

theorem read_hit_line (state : LcovState) (n : Nat) : readRecordLine state (hitKey ++ decimal n) = state :=
  read_count_line state 'H' n

theorem read_source_line (state : LcovState) (path : Text) (clean : CleanPath path) :
    readRecordLine state (sourceKey ++ path) = ⟨setDefault state.out path, some path⟩ := by
  have line : strip (sourceKey ++ path) = sourceKey ++ path := strip_keyed 'S' 'F' path (by decide) clean.2
  rw [readRecordLine, line, strip_prefix_append]

theorem take_before_comma (n : Int) (rest : Text) : (intText n ++ ',' :: rest).takeWhile (· ≠ ',') = intText n ∧
    (intText n ++ ',' :: rest).dropWhile (· ≠ ',') = ',' :: rest := by
  have each : ∀ c ∈ intText n, (decide (c ≠ ',')) = true := by
    intro c member
    rw [decide_eq_true_eq]
    rintro rfl
    exact int_text_no_comma n member
  constructor
  · rw [List.takeWhile_append_of_pos each]
    simp
  · rw [List.dropWhile_append_of_pos each]
    simp

theorem int_text_last (n : Int) (last : Char) (final : (intText n).getLast? = some last) : isBlank last = false :=
  int_text_solid n last (List.mem_of_getLast? final)

theorem read_data_line (out : FileLines) (path : Text) (n count : Int) :
    readRecordLine ⟨out, some path⟩ (dataLine n count) = ⟨update out path n fun slot => slot.getD 0 + count, some path⟩ := by
  have ending : ∀ final, (intText n ++ ',' :: intText count).getLast? = some final → isBlank final = false := by
    intro final isFinal
    rw [List.getLast?_append_of_ne_nil _ (List.cons_ne_nil _ _), List.getLast?_cons] at isFinal
    cases last : (intText count).getLast? with
    | none =>
      have comma : ',' = final := by simpa [last] using isFinal
      rw [← comma]
      decide
    | some given =>
      have same : given = final := by simpa [last] using isFinal
      rw [← same]
      exact int_text_last count given last
  have shape : dataLine n count = dataKey ++ (intText n ++ ',' :: intText count) := by rw [dataLine, List.append_assoc]
  have line : strip (dataKey ++ (intText n ++ ',' :: intText count)) = dataKey ++ (intText n ++ ',' :: intText count) :=
    strip_keyed 'D' 'A' _ (by decide) ending
  have noSource : stripPrefix sourceKey (dataKey ++ (intText n ++ ',' :: intText count)) = none :=
    strip_prefix_none _ _ fun isPrefix => absurd (List.cons_prefix_cons.mp isPrefix).1 (by decide)
  have whole : (intText count).takeWhile (· ≠ ',') = intText count := by
    refine List.takeWhile_eq_self_iff.mpr fun c member => ?_
    rw [decide_eq_true_eq]
    rintro rfl
    exact int_text_no_comma count member
  rw [shape, readRecordLine, line, noSource, strip_prefix_append]
  dsimp only
  rw [addData, (take_before_comma n _).1, (take_before_comma n _).2, List.tail_cons, whole, read_int_text, read_int_text]

theorem read_data_lines (path : Text) (count : Int → Int) (numbers : List Int) (distinct : numbers.Nodup) (out : FileLines)
    (fresh : ∀ n ∈ numbers, cell out path n = none) :
    ∃ result, (numbers.map fun n => dataLine n (count n)).foldl readRecordLine ⟨out, some path⟩ = ⟨result, some path⟩ ∧
      (∀ other, other ≠ path → result.get other = out.get other) ∧
      ((out.get path).isSome = true → (result.get path).isSome = true) ∧
      ∀ n, cell result path n = if n ∈ numbers then some (count n) else cell out path n := by
  induction numbers generalizing out with
  | nil => exact ⟨out, rfl, fun _ _ => rfl, id, fun n => by simp⟩
  | cons n rest ih =>
    obtain ⟨notLater, others⟩ := List.nodup_cons.mp distinct
    have first := fresh n List.mem_cons_self
    obtain ⟨result, ran, apart, kept, cells⟩ := ih others (update out path n fun slot => slot.getD 0 + count n) (by
      intro m inside
      rw [cell_update, if_neg fun both : path = path ∧ m = n => notLater (both.2 ▸ inside)]
      exact fresh m (List.mem_cons_of_mem _ inside))
    refine ⟨result, ?_, ?_, ?_, ?_⟩
    · rw [List.map_cons, List.foldl_cons, read_data_line, ran]
    · intro other differs
      rw [apart other differs, update, get_set, if_neg differs]
    · intro _
      exact kept (by rw [update, get_set, if_pos rfl]; rfl)
    · intro m
      rw [cells m, cell_update]
      by_cases here : m = n
      · subst here
        simp [notLater, first]
      · simp [here]

theorem read_record (path : Text) (lines : Dict Int Int) (clean : CleanPath path) (state : LcovState)
    (fresh : state.out.get path = none) :
    ∃ result, (recordLines path lines).foldl readRecordLine state = ⟨result, none⟩ ∧
      (∀ other, other ≠ path → result.get other = state.out.get other) ∧ (result.get path).isSome = true ∧
      ∀ n, cell result path n = lines.get n := by
  have empty : ∀ n, cell (setDefault state.out path) path n = none := by
    intro n
    rw [setDefault, cell, row_set, if_pos rfl, row, fresh]
    rfl
  obtain ⟨result, ran, apart, kept, cells⟩ := read_data_lines path (fun n => (lines.get n).getD 0) (sortedKeys lines)
    (sorted_keys_nodup lines) (setDefault state.out path) fun n _ => empty n
  refine ⟨result, ?_, ?_, ?_, ?_⟩
  · rw [recordLines, List.cons_append, List.cons_append, List.foldl_cons, List.foldl_cons, List.foldl_append, read_test_line,
      read_source_line state path clean, ran, List.foldl_cons, List.foldl_cons, List.foldl_cons, List.foldl_nil,
      read_found_line, read_hit_line, read_end_line]
  · intro other differs
    rw [apart other differs, setDefault, get_set, if_neg differs]
  · exact kept (by rw [setDefault, get_set, if_pos rfl]; rfl)
  · intro n
    rw [cells n, empty n]
    by_cases known : n ∈ sortedKeys lines
    · obtain ⟨value, found⟩ := Option.isSome_iff_exists.mp ((sorted_keys_mem lines n).mp known)
      rw [if_pos known, found]
      rfl
    · have missing : lines.get n = none := by
        rw [← Option.not_isSome_iff_eq_none]
        exact mt (sorted_keys_mem lines n).mpr known
      rw [if_neg known, missing]

theorem read_records (content : Text → Dict Int Int) (paths : List Text) (distinct : paths.Nodup)
    (clean : ∀ path ∈ paths, CleanPath path) (state : LcovState) (idle : state.current = none)
    (fresh : ∀ path ∈ paths, state.out.get path = none) :
    ∃ result, (paths.flatMap fun path => recordLines path (content path)).foldl readRecordLine state = ⟨result, none⟩ ∧
      ∀ path, (path ∉ paths → result.get path = state.out.get path) ∧
        (path ∈ paths → (result.get path).isSome = true ∧ ∀ n, cell result path n = (content path).get n) := by
  induction paths generalizing state with
  | nil =>
    refine ⟨state.out, ?_, fun path => ⟨fun _ => rfl, fun impossible => by cases impossible⟩⟩
    rw [List.flatMap_nil, List.foldl_nil, ← idle]
  | cons path rest ih =>
    obtain ⟨notLater, others⟩ := List.nodup_cons.mp distinct
    obtain ⟨first, ran, apart, present, cells⟩ := read_record path (content path) (clean path List.mem_cons_self) state
      (fresh path List.mem_cons_self)
    obtain ⟨result, done, final⟩ := ih others (fun other inside => clean other (List.mem_cons_of_mem _ inside)) ⟨first, none⟩ rfl
      (by
        intro other inside
        have differs : other ≠ path := fun same => notLater (same ▸ inside)
        rw [apart other differs]
        exact fresh other (List.mem_cons_of_mem _ inside))
    refine ⟨result, by rw [List.flatMap_cons, List.foldl_append, ran, done], fun other => ⟨fun absent => ?_, fun inside => ?_⟩⟩
    · rw [(final other).1 fun later => absent (List.mem_cons_of_mem _ later),
        apart other fun same => absent (same ▸ List.mem_cons_self)]
    · rcases List.mem_cons.mp inside with rfl | later
      · have same := (final other).1 notLater
        exact ⟨by rw [same]; exact present, fun n => by rw [cell, row, same]; exact cells n⟩
      · exact (final other).2 later

theorem parse_format (files : FileLines) (clean : Clean files) : SameMap (parseLcov (formatLcov files)) files := by
  have cleanKeys : ∀ path ∈ sortedKeys files, CleanPath path := fun path inside => clean path ((sorted_keys_mem files path).mp inside)
  obtain ⟨result, ran, final⟩ := read_records (row files) (sortedKeys files) (sorted_keys_nodup files) cleanKeys ⟨.empty, none⟩ rfl
    fun _ _ => rfl
  have plain : ∀ line ∈ (sortedKeys files).flatMap fun path => recordLines path (row files path), Plain line := by
    intro line inside
    obtain ⟨path, isPath, isLine⟩ := List.mem_flatMap.mp inside
    exact record_lines_plain path _ (cleanKeys path isPath).1 line isLine
  have parsed : parseLcov (formatLcov files) = result := by
    rw [parseLcov, formatLcov, join_lines_unlines, split_unlines _ plain, ran]
  intro path
  rw [parsed]
  by_cases known : path ∈ sortedKeys files
  · obtain ⟨present, cells⟩ := (final path).2 known
    exact ⟨by rw [present, (sorted_keys_mem files path).mp known], cells⟩
  · have missing : files.get path = none := by
      rw [← Option.not_isSome_iff_eq_none]
      exact mt (sorted_keys_mem files path).mpr known
    have absent : result.get path = none := (final path).1 known
    refine ⟨by rw [absent, missing], fun n => ?_⟩
    rw [cell, row, absent, cell, row, missing]

def byUtf8 (left right : Text × Dict Nat Nat) : Prop := utf8 left.1 ≤ utf8 right.1

instance : DecidableRel byUtf8 := fun left right => inferInstanceAs (Decidable (utf8 left.1 ≤ utf8 right.1))

def byLine (left right : Nat × Nat) : Prop := left.1 ≤ right.1

instance : DecidableRel byLine := fun left right => inferInstanceAs (Decidable (left.1 ≤ right.1))

-- The native writer. Its maps are ordered, and texts are compared by their bytes.
def nativeRecord (file : Text × Dict Nat Nat) : Text :=
  testKey ++ ['\n'] ++ (sourceKey ++ file.1 ++ ['\n']) ++
    (file.2.entries.insertionSort byLine).flatMap
      (fun entry => dataKey ++ decimal entry.1 ++ ',' :: decimal entry.2 ++ ['\n']) ++
    (foundKey ++ decimal file.2.entries.length ++ ['\n']) ++
    (hitKey ++ decimal (file.2.entries.countP fun entry => 0 < entry.2) ++ ['\n']) ++ (endOfRecord ++ ['\n'])

def toLcov (lines : LineCounts) : Text := (lines.entries.insertionSort byUtf8).flatMap nativeRecord

theorem cast_distinct (lines : Dict Nat Nat) :
    ((lines.entries.map fun entry => ((entry.1 : Int), (entry.2 : Int))).map Prod.fst).Nodup := by
  have keys : (lines.entries.map fun entry => ((entry.1 : Int), (entry.2 : Int))).map Prod.fst =
      (lines.entries.map Prod.fst).map Int.ofNat := by simp [Function.comp_def]
  rw [keys]
  exact lines.distinct.map fun _ _ same => Int.ofNat.inj same

def castLines (lines : Dict Nat Nat) : Dict Int Int :=
  ⟨lines.entries.map fun entry => ((entry.1 : Int), (entry.2 : Int)), cast_distinct lines⟩

theorem python_distinct (lines : LineCounts) :
    ((lines.entries.map fun entry => (entry.1, castLines entry.2)).map Prod.fst).Nodup := by
  rw [List.map_map]
  exact lines.distinct

def asPython (lines : LineCounts) : FileLines := ⟨lines.entries.map fun entry => (entry.1, castLines entry.2), python_distinct lines⟩

theorem int_text_cast (n : Nat) : intText (n : Int) = decimal n := by
  rw [intText, if_neg (by omega), Int.natAbs_natCast]

theorem unlines_flat_map {α : Type} (items : List α) (f : α → List Text) :
    unlines (items.flatMap f) = items.flatMap fun item => unlines (f item) := by
  rw [unlines, List.flatMap_assoc]
  rfl

theorem native_data_lines (lines : Dict Nat Nat) :
    (sortedKeys (castLines lines)).map (fun n => dataLine n (((castLines lines).get n).getD 0)) =
      (lines.entries.insertionSort byLine).map fun entry => dataKey ++ decimal entry.1 ++ ',' :: decimal entry.2 := by
  have keys : sortedKeys (castLines lines) = (lines.entries.insertionSort byLine).map fun entry => (entry.1 : Int) := by
    rw [sortedKeys, castLines, List.map_map, List.map_insertionSort byLine (· ≤ ·) (fun entry : Nat × Nat => (entry.1 : Int))]
    · rfl
    · intro left _ right _
      exact Int.ofNat_le.symm
  rw [keys, List.map_map]
  refine List.map_congr_left fun entry inside => ?_
  have found : (castLines lines).get (entry.1 : Int) = some (entry.2 : Int) := by
    rw [get_iff, castLines]
    exact List.mem_map_of_mem (f := fun entry : Nat × Nat => ((entry.1 : Int), (entry.2 : Int)))
      ((List.mem_insertionSort byLine).mp inside)
  simp only [Function.comp_apply, found, Option.getD_some, dataLine, int_text_cast]

theorem native_record (file : Text × Dict Nat Nat) : nativeRecord file = unlines (recordLines file.1 (castLines file.2)) := by
  have hits : (castLines file.2).entries.countP (fun entry => entry.2 ≠ 0) = file.2.entries.countP fun entry => 0 < entry.2 := by
    rw [castLines, List.countP_map]
    refine List.countP_congr fun entry _ => ?_
    simp only [Function.comp_apply, decide_eq_true_eq]
    omega
  have length : (castLines file.2).entries.length = file.2.entries.length := List.length_map _
  rw [recordLines, native_data_lines, hits, length, nativeRecord]
  simp [unlines, List.flatMap_map]

theorem writers_agree (lines : LineCounts) : toLcov lines = formatLcov (asPython lines) := by
  have keys : sortedKeys (asPython lines) = (lines.entries.insertionSort byUtf8).map Prod.fst := by
    rw [sortedKeys, asPython, List.map_map, List.map_insertionSort byUtf8 (· ≤ ·) Prod.fst]
    · rfl
    · intro left _ right _
      exact utf8_strict.le_iff_le
  rw [formatLcov, join_lines_unlines, keys, List.flatMap_map, unlines_flat_map, toLcov]
  refine List.flatMap_congr fun file inside => ?_
  have found : (asPython lines).get file.1 = some (castLines file.2) := by
    rw [get_iff, asPython]
    exact List.mem_map_of_mem (f := fun entry : Text × Dict Nat Nat => (entry.1, castLines entry.2))
      ((List.mem_insertionSort byUtf8).mp inside)
  rw [native_record, row, found, Option.getD_some]

end WakeSol.Coverage
