import WakeSol.Trace.AttachLogs

set_option autoImplicit false

namespace WakeSol.Trace

open TextLib RadixLib

def markerLine (pid tail : Text) : Text := programKey ++ (pid ++ ' ' :: tail)

def invokeTail (depth : Nat) : Text := invokeWord ++ ' ' :: '[' :: (decimal depth ++ [']'])

def unitsTail (limit : Nat) : Text :=
  'o' :: 'f' :: ' ' :: (decimal limit ++ [' ', 'c', 'o', 'm', 'p', 'u', 't', 'e', ' ', 'u', 'n', 'i', 't', 's'])

def consumedTail (units limit : Nat) : Text := consumedWord ++ ' ' :: (decimal units ++ ' ' :: unitsTail limit)

def failedTail (error : Text) : Text := failedWord ++ ' ' :: error

def invokeLine (pid : Text) (depth : Nat) : Text := markerLine pid (invokeTail depth)
def consumedLine (pid : Text) (units limit : Nat) : Text := markerLine pid (consumedTail units limit)
def successLine (pid : Text) : Text := markerLine pid successWord
def failedLine (pid error : Text) : Text := markerLine pid (failedTail error)
def logLine (text : Text) : Text := logKey ++ text
def dataLine (payload : Bytes) : Text := dataKey ++ encode64 payload
def returnLine (pid : Text) (payload : Bytes) : Text := returnKey ++ (pid ++ ' ' :: encode64 payload)

def firstWord (text : Text) : Text := (splitWhitespace text).headD []

structure PidText (pid : Text) : Prop where
  long : 9 ≤ pid.length
  solid : Solid pid
  noColon : ':' ∉ pid

theorem address_pid_text (address : Address) : PidText address.text where
  long := by
    have bound := base58_length address.bytes
    rw [address.size] at bound
    exact Nat.le_trans (by decide) bound
  solid := base58_solid address.bytes
  noColon := base58_avoids address.bytes ':' (by decide)

theorem pid_nonempty (pid : Text) (valid : PidText pid) : pid ≠ [] := by
  intro empty
  have long := valid.long
  simp [empty] at long

theorem pid_no_blank (pid : Text) (valid : PidText pid) : ' ' ∉ pid := by
  intro member
  exact absurd (valid.solid ' ' member) (by decide)

theorem program_trimmed (front back : Text) (nonempty : back ≠ []) (trimmed : Trimmed back) :
    trim (programKey ++ (front ++ back)) = programKey ++ (front ++ back) :=
  trim_append (['r', 'o', 'g', 'r', 'a', 'm', ' '] ++ front) back 'P' (by decide) nonempty trimmed

theorem program_nonempty (rest : Text) : programKey ++ rest ≠ [] := by simp [programKey]

theorem marker_trimmed (pid front back : Text) (nonempty : back ≠ []) (trimmed : Trimmed back) :
    Trimmed (markerLine pid (front ++ back)) := by
  have shape : pid ++ ' ' :: (front ++ back) = (pid ++ ' ' :: front) ++ back := by simp
  rw [Trimmed, markerLine, shape]
  exact program_trimmed _ back nonempty trimmed

theorem marker_not_keyed (core pid tail : Text) (valid : PidText pid) (solidCore : Solid core) :
    stripPrefix (programKey ++ (core ++ [':', ' '])) (markerLine pid tail) = none := by
  apply strip_prefix_none
  rw [markerLine, List.prefix_append_right_inj]
  exact pattern_not_in_word core pid tail ':' solidCore (by decide) valid.noColon

theorem marker_words (pid tail : Text) (valid : PidText pid) : splitWhitespace (markerLine pid tail) =
    ['P', 'r', 'o', 'g', 'r', 'a', 'm'] :: pid :: splitWhitespace tail := by
  have first := split_whitespace_cons ['P', 'r', 'o', 'g', 'r', 'a', 'm'] (pid ++ ' ' :: tail) (by decide) (by decide)
  rw [split_whitespace_cons pid tail (pid_nonempty pid valid) valid.solid] at first
  exact first

theorem marker_verb_of (pid tail : Text) (valid : PidText pid) :
    markerVerb (markerLine pid tail) = (verbOf (firstWord tail)).map fun verb => (pid, verb) := by
  have isProgram : programKey.isPrefixOf (markerLine pid tail) = true := by simp [markerLine]
  rw [markerVerb, if_pos isProgram, marker_words pid tail valid]
  rfl

theorem read_marker_line (pid tail : Text) (verb : Verb) (valid : PidText pid)
    (trimmed : Trimmed (markerLine pid tail)) (first : verbOf (firstWord tail) = some verb) :
    readLine (markerLine pid tail) = readMarker (markerLine pid tail) pid verb := by
  have notReturn : stripPrefix returnKey (markerLine pid tail) = none :=
    marker_not_keyed ['r', 'e', 't', 'u', 'r', 'n'] pid tail valid (by decide)
  have notData : stripPrefix dataKey (markerLine pid tail) = none :=
    marker_not_keyed ['d', 'a', 't', 'a'] pid tail valid (by decide)
  have nonempty : markerLine pid tail ≠ [] := program_nonempty _
  rw [readLine, trimmed, readTrimmed, if_neg nonempty, notReturn, notData, marker_verb_of pid tail valid, first]
  rfl

theorem read_invoke (pid : Text) (depth : Nat) (valid : PidText pid) :
    readLine (invokeLine pid depth) = .invoke pid := by
  have trimmed : Trimmed (markerLine pid (invokeTail depth)) :=
    marker_trimmed pid (invokeWord ++ ' ' :: '[' :: decimal depth) [']'] (by decide) (by decide)
  have first : verbOf (firstWord (invokeTail depth)) = some .invoke := by
    rw [firstWord, invokeTail, split_whitespace_cons _ _ (by decide) (by decide)]
    rfl
  rw [invokeLine, read_marker_line pid _ .invoke valid trimmed first]
  rfl

theorem read_success (pid : Text) (valid : PidText pid) : readLine (successLine pid) = .success pid := by
  have trimmed : Trimmed (markerLine pid successWord) := marker_trimmed pid [] _ (by decide) (by decide)
  rw [successLine, read_marker_line pid _ .success valid trimmed (by decide)]
  rfl

theorem consumed_words (units limit : Nat) : splitWhitespace (consumedTail units limit) =
    consumedWord :: decimal units :: splitWhitespace (unitsTail limit) := by
  rw [consumedTail, split_whitespace_cons _ _ (by decide) (by decide),
    split_whitespace_cons _ _ (decimal_nonempty units) (decimal_solid units)]

theorem read_consumed (pid : Text) (units limit : Nat) (valid : PidText pid) (fits : units < 2 ^ 64) :
    readLine (consumedLine pid units limit) = .consumed pid (some units) := by
  have trimmed : Trimmed (markerLine pid (consumedTail units limit)) := by
    have shape : consumedTail units limit =
        (consumedWord ++ ' ' :: (decimal units ++ ' ' :: 'o' :: 'f' :: ' ' :: decimal limit)) ++
          ' ' :: ['c', 'o', 'm', 'p', 'u', 't', 'e', ' ', 'u', 'n', 'i', 't', 's'] := by simp [consumedTail, unitsTail]
    rw [shape, List.append_cons]
    exact marker_trimmed pid _ _ (by decide) (by decide)
  have first : verbOf (firstWord (consumedTail units limit)) = some .consumed := by
    rw [firstWord, consumed_words]
    rfl
  have different : pid ≠ consumedWord := by
    intro same
    have long := valid.long
    rw [same] at long
    exact absurd long (by decide)
  rw [consumedLine, read_marker_line pid _ .consumed valid trimmed first, readMarker, parseConsumed,
    marker_words pid _ valid, consumed_words, consumedUnits, if_neg (by decide), consumedUnits, if_neg different,
    consumedUnits, if_pos rfl, List.head?_cons, Option.bind_some, parse_unsigned_decimal 64 units fits]

theorem read_failed (pid error : Text) (valid : PidText pid) (nonempty : error ≠ []) (trimmedError : Trimmed error) :
    readLine (failedLine pid error) = .failed pid (some error) := by
  have trimmed : Trimmed (markerLine pid (failedTail error)) := by
    rw [failedTail, List.append_cons]
    exact marker_trimmed pid _ error nonempty trimmedError
  have first : verbOf (firstWord (failedTail error)) = some .failed := by
    rw [firstWord, failedTail, split_whitespace_cons _ _ (by decide) (by decide)]
    rfl
  have found : splitOnce (failedWord ++ [' ']) (failedTail error) = some ([], error) := by
    rw [failedTail, List.append_cons]
    exact split_once_here _ error (by decide)
  have skipped : splitOnce (failedWord ++ [' ']) (markerLine pid (failedTail error)) =
      some (programKey ++ (pid ++ [' ']), error) := by
    have core : failedWord ++ [' '] = ['f', 'a', 'i', 'l', 'e', 'd'] ++ [':', ' '] := rfl
    have start : markerLine pid (failedTail error) =
        ['P', 'r', 'o', 'g', 'r', 'a', 'm'] ++ ' ' :: (pid ++ ' ' :: failedTail error) := rfl
    rw [core] at found ⊢
    rw [start, split_once_word _ _ _ ':' (by decide) (by decide) (by decide),
      split_once_word _ _ _ ':' (by decide) (by decide) valid.noColon, found]
    rfl
  rw [failedLine, read_marker_line pid _ .failed valid trimmed first, readMarker, skipped, Option.map_some, trimmedError]

theorem read_return (pid : Text) (payload : Bytes) (nonempty : payload ≠ []) :
    readLine (returnLine pid payload) = .ret (pid ++ ' ' :: encode64 payload) := by
  have trimmed : trim (returnLine pid payload) = returnLine pid payload := by
    have shape : returnLine pid payload =
        programKey ++ ((['r', 'e', 't', 'u', 'r', 'n', ':', ' '] ++ (pid ++ [' '])) ++ encode64 payload) := by
      simp [returnLine, returnKey]
    rw [shape]
    exact program_trimmed _ _ (encode64_nonempty payload nonempty) (solid_trimmed _ (encode64_solid payload))
  have nonemptyLine : returnLine pid payload ≠ [] := by simp [returnLine, returnKey, programKey]
  rw [readLine, trimmed, readTrimmed, if_neg nonemptyLine, returnLine, strip_prefix_append]

-- With no payload the line ends in a blank that trimming removes, and the
-- program id is left without the separator the reader looks for.
theorem read_empty_return (pid : Text) (valid : PidText pid) : readLine (returnLine pid []) = .ret pid := by
  have trimmed : trim (returnLine pid []) = returnKey ++ pid := by
    have shape : returnLine pid [] =
        'P' :: ((['r', 'o', 'g', 'r', 'a', 'm', ' ', 'r', 'e', 't', 'u', 'r', 'n', ':', ' '] ++ pid) ++ [' ']) := by
      simp [returnLine, returnKey, programKey, encode64]
    rw [shape, trim_blank_end _ _ _ (by decide) (by decide)]
    exact trim_append _ pid 'P' (by decide) (pid_nonempty pid valid) (solid_trimmed pid valid.solid)
  have nonemptyLine : returnKey ++ pid ≠ [] := by simp [returnKey, programKey]
  rw [readLine, trimmed, readTrimmed, if_neg nonemptyLine, strip_prefix_append]

theorem read_data (payload : Bytes) (nonempty : payload ≠ []) :
    readLine (dataLine payload) = .data (encode64 payload) := by
  have trimmed : trim (dataLine payload) = dataLine payload := by
    rw [dataLine, dataKey, List.append_assoc]
    exact program_trimmed _ _ (encode64_nonempty payload nonempty) (solid_trimmed _ (encode64_solid payload))
  have nonemptyLine : dataLine payload ≠ [] := by simp [dataLine, dataKey, programKey]
  have notReturn : stripPrefix returnKey (dataLine payload) = none := rfl
  rw [readLine, trimmed, readTrimmed, if_neg nonemptyLine, notReturn]
  simp only
  rw [dataLine, strip_prefix_append]

theorem read_log (text : Text) (nonempty : text ≠ []) (trimmed : Trimmed text) : readLine (logLine text) =
    match verbOf (firstWord text) with
    | some verb => readMarker (logLine text) ['l', 'o', 'g', ':'] verb
    | none => .message text := by
  have trimmedLine : trim (logLine text) = logLine text := by
    rw [logLine, logKey, List.append_assoc]
    exact program_trimmed _ _ nonempty trimmed
  have nonemptyLine : logLine text ≠ [] := by simp [logLine, logKey, programKey]
  have notReturn : stripPrefix returnKey (logLine text) = none := rfl
  have notData : stripPrefix dataKey (logLine text) = none := rfl
  have isProgram : programKey.isPrefixOf (logLine text) = true := rfl
  have words : splitWhitespace (logLine text) =
      ['P', 'r', 'o', 'g', 'r', 'a', 'm'] :: ['l', 'o', 'g', ':'] :: splitWhitespace text := by
    have first := split_whitespace_cons ['P', 'r', 'o', 'g', 'r', 'a', 'm'] ('l' :: 'o' :: 'g' :: ':' :: ' ' :: text)
      (by decide) (by decide)
    have second := split_whitespace_cons ['l', 'o', 'g', ':'] text (by decide) (by decide)
    rw [List.cons_append, List.cons_append, List.cons_append, List.cons_append, List.nil_append] at second
    rw [second] at first
    exact first
  rw [readLine, trimmedLine, readTrimmed, if_neg nonemptyLine, notReturn, notData, markerVerb, if_pos isProgram, words]
  change (match (verbOf (firstWord text)).map fun verb => (['l', 'o', 'g', ':'], verb) with
    | some (pid, verb) => readMarker (logLine text) pid verb
    | none => LogLine.message ((stripPrefix logKey (logLine text)).getD (logLine text))) = _
  cases verbOf (firstWord text) with
  | none => simp [logLine, strip_prefix_append]
  | some found => rfl

structure NativeText (text : Text) : Prop where
  nonempty : text ≠ []
  trimmed : Trimmed text
  notReturn : ¬ returnKey <+: text
  notData : ¬ dataKey <+: text
  notLog : ¬ logKey <+: text
  noVerb : programKey <+: text → verbOf ((splitWhitespace text).getD 2 []) = none

theorem read_native (text : Text) (native : NativeText text) : readLine text = .message text := by
  have noMarker : markerVerb text = none := by
    by_cases isProgram : programKey <+: text
    · have noVerb := native.noVerb isProgram
      rw [markerVerb, if_pos (by simpa using isProgram)]
      rcases words : splitWhitespace text with _ | ⟨first, _ | ⟨second, rest⟩⟩
      · rfl
      · rfl
      · rw [words] at noVerb
        cases rest with
        | nil => rfl
        | cons third others =>
          have none : verbOf third = none := noVerb
          simp [none]
    · rw [markerVerb, if_neg (by simpa using isProgram)]
  rw [readLine, native.trimmed, readTrimmed, if_neg native.nonempty, strip_prefix_none _ _ native.notReturn,
    strip_prefix_none _ _ native.notData, noMarker, strip_prefix_none _ _ native.notLog]
  rfl

end WakeSol.Trace
