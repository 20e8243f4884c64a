import WakeSol.Errors.Rendered

/- A rendered call trace as a whole: the error of the transaction stands at the root
   when no frame is marked as failed, and at a frame otherwise. -/
set_option autoImplicit false

namespace WakeSol.Errors

open TextLib RadixLib RoseLib Trace

def StructuredErr.headline (e : StructuredErr) : Text :=
  let text := match e.code, e.native with
    | some code, _ => "Custom(".toList ++ decimal code ++ ")".toList
    | none, some name => name
    | none, none => "error".toList
  match e.instructionIndex with
  | none => text
  | some index => text ++ " (ix ".toList ++ decimal index ++ ")".toList

structure CallTrace where
  instructions : List Traced
  success : Bool
  error : Option Text

-- What tx_result_from keeps of a failed transaction, as its call trace shows it.
def failedTrace (message : Message) (innerInstructions : List (List InnerInstruction)) (logs : List Text)
    (err : TransactionError) : CallTrace :=
  let tree := buildCallTree message innerInstructions logs
  ⟨tree, false, some (extractError err tree).headline⟩

mutual
def anyFailedIn : Traced → Bool
  | .node record inner => decide (record.status = .failed) || anyFailed inner
def anyFailed : List Traced → Bool
  | [] => false
  | node :: rest => anyFailedIn node || anyFailed rest
end

def rootError (trace : CallTrace) : Option Text :=
  if trace.success = false ∧ anyFailed trace.instructions = false then trace.error.filter fun error => !error.isEmpty else none

mutual
theorem any_failed_in_iff (tree : Traced) : anyFailedIn tree = true ↔ ∃ record ∈ preorder tree, record.status = .failed := by
  cases tree with
  | node record inner => simp [anyFailedIn, preorder, any_failed_iff inner]
theorem any_failed_iff (forest : List Traced) :
    anyFailed forest = true ↔ ∃ record ∈ forestPreorder forest, record.status = .failed := by
  cases forest with
  | nil => simp [anyFailed, forestPreorder]
  | cons tree rest =>
    simp only [anyFailed, forestPreorder, Bool.or_eq_true, any_failed_in_iff tree, any_failed_iff rest, List.mem_append,
      or_and_right, exists_or]
end

variable (wording : ErrorType → Wording) (catalog : Catalog) (registry : ProgramByCode)

def ShowsError (trace : CallTrace) : Prop :=
  (rootError trace).isSome = true ∨
    ∃ frame ∈ forestPreorder (renderNodes wording catalog registry trace.instructions), frame.2.isSome = true

def messaged (record : Record) : Bool := !(record.errorMsg.getD []).isEmpty

theorem decode_error_some (record : Record) (inner : List Traced) :
    (decodeError wording catalog registry record inner).isSome = true → messaged record = true := by
  rw [decodeError, messaged]
  cases record.errorMsg with
  | none => simp
  | some raw => cases raw <;> simp

-- A frame passes its code on only to a frame that has a message.
theorem decode_error_deepest (record : Record) (inner : List Traced) (has : messaged record = true)
    (last : ¬ ∃ other ∈ forestPreorder inner, messaged other = true) :
    (decodeError wording catalog registry record inner).isSome = true := by
  cases message : record.errorMsg with
  | none => simp [messaged, message] at has
  | some raw =>
    have nonempty : raw ≠ [] := by simpa [messaged, message] using has
    rw [decodeError, message]
    simp only [if_neg nonempty]
    cases found : searchCustomCode raw with
    | none => rfl
    | some code =>
      have origin : propagatesChildError code inner = false := by
        rw [Bool.eq_false_iff, ne_eq, propagates_iff]
        rintro ⟨other, inside, own⟩
        obtain ⟨text, isText, read⟩ := Option.bind_eq_some_iff.mp own
        refine last ⟨other, inside, ?_⟩
        cases text with
        | nil => cases read
        | cons c rest => simp [messaged, isText]
      simp [origin]

mutual
theorem shown_in_iff (tree : Traced) : (∃ frame ∈ preorder (renderNode wording catalog registry tree), frame.2.isSome = true) ↔
    ∃ record ∈ preorder tree, messaged record = true := by
  cases tree with
  | node record inner =>
    simp only [renderNode, preorder, List.mem_cons, exists_eq_or_imp, shown_iff inner]
    constructor
    · exact Or.imp_left (decode_error_some wording catalog registry record inner)
    · rintro (here | below)
      · by_cases deeper : ∃ other ∈ forestPreorder inner, messaged other = true
        · exact .inr deeper
        · exact .inl (decode_error_deepest wording catalog registry record inner here deeper)
      · exact .inr below
theorem shown_iff (forest : List Traced) :
    (∃ frame ∈ forestPreorder (renderNodes wording catalog registry forest), frame.2.isSome = true) ↔
      ∃ record ∈ forestPreorder forest, messaged record = true := by
  cases forest with
  | nil => simp [renderNodes, forestPreorder]
  | cons tree rest =>
    simp only [renderNodes, forestPreorder, List.mem_append, or_and_right, exists_or, shown_in_iff tree, shown_iff rest]
end

theorem failure_shown_iff (message : Message) (innerInstructions : List (List InnerInstruction)) (logs : List Text)
    (err : TransactionError) :
    let trace := failedTrace message innerInstructions logs err
    ShowsError wording catalog registry trace ↔
      ((∀ record ∈ forestPreorder trace.instructions, record.status ≠ .failed) ∧
        (extractError err trace.instructions).headline ≠ []) ∨
      ∃ record ∈ forestPreorder trace.instructions, messaged record = true := by
  intro trace
  refine or_congr ?_ (shown_iff wording catalog registry trace.instructions)
  have failed := any_failed_iff trace.instructions
  by_cases none : anyFailed trace.instructions = false
  · rw [rootError, if_pos ⟨rfl, none⟩]
    simp only [none, Bool.false_eq_true, false_iff, not_exists, not_and] at failed
    rw [and_iff_right failed]
    simp [trace, failedTrace]
  · rw [rootError, if_neg fun both => none both.2]
    rw [Bool.not_eq_false, failed] at none
    obtain ⟨record, inside, isFailed⟩ := none
    simp only [Option.isSome_none, Bool.false_eq_true, false_iff, not_and]
    exact fun sound => absurd isFailed (sound record inside)

end WakeSol.Errors
