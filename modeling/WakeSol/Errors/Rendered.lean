import WakeSol.Errors.Raise
import WakeSol.Lib.Lines

/- The error lines of a rendered call trace. The code is searched for in the
   message of each frame, and a frame with a descendant that failed with the same
   code only passed that code on. -/
set_option autoImplicit false

namespace WakeSol.Errors

open TextLib LinesLib RadixLib RoseLib Trace

structure Wording where
  name : Text
  msg : Option Text

def headlineDetail (e : ErrorInstance) : List Text :=
  (e.code.map fun code => "code=".toList ++ intText code).toList ++
    (e.instructionIndex.map fun index => "ix=".toList ++ decimal index).toList ++
    (e.accountIndex.map fun index => "account_index=".toList ++ decimal index).toList

-- An exception prints as the headline it was made with.
def headline (wording : ErrorType → Wording) (e : ErrorInstance) : Text :=
  let name := (wording e.type).name
  let detail := headlineDetail e
  let head := if detail = [] then name else name ++ "(".toList ++ ", ".toList.intercalate detail ++ ")".toList
  match (wording e.type).msg with
  | none => head
  | some msg => if msg = [] then head else head ++ ": ".toList ++ msg

def hexRun (l : Text) : Text := l.takeWhile fun c => (hexValue c).isSome

def searchCustomCode : Text → Option Nat
  | [] => none
  | c :: rest =>
    match stripPrefix customKey (c :: rest) with
    | some after => if hexRun after = [] then searchCustomCode rest else readDigits 16 hexValue 0 (hexRun after)
    | none => searchCustomCode rest

def customErrorCode (raw : Option Text) : Option Nat := raw.bind searchCustomCode

mutual
def carriesOrPropagates (code : Nat) : Traced → Bool
  | .node record inner => customErrorCode record.errorMsg == some code || propagatesChildError code inner
def propagatesChildError (code : Nat) : List Traced → Bool
  | [] => false
  | child :: rest => carriesOrPropagates code child || propagatesChildError code rest
end

section Render

variable (wording : ErrorType → Wording) (catalog : Catalog) (registry : ProgramByCode)

def decodedLine (code : Nat) (record : Record) : Text :=
  headline wording (build catalog registry (some code) none none none (some record.programId.text))

def decodeError (record : Record) (inner : List Traced) : Option Text :=
  match record.errorMsg with
  | none => none
  | some raw =>
    if raw = [] then none
    else match searchCustomCode raw with
      | some code =>
        if propagatesChildError code inner then none else some (decodedLine wording catalog registry code record)
      | none => some raw

mutual
def renderNode : Traced → Rose (Record × Option Text)
  | .node record inner => .node (record, decodeError wording catalog registry record inner) (renderNodes inner)
def renderNodes : List Traced → List (Rose (Record × Option Text))
  | [] => []
  | node :: rest => renderNode node :: renderNodes rest
end

theorem render_append (left right : List Traced) : renderNodes wording catalog registry (left ++ right) =
    renderNodes wording catalog registry left ++ renderNodes wording catalog registry right := by
  induction left with
  | nil => rfl
  | cons node rest ih => rw [List.cons_append, renderNodes, renderNodes, ih, List.cons_append]

mutual
theorem render_node_records (tree : Traced) :
    (preorder (renderNode wording catalog registry tree)).map Prod.fst = preorder tree := by
  cases tree with
  | node record inner => rw [renderNode, preorder, preorder, List.map_cons, render_records]
theorem render_records (forest : List Traced) :
    (forestPreorder (renderNodes wording catalog registry forest)).map Prod.fst = forestPreorder forest := by
  cases forest with
  | nil => rfl
  | cons tree rest =>
    rw [renderNodes, forestPreorder, forestPreorder, List.map_append, render_node_records, render_records]
end

end Render

mutual
theorem carries_or_propagates_iff (code : Nat) (tree : Traced) : carriesOrPropagates code tree = true ↔
    ∃ record ∈ preorder tree, customErrorCode record.errorMsg = some code := by
  cases tree with
  | node record inner => simp [carriesOrPropagates, preorder, propagates_iff code inner]
theorem propagates_iff (code : Nat) (inner : List Traced) : propagatesChildError code inner = true ↔
    ∃ record ∈ forestPreorder inner, customErrorCode record.errorMsg = some code := by
  cases inner with
  | nil => simp [propagatesChildError, forestPreorder]
  | cons child rest =>
    simp only [propagatesChildError, forestPreorder, Bool.or_eq_true, carries_or_propagates_iff code child,
      propagates_iff code rest, List.mem_append, or_and_right, exists_or]
end

-- The runtime's text for a custom code is fixed, and no other of its texts has
-- the words in it.
def RuntimeFormatted (text : Text) : Prop := (∃ code < 2 ^ 32, text = customMessage code) ∨ ¬ customKey <:+: text

theorem hex_run_hexadecimal (code : Nat) : hexRun (hexadecimal code) = hexadecimal code := by
  refine List.takeWhile_eq_self_iff.mpr fun c member => ?_
  obtain ⟨d, small, rfl⟩ := numeral_mem (by decide) code c member
  rw [hex_value_char d small]
  rfl

theorem search_custom_message (code : Nat) : searchCustomCode (customMessage code) = some code := by
  have stripped : stripPrefix customKey (customMessage code) = some (hexadecimal code) := strip_prefix_append _ _
  have shape : customMessage code = 'c' :: (customMessage code).tail := rfl
  have nonempty : hexadecimal code ≠ [] := numeral_nonempty 16 hexChar code
  rw [shape] at stripped ⊢
  rw [searchCustomCode, stripped]
  simp only [hex_run_hexadecimal, if_neg nonempty]
  exact read_digits_numeral hex_value_char (by decide) code

theorem search_absent (text : Text) (absent : ¬ customKey <:+: text) : searchCustomCode text = none := by
  induction text with
  | nil => rfl
  | cons c rest ih =>
    have here : stripPrefix customKey (c :: rest) = none :=
      strip_prefix_none _ _ fun first => absent first.isInfix
    rw [searchCustomCode, here]
    exact ih fun later => absent (later.trans (List.suffix_cons c rest).isInfix)

theorem parse_absent (text : Text) (absent : ¬ customKey <:+: text) : parseCustomCode text = none := by
  have inside : trim text <:+: text :=
    (List.rdropWhile_prefix isWhitespace _).isInfix.trans (List.dropWhile_suffix isWhitespace).isInfix
  rw [parseCustomCode, strip_prefix_none _ _ fun first => absent (first.isInfix.trans inside), Option.bind_none]

theorem custom_message_injective (left right : Nat) (same : customMessage left = customMessage right) : left = right := by
  have read := search_custom_message left
  rw [same, search_custom_message] at read
  exact (Option.some.inj read).symm

theorem formatted_read (text : Text) (formatted : RuntimeFormatted text) (code : Nat) :
    (searchCustomCode text = some code ↔ text = customMessage code) ∧
      (parseCustomCode text = some code ↔ text = customMessage code) := by
  rcases formatted with ⟨own, fits, rfl⟩ | absent
  · rw [search_custom_message, parse_custom_message own fits, Option.some.injEq]
    have same : own = code ↔ customMessage own = customMessage code :=
      ⟨congrArg customMessage, custom_message_injective own code⟩
    exact ⟨same, same⟩
  · have other : text ≠ customMessage code := by
      intro same
      rw [same] at absent
      exact absent (List.prefix_append customKey _).isInfix
    simp [search_absent text absent, parse_absent text absent, other]

def carries (code : Nat) (record : Record) : Bool := record.errorMsg == some (customMessage code)

def Legible (records : List Record) : Prop :=
  ∀ record ∈ records, ∀ text, record.errorMsg = some text → record.status = .failed ∧ RuntimeFormatted text

theorem custom_code_carries (record : Record) (code : Nat) (legible : Legible [record]) :
    customErrorCode record.errorMsg = some code ↔ carries code record = true := by
  cases message : record.errorMsg with
  | none => simp [customErrorCode, carries, message]
  | some text =>
    have formatted := (legible record (List.mem_singleton_self _) text message).2
    simp [customErrorCode, carries, message, (formatted_read text formatted code).1]

theorem legible_mem (records : List Record) (legible : Legible records) (record : Record) (inside : record ∈ records) :
    Legible [record] := by
  intro other single
  rw [List.mem_singleton.mp single]
  exact legible record inside

theorem carries_failed (records : List Record) (legible : Legible records) (code : Nat)
    (sound : ∀ record ∈ records, record.status ≠ .failed) : records.filter (carries code) = [] := by
  refine List.filter_eq_nil_iff.mpr fun record inside found => ?_
  have message : record.errorMsg = some (customMessage code) := by simpa [carries] using found
  exact sound record inside (legible record inside _ message).1

theorem reporting_records (records : List Record) (legible : Legible records) (code : Nat) :
    (failures records).filter (reports code) =
      (records.filter (carries code)).map fun record => (record.programId, record.errorMsg) := by
  rw [failures, List.filter_map, List.filter_filter]
  congr 1
  refine List.filter_congr fun record inside => ?_
  cases message : record.errorMsg with
  | none => simp [reports, carries, message]
  | some text =>
    obtain ⟨failed, formatted⟩ := legible record inside text message
    have read := (formatted_read text formatted code).2
    rw [Bool.eq_iff_iff]
    simp [reports, carries, message, failed, read]

section Chain

variable (wording : ErrorType → Wording) (catalog : Catalog) (registry : ProgramByCode)

def shownFor (depth code : Nat) (forest : List Traced) : List (Nat × Record × Option Text) :=
  (forestTagged depth (renderNodes wording catalog registry forest)).filter fun frame => carries code frame.2.1

theorem shown_records (depth code : Nat) (forest : List Traced) :
    (shownFor wording catalog registry depth code forest).map (fun frame => frame.2.1) =
      (forestPreorder forest).filter (carries code) := by
  rw [← render_records wording catalog registry forest, ← forest_tagged_preorder depth, List.map_map, List.filter_map,
    shownFor]
  rfl

theorem shown_none (depth code : Nat) (forest : List Traced) (legible : Legible (forestPreorder forest))
    (sound : ∀ record ∈ forestPreorder forest, record.status ≠ .failed) :
    shownFor wording catalog registry depth code forest = [] := by
  rw [← List.map_eq_nil_iff, shown_records, carries_failed _ legible code sound]

theorem decode_own (code : Nat) (record : Record) (inner : List Traced) (carried : carries code record = true) :
    decodeError wording catalog registry record inner =
      if propagatesChildError code inner then none else some (decodedLine wording catalog registry code record) := by
  have message : record.errorMsg = some (customMessage code) := by simpa [carries] using carried
  have nonempty : customMessage code ≠ [] := List.cons_ne_nil _ _
  rw [decodeError, message]
  simp only [if_neg nonempty, search_custom_message]

def OriginLast (depth code : Nat) (frames : List (Nat × Record × Option Text)) : Prop :=
  ∃ (outer : List (Nat × Record)) (last : Nat) (record : Record),
    frames = outer.map (fun frame => (frame.1, frame.2, none)) ++
      [(last, record, some (decodedLine wording catalog registry code record))] ∧
    depth ≤ last ∧ ∀ frame ∈ outer, frame.1 < last

theorem shown_chain (depth code : Nat) (forest : List Traced)
    (oneWay : OneWay (fun record : Record => record.status = .failed) forest)
    (legible : Legible (forestPreorder forest)) :
    shownFor wording catalog registry depth code forest = [] ∨
      OriginLast wording catalog registry depth code (shownFor wording catalog registry depth code forest) := by
  induction oneWay generalizing depth with
  | clear forest sound => exact .inl (shown_none wording catalog registry depth code forest legible sound)
  | down before after record inner soundBefore soundAfter _ ih =>
    rw [forest_preorder_append, forestPreorder, preorder] at legible
    have front := shown_none wording catalog registry depth code before
      (fun other inside => legible other (by simp [inside])) soundBefore
    have back := shown_none wording catalog registry depth code after
      (fun other inside => legible other (by simp [inside])) soundAfter
    have legibleInner : Legible (forestPreorder inner) := fun other inside => legible other (by simp [inside])
    have below := ih (depth + 1) legibleInner
    have split : shownFor wording catalog registry depth code (before ++ .node record inner :: after) =
        (if carries code record then [(depth, record, decodeError wording catalog registry record inner)] else []) ++
          shownFor wording catalog registry (depth + 1) code inner := by
      rw [shownFor] at front back
      rw [shownFor, render_append, forest_tagged_append, List.filter_append, front, List.nil_append, renderNodes,
        forestTagged, List.filter_append, back, List.append_nil, renderNode, tagged, List.filter_cons, shownFor]
      by_cases own : carries code record = true
      · simp [own]
      · simp [own]
    rw [split]
    by_cases own : carries code record = true
    · rw [if_pos own, decode_own wording catalog registry code record inner own]
      right
      have propagated : propagatesChildError code inner = true ↔
          shownFor wording catalog registry (depth + 1) code inner ≠ [] := by
        rw [propagates_iff, ne_eq, ← List.map_eq_nil_iff, shown_records, List.filter_eq_nil_iff]
        push Not
        refine exists_congr fun other => and_congr_right fun inside => ?_
        exact custom_code_carries other code (legible_mem _ legibleInner other inside)
      rcases below with none | ⟨outer, last, origin, frames, deep, shallow⟩
      · rw [none, if_neg fun found => propagated.mp found none]
        exact ⟨[], depth, record, rfl, Nat.le_refl _, by simp⟩
      · have some : shownFor wording catalog registry (depth + 1) code inner ≠ [] := by simp [frames]
        rw [if_pos (propagated.mpr some), frames]
        refine ⟨(depth, record) :: outer, last, origin, rfl, by omega, ?_⟩
        intro frame inside
        rcases List.mem_cons.mp inside with rfl | deeper
        · exact deep
        · exact shallow frame deeper
    · rw [if_neg own, List.nil_append]
      rcases below with none | ⟨outer, last, origin, frames, deep, shallow⟩
      · exact .inl none
      · exact .inr ⟨outer, last, origin, frames, by omega, shallow⟩

end Chain

theorem failing_program_carries (tree : List Traced) (legible : Legible (forestPreorder tree)) (code : Nat)
    (record : Record) (last : ((forestPreorder tree).filter (carries code)).getLast? = some record) :
    failingProgram tree code = some record.programId := by
  rw [failing_program_last, reporting_records _ legible, List.getLast?_map, last]
  rfl

theorem raised_build (catalog : Catalog) (registry : ProgramByCode) (tree : List Traced) (index code : Nat) (program : Address)
    (failing : failingProgram tree code = some program) :
    buildException catalog registry (extractError (.instructionError index (.custom code)) tree) =
      { build catalog registry (some code) none none none (some program.text) with instructionIndex := some index } := by
  rw [extractError, failing]
  rfl

theorem rendered_origin (wording : ErrorType → Wording) (catalog : Catalog) (registry : ProgramByCode) (message : Message)
    (innerInstructions : List (List InnerInstruction)) (logs : List Text) (tree : List Traced) (index code : Nat)
    (built : tree = buildCallTree message innerInstructions logs)
    (chain : OneWay (fun record : Record => record.status = .failed) tree)
    (formatted : ∀ record ∈ forestPreorder tree, record.status = .failed →
      ∀ text, record.errorMsg = some text → RuntimeFormatted text)
    (reported : ∃ record ∈ forestPreorder tree, carries code record = true) :
    ∃ (outer : List (Nat × Record)) (last : Nat) (origin : Record),
      shownFor wording catalog registry 0 code tree =
        outer.map (fun frame => (frame.1, frame.2, none)) ++
          [(last, origin, some (decodedLine wording catalog registry code origin))] ∧
      (∀ frame ∈ outer, frame.1 < last) ∧
      failingProgram tree code = some origin.programId ∧
      buildException catalog registry (extractError (.instructionError index (.custom code)) tree) =
        { build catalog registry (some code) none none none (some origin.programId.text) with
          instructionIndex := some index } := by
  have legible : Legible (forestPreorder tree) := by
    intro record inside text present
    have failed : record.status = .failed := by
      rw [built] at inside
      exact build_messaged message innerInstructions logs record inside (by simp [present])
    exact ⟨failed, formatted record inside failed text present⟩
  have records := shown_records wording catalog registry 0 code tree
  rcases shown_chain wording catalog registry 0 code tree chain legible with none | ⟨outer, last, origin, frames, -, shallow⟩
  · obtain ⟨record, inside, carried⟩ := reported
    rw [none, List.map_nil, eq_comm, List.filter_eq_nil_iff] at records
    exact absurd carried (records record inside)
  · rw [frames, List.map_append] at records
    have failing := failing_program_carries tree legible code origin (by rw [← records]; simp)
    exact ⟨outer, last, origin, frames, shallow, failing, raised_build catalog registry tree index code _ failing⟩

def remappedTree : List Traced := buildCallTree chainMessage chainInner (chainRun 5 5 7).lines

theorem remapped_tree_shape : remappedTree =
    [.node (chainRecord 1 5) [.node (chainRecord 2 5) [.node (chainRecord 3 7) []]]] := by
  have valid : (chainRun 5 5 7).Valid := by decide +kernel
  have executed : callTree chainMessage chainInner = (chainRun 5 5 7).bare := rfl
  rw [remappedTree, buildCallTree, executed, attach_valid _ valid]
  rfl

theorem remapped_tree_chain : OneWay (fun record : Record => record.status = .failed) remappedTree := by
  have nothing : ∀ record ∈ forestPreorder ([] : List Traced), ¬ record.status = .failed := by simp [forestPreorder]
  rw [remapped_tree_shape]
  exact .down [] [] _ _ nothing nothing (.down [] [] _ _ nothing nothing (.down [] [] _ _ nothing nothing (.clear [] nothing)))

theorem rendered_origin_remapped : ∃ (outer : List (Nat × Record)) (last : Nat) (origin : Record),
    shownFor (fun _ => ⟨"Leaf".toList, none⟩) ⟨[], [], [], []⟩ [] 0 5 remappedTree =
      outer.map (fun frame => (frame.1, frame.2, none)) ++
        [(last, origin, some (decodedLine (fun _ => ⟨"Leaf".toList, none⟩) ⟨[], [], [], []⟩ [] 5 origin))] ∧
    failingProgram remappedTree 5 = some origin.programId := by
  have custom : ∀ code < 2 ^ 32, RuntimeFormatted (customMessage code) := fun code fits => .inl ⟨code, fits, rfl⟩
  obtain ⟨outer, last, origin, frames, -, failing, -⟩ := rendered_origin (fun _ => ⟨"Leaf".toList, none⟩) ⟨[], [], [], []⟩ []
    chainMessage chainInner (chainRun 5 5 7).lines remappedTree 0 5 rfl remapped_tree_chain (by
      rw [remapped_tree_shape]
      intro record inside _ text present
      have records : record = chainRecord 1 5 ∨ record = chainRecord 2 5 ∨ record = chainRecord 3 7 := by
        simpa [forestPreorder, preorder] using inside
      rcases records with rfl | rfl | rfl
      · exact (Option.some.inj present) ▸ custom 5 (by decide)
      · exact (Option.some.inj present) ▸ custom 5 (by decide)
      · exact (Option.some.inj present) ▸ custom 7 (by decide)) (by
      rw [remapped_tree_shape]
      exact ⟨chainRecord 1 5, by simp [forestPreorder, preorder], by decide⟩)
  exact ⟨outer, last, origin, frames, failing⟩

end WakeSol.Errors
