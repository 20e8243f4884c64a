import WakeSol.Trace.Events

/- Which program a custom error code is attributed to. Only the code leaves the
   runtime, so the program is looked for among the failed frames of the tree. -/
set_option autoImplicit false

namespace WakeSol.Trace

open TextLib RadixLib RoseLib

def customKey : Text :=
  ['c', 'u', 's', 't', 'o', 'm', ' ', 'p', 'r', 'o', 'g', 'r', 'a', 'm', ' ', 'e', 'r', 'r', 'o', 'r', ':', ' ', '0', 'x']

def parseCustomCode (message : Text) : Option Nat :=
  (stripPrefix customKey (trim message)).bind fun hex => parseRadix 16 hexValue 32 ((splitWhitespace hex).headD hex)

structure Found where
  matched : Option Address
  failed : Option Address
deriving DecidableEq

def Found.visit (code : Nat) (found : Found) (record : Record) : Found :=
  if record.status = .failed then
    ⟨if record.errorMsg.bind parseCustomCode = some code then some record.programId else found.matched, some record.programId⟩
  else found

mutual
def failingWalkNode (code : Nat) (found : Found) : Traced → Found
  | .node record children => failingWalk code (found.visit code record) children
def failingWalk (code : Nat) (found : Found) : List Traced → Found
  | [] => found
  | node :: rest => failingWalk code (failingWalkNode code found node) rest
end

def failingProgram (tree : List Traced) (code : Nat) : Option Address :=
  let found := failingWalk code ⟨none, none⟩ tree
  found.matched.or found.failed

mutual
theorem failing_walk_node (code : Nat) (found : Found) (tree : Traced) :
    failingWalkNode code found tree = (preorder tree).foldl (Found.visit code) found := by
  cases tree with
  | node record children => rw [failingWalkNode, preorder, List.foldl_cons, failing_walk]
theorem failing_walk (code : Nat) (found : Found) (forest : List Traced) :
    failingWalk code found forest = (forestPreorder forest).foldl (Found.visit code) found := by
  cases forest with
  | nil => rfl
  | cons tree rest => rw [failingWalk, forestPreorder, List.foldl_append, failing_walk_node, failing_walk]
end

def failures (records : List Record) : List (Address × Option Text) :=
  (records.filter fun record => record.status = .failed).map fun record => (record.programId, record.errorMsg)

def reports (code : Nat) (failure : Address × Option Text) : Bool := failure.2.bind parseCustomCode == some code

theorem visit_failures (code : Nat) (records : List Record) (found : Found) :
    records.foldl (Found.visit code) found =
      ⟨((((failures records).filter (reports code)).getLast?).map Prod.fst).or found.matched,
        (((failures records).getLast?).map Prod.fst).or found.failed⟩ := by
  induction records generalizing found with
  | nil => rfl
  | cons record rest ih =>
    rw [List.foldl_cons, ih, Found.visit]
    by_cases failed : record.status = .failed
    · have shape : failures (record :: rest) = (record.programId, record.errorMsg) :: failures rest := by
        simp [failures, failed]
      rw [if_pos failed, shape, List.filter_cons, List.getLast?_cons]
      by_cases same : record.errorMsg.bind parseCustomCode = some code
      · have hit : reports code (record.programId, record.errorMsg) = true := by simpa [reports] using same
        rw [if_pos same, if_pos hit, List.getLast?_cons]
        cases ((failures rest).filter (reports code)).getLast? <;> cases (failures rest).getLast? <;> rfl
      · have miss : ¬ reports code (record.programId, record.errorMsg) = true := by simpa [reports] using same
        rw [if_neg same, if_neg miss]
        cases (failures rest).getLast? <;> rfl
    · have shape : failures (record :: rest) = failures rest := by simp [failures, failed]
      rw [if_neg failed, shape]

theorem failing_program_last (tree : List Traced) (code : Nat) : failingProgram tree code =
    ((((failures (forestPreorder tree)).filter (reports code)).getLast?).map Prod.fst).or
      (((failures (forestPreorder tree)).getLast?).map Prod.fst) := by
  rw [failingProgram, failing_walk, visit_failures]
  simp

-- The text the runtime gives a custom code.
def customMessage (code : Nat) : Text := customKey ++ hexadecimal code

theorem custom_message_trimmed (code : Nat) : Trimmed (customMessage code) :=
  trim_append _ (hexadecimal code) 'c' (by decide) (numeral_nonempty 16 hexChar code)
    (solid_trimmed (hexadecimal code) (hexadecimal_solid code))

theorem parse_custom_message (code : Nat) (fits : code < 2 ^ 32) : parseCustomCode (customMessage code) = some code := by
  have nonempty : hexadecimal code ≠ [] := numeral_nonempty 16 hexChar code
  rw [parseCustomCode, custom_message_trimmed, customMessage, strip_prefix_append, Option.bind_some,
    split_whitespace_word _ nonempty (hexadecimal_solid code), List.headD_cons, parse_hexadecimal 32 code fits]

inductive FailedChain : List Traced → List (Record × Nat) → Prop where
  | none (forest : List Traced) (sound : ∀ record ∈ forestPreorder forest, record.status ≠ .failed) : FailedChain forest []
  | frame (before after : List Traced) (record : Record) (children : List Traced) (code : Nat) (deeper : List (Record × Nat))
      (soundBefore : ∀ record ∈ forestPreorder before, record.status ≠ .failed)
      (soundAfter : ∀ record ∈ forestPreorder after, record.status ≠ .failed)
      (failed : record.status = .failed) (message : record.errorMsg = some (customMessage code)) (fits : code < 2 ^ 32)
      (below : FailedChain children deeper) :
      FailedChain (before ++ .node record children :: after) ((record, code) :: deeper)

def keptChain (parent : Record) : List (Record × Nat) → List (Record × Nat)
  | [] => []
  | (record, code) :: deeper => if isEventCall parent record then [] else (record, code) :: keptChain record deeper

-- The frame that produced the reported code: the deepest one reached without
-- meeting another code.
def origin (first : Record × Nat) (deeper : List (Record × Nat)) : Record :=
  ((deeper.takeWhile fun frame => frame.2 = first.2).getLastD first).1

def deepestReporting (first : Record × Nat) (deeper : List (Record × Nat)) : Record :=
  (((keptChain first.1 deeper).filter fun frame => frame.2 = first.2).getLastD first).1

theorem failures_append (front back : List Record) : failures (front ++ back) = failures front ++ failures back := by
  rw [failures, List.filter_append, List.map_append]
  rfl

theorem failures_cons (record : Record) (rest : List Record) :
    failures (record :: rest) = failures [record] ++ failures rest := failures_append [record] rest

theorem failures_events (record : Record) (events : List Bytes) :
    failures [{ record with eventData := events }] = failures [record] := by
  by_cases failed : record.status = .failed
  · simp [failures, failed]
  · simp [failures, failed]

theorem failures_none (records : List Record) (sound : ∀ record ∈ records, record.status ≠ .failed) :
    failures records = [] := by
  rw [failures, List.map_eq_nil_iff, List.filter_eq_nil_iff]
  intro record inside
  simpa using sound record inside

mutual
theorem hoist_node_failures (tree : Traced) :
    List.Sublist (failures (preorder (hoistNode tree))) (failures (preorder tree)) := by
  cases tree with
  | node record children =>
    rw [hoistNode, preorder, preorder, failures_cons, failures_events, failures_cons record (forestPreorder children)]
    exact (List.Sublist.refl (failures [record])).append (hoist_children_failures record children)
theorem hoist_children_failures (parent : Record) (children : List Traced) :
    List.Sublist (failures (forestPreorder (hoistChildren parent children))) (failures (forestPreorder children)) := by
  cases children with
  | nil => exact List.Sublist.refl _
  | cons child rest =>
    rw [hoistChildren, forestPreorder, failures_append]
    by_cases event : isEventCall parent child.label = true
    · rw [if_pos event]
      exact (hoist_children_failures parent rest).trans (List.sublist_append_right _ _)
    · rw [if_neg event, forestPreorder, failures_append]
      exact (hoist_node_failures child).append (hoist_children_failures parent rest)
end

theorem hoist_children_sound (parent : Record) (children : List Traced)
    (sound : ∀ record ∈ forestPreorder children, record.status ≠ .failed) :
    failures (forestPreorder (hoistChildren parent children)) = [] := by
  have dropped := hoist_children_failures parent children
  rw [failures_none _ sound] at dropped
  exact List.sublist_nil.mp dropped

theorem hoist_roots_sound (roots : List Traced) (sound : ∀ record ∈ forestPreorder roots, record.status ≠ .failed) :
    failures (forestPreorder (hoistCpiEvents roots)) = [] := by
  induction roots with
  | nil => rfl
  | cons tree rest ih =>
    rw [forestPreorder] at sound
    have first := hoist_node_failures tree
    rw [failures_none _ fun record inside => sound record (List.mem_append_left _ inside)] at first
    have others := ih fun record inside => sound record (List.mem_append_right _ inside)
    rw [hoistCpiEvents, List.map_cons, forestPreorder, failures_append, List.sublist_nil.mp first, List.nil_append]
    exact others

theorem hoist_children_append (parent : Record) (front back : List Traced) :
    hoistChildren parent (front ++ back) = hoistChildren parent front ++ hoistChildren parent back := by
  induction front with
  | nil => rfl
  | cons child rest ih =>
    rw [List.cons_append, hoistChildren, hoistChildren, ih]
    by_cases event : isEventCall parent child.label = true
    · rw [if_pos event, if_pos event]
    · rw [if_neg event, if_neg event, List.cons_append]

def frameFailure (frame : Record × Nat) : Address × Option Text := (frame.1.programId, some (customMessage frame.2))

theorem hoisted_frame_failures (record : Record) (children : List Traced) (code : Nat) (failed : record.status = .failed)
    (message : record.errorMsg = some (customMessage code)) :
    failures (preorder (hoistNode (.node record children))) =
      frameFailure (record, code) :: failures (forestPreorder (hoistChildren record children)) := by
  rw [hoistNode, preorder, failures_cons]
  simp [failures, failed, message, frameFailure]

theorem hoisted_chain_failures (parent : Record) (children : List Traced) (chain : List (Record × Nat))
    (isChain : FailedChain children chain) :
    failures (forestPreorder (hoistChildren parent children)) = (keptChain parent chain).map frameFailure := by
  induction isChain generalizing parent with
  | none forest sound => exact hoist_children_sound parent forest sound
  | frame before after record children code deeper soundBefore soundAfter failed message _ _ ih =>
    rw [hoist_children_append, forest_preorder_append, failures_append, hoist_children_sound parent before soundBefore,
      List.nil_append, hoistChildren, Rose.label, keptChain]
    by_cases event : isEventCall parent record = true
    · rw [if_pos event, if_pos event]
      exact hoist_children_sound parent after soundAfter
    · rw [if_neg event, if_neg event, forestPreorder, failures_append, hoist_children_sound parent after soundAfter,
        List.append_nil, hoisted_frame_failures record children code failed message, ih record, List.map_cons]

theorem hoisted_roots_failures (forest : List Traced) (first : Record × Nat) (deeper : List (Record × Nat))
    (isChain : FailedChain forest (first :: deeper)) :
    failures (forestPreorder (hoistCpiEvents forest)) = (first :: keptChain first.1 deeper).map frameFailure := by
  cases isChain with
  | frame before after record children code deeper soundBefore soundAfter failed message _ below =>
    have front := hoist_roots_sound before soundBefore
    have back := hoist_roots_sound after soundAfter
    rw [hoistCpiEvents] at front back
    rw [hoistCpiEvents, List.map_append, List.map_cons, forest_preorder_append, forestPreorder, failures_append,
      failures_append, front, back, List.nil_append, List.append_nil,
      hoisted_frame_failures record children code failed message, hoisted_chain_failures record children deeper below,
      List.map_cons]

theorem chain_codes (forest : List Traced) (chain : List (Record × Nat)) (isChain : FailedChain forest chain) :
    ∀ frame ∈ chain, frame.2 < 2 ^ 32 := by
  induction isChain with
  | none forest sound => simp
  | frame before after record children code deeper _ _ _ _ fits _ ih =>
    intro frame inside
    rcases List.mem_cons.mp inside with rfl | below
    · exact fits
    · exact ih frame below

theorem kept_chain_initial (parent : Record) (chain : List (Record × Nat)) : keptChain parent chain <+: chain := by
  induction chain generalizing parent with
  | nil => exact List.prefix_rfl
  | cons frame deeper ih =>
    obtain ⟨record, code⟩ := frame
    rw [keptChain]
    by_cases event : isEventCall parent record = true
    · rw [if_pos event]
      exact List.nil_prefix
    · rw [if_neg event]
      exact List.cons_prefix_cons.mpr ⟨rfl, ih record⟩

theorem reports_frame (code : Nat) (frame : Record × Nat) (fits : frame.2 < 2 ^ 32) :
    reports code (frameFailure frame) = decide (frame.2 = code) := by
  rw [reports, frameFailure, Option.bind_some, parse_custom_message frame.2 fits]
  by_cases same : frame.2 = code
  · simp [same]
  · simp [same]

theorem failing_program_chain (forest : List Traced) (first : Record × Nat) (deeper : List (Record × Nat))
    (isChain : FailedChain forest (first :: deeper)) :
    failingProgram (hoistCpiEvents forest) first.2 = some (deepestReporting first deeper).programId := by
  have codes := chain_codes forest _ isChain
  have inside : ∀ frame ∈ first :: keptChain first.1 deeper, frame.2 < 2 ^ 32 := by
    intro frame kept
    rcases List.mem_cons.mp kept with rfl | below
    · exact codes _ List.mem_cons_self
    · exact codes frame (List.mem_cons_of_mem _ ((kept_chain_initial first.1 deeper).subset below))
  have hits : ((first :: keptChain first.1 deeper).map frameFailure).filter (reports first.2) =
      (first :: (keptChain first.1 deeper).filter fun frame => frame.2 = first.2).map frameFailure := by
    rw [List.filter_map, Function.comp_def, List.filter_congr fun frame kept => reports_frame first.2 frame (inside frame kept),
      List.filter_cons_of_pos (by simp)]
  rw [failing_program_last, hoisted_roots_failures forest first deeper isChain, hits, List.getLast?_map, List.getLast?_cons,
    deepestReporting, List.getLastD_eq_getLast?]
  rfl

theorem kept_chain_whole (parent : Record) (chain : List (Record × Nat))
    (calls : List.IsChain (fun caller callee => isEventCall caller callee = false) (parent :: chain.map Prod.fst)) :
    keptChain parent chain = chain := by
  induction chain generalizing parent with
  | nil => rfl
  | cons frame deeper ih =>
    obtain ⟨record, code⟩ := frame
    rw [List.map_cons, List.isChain_cons_cons] at calls
    rw [keptChain, if_neg (by simp [calls.1]), ih record calls.2]

theorem deepest_origin (first : Record × Nat) (deeper : List (Record × Nat))
    (calls : List.IsChain (fun caller callee => isEventCall caller callee = false) (first.1 :: deeper.map Prod.fst))
    (remapped : ∀ frame ∈ deeper.dropWhile (fun frame => frame.2 = first.2), frame.2 ≠ first.2) :
    deepestReporting first deeper = origin first deeper := by
  have split : (deeper.filter fun frame => frame.2 = first.2) = deeper.takeWhile fun frame => frame.2 = first.2 := by
    have above := List.filter_eq_self.mpr fun frame inside =>
      List.mem_takeWhile_imp (p := fun frame : Record × Nat => decide (frame.2 = first.2)) (l := deeper) inside
    have below : (deeper.dropWhile fun frame => frame.2 = first.2).filter (fun frame => frame.2 = first.2) = [] := by
      rw [List.filter_eq_nil_iff]
      intro frame inside
      simpa using remapped frame inside
    nth_rewrite 1 [← List.takeWhile_append_dropWhile (p := fun frame : Record × Nat => decide (frame.2 = first.2)) (l := deeper)]
    rw [List.filter_append, above, below, List.append_nil]
  rw [deepestReporting, kept_chain_whole first.1 deeper calls, split, origin]

theorem failing_program_origin_iff (message : Message) (innerInstructions : List (List InnerInstruction)) (logs : List Text)
    (first : Record × Nat) (deeper : List (Record × Nat))
    (isChain : FailedChain (attachLogs (callTree message innerInstructions) logs) (first :: deeper)) :
    failingProgram (buildCallTree message innerInstructions logs) first.2 = some (origin first deeper).programId ↔
      (deepestReporting first deeper).programId = (origin first deeper).programId := by
  rw [buildCallTree, failing_program_chain _ first deeper isChain, Option.some.injEq]

mutual
theorem hoist_node_records (tree : Traced) (record : Record) (kept : record ∈ preorder (hoistNode tree)) :
    ∃ original ∈ preorder tree, ∃ events, record = { original with eventData := events } := by
  cases tree with
  | node parent children =>
    rw [hoistNode, preorder] at kept
    rw [preorder]
    rcases List.mem_cons.mp kept with same | below
    · exact ⟨parent, List.mem_cons_self, _, same⟩
    · obtain ⟨original, inside, events, same⟩ := hoist_children_records parent children record below
      exact ⟨original, List.mem_cons_of_mem _ inside, events, same⟩
theorem hoist_children_records (parent : Record) (children : List Traced) (record : Record)
    (kept : record ∈ forestPreorder (hoistChildren parent children)) :
    ∃ original ∈ forestPreorder children, ∃ events, record = { original with eventData := events } := by
  cases children with
  | nil => cases kept
  | cons child rest =>
    rw [hoistChildren] at kept
    rw [forestPreorder]
    by_cases event : isEventCall parent child.label = true
    · rw [if_pos event] at kept
      obtain ⟨original, inside, found⟩ := hoist_children_records parent rest record kept
      exact ⟨original, List.mem_append_right _ inside, found⟩
    · rw [if_neg event, forestPreorder] at kept
      rcases List.mem_append.mp kept with here | later
      · obtain ⟨original, inside, found⟩ := hoist_node_records child record here
        exact ⟨original, List.mem_append_left _ inside, found⟩
      · obtain ⟨original, inside, found⟩ := hoist_children_records parent rest record later
        exact ⟨original, List.mem_append_right _ inside, found⟩
end

theorem build_messaged (message : Message) (innerInstructions : List (List InnerInstruction)) (logs : List Text) :
    ∀ record ∈ forestPreorder (buildCallTree message innerInstructions logs), record.errorMsg ≠ none →
      record.status = .failed := by
  intro record kept
  rw [buildCallTree, hoistCpiEvents, mem_forest_preorder] at kept
  obtain ⟨folded, listed, below⟩ := kept
  obtain ⟨tree, root, rfl⟩ := List.mem_map.mp listed
  obtain ⟨original, inside, events, rfl⟩ := hoist_node_records tree record below
  exact attach_messaged _ logs original ((mem_forest_preorder _ original).mpr ⟨tree, root, inside⟩)

def chainMessage : Message where
  staticAccountKeys := [.fill 1, .fill 2, .fill 3]
  instructions := [⟨0, [], []⟩]
  addressTableLookups := []
  isSigner := fun _ => false
  isMaybeWritable := fun _ => false

def chainInner : List (List InnerInstruction) := [[⟨⟨1, [], []⟩, 2⟩, ⟨⟨2, [], []⟩, 3⟩]]

def chainFrame (program height : Nat) : Call := ⟨.fill (UInt8.ofNat program), [], [], height⟩

def failedWith (code : Nat) : Close := ⟨none, .failed (customMessage code)⟩

def chainRun (outer middle inner : Nat) : Run :=
  ⟨[.frame (chainFrame 1 1)
    (.call (chainFrame 2 2) (.call (chainFrame 3 3) .done (failedWith inner) .done) (failedWith middle) .done)
    (failedWith outer)], []⟩

def chainRecord (program code : Nat) : Record := ⟨chainFrame program program, ownEnrichment .done (failedWith code)⟩

theorem chain_run_failed (outer middle inner : Nat) (outerFits : outer < 2 ^ 32) (middleFits : middle < 2 ^ 32)
    (innerFits : inner < 2 ^ 32) : FailedChain (chainRun outer middle inner).traced
      [(chainRecord 1 outer, outer), (chainRecord 2 middle, middle), (chainRecord 3 inner, inner)] := by
  have nothing : ∀ record ∈ forestPreorder ([] : List Traced), record.status ≠ .failed := by simp [forestPreorder]
  have innermost := FailedChain.frame [] [] (chainRecord 3 inner) [] inner [] nothing nothing rfl rfl innerFits
    (.none [] nothing)
  have middlemost := FailedChain.frame [] [] (chainRecord 2 middle) _ middle _ nothing nothing rfl rfl middleFits innermost
  exact FailedChain.frame [] [] (chainRecord 1 outer) _ outer _ nothing nothing rfl rfl outerFits middlemost

theorem remapped_innermost_skipped : (chainRun 5 5 7).Valid ∧
    failingProgram (buildCallTree chainMessage chainInner (chainRun 5 5 7).lines) 5 = some (.fill 2) := by
  have valid : (chainRun 5 5 7).Valid := by decide +kernel
  have executed : callTree chainMessage chainInner = (chainRun 5 5 7).bare := rfl
  have isChain := chain_run_failed 5 5 7 (by decide) (by decide) (by decide)
  rw [← attach_valid _ valid, ← executed] at isChain
  exact ⟨valid, (failing_program_origin_iff chainMessage chainInner _ _ _ isChain).mpr (by decide)⟩

-- The outermost frame produced 5 out of the 7 it was given; the answer is the
-- innermost one, whose 5 was lost on the way up.
theorem code_coincides_below : (chainRun 5 7 5).Valid ∧
    FailedChain (attachLogs (callTree chainMessage chainInner) (chainRun 5 7 5).lines)
      [(chainRecord 1 5, 5), (chainRecord 2 7, 7), (chainRecord 3 5, 5)] ∧
    (origin (chainRecord 1 5, 5) [(chainRecord 2 7, 7), (chainRecord 3 5, 5)]).programId = .fill 1 ∧
    failingProgram (buildCallTree chainMessage chainInner (chainRun 5 7 5).lines) 5 = some (.fill 3) := by
  have valid : (chainRun 5 7 5).Valid := by decide +kernel
  have executed : callTree chainMessage chainInner = (chainRun 5 7 5).bare := rfl
  have isChain := chain_run_failed 5 7 5 (by decide) (by decide) (by decide)
  rw [← attach_valid _ valid, ← executed] at isChain
  have found := failing_program_chain _ _ _ isChain
  exact ⟨valid, isChain, by decide, found⟩

end WakeSol.Trace
