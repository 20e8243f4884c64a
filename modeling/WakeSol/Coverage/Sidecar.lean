import WakeSol.Coverage.RowCache

/- The gate before a debug build is used: its code has to be the code that ran, up to
   the immediates of calls, which the loader rewrites. -/
set_option autoImplicit false

namespace WakeSol.Coverage

open TextLib TallyLib CacheLib RadixLib

def InCallImmediate (left right : Bytes) (i : Nat) : Prop :=
  4 ≤ i % insnSize ∧ left[insnSize * (i / insnSize)]? = some callImm ∧ right[insnSize * (i / insnSize)]? = some callImm

-- The same instructions up to call immediates. What is left over after the last
-- whole instruction is no code.
def SameCode (left right : Bytes) : Prop :=
  left.length = right.length ∧
    ∀ i < insnSize * (left.length / insnSize), left[i]? ≠ right[i]? → InCallImmediate left right i

def insnSlot (text : Bytes) (slot : Nat) : Bytes := (text.drop (insnSize * slot)).take insnSize

theorem slot_get (text : Bytes) (slot j : Nat) (inside : j < insnSize) :
    (insnSlot text slot)[j]? = text[insnSize * slot + j]? := by
  rw [insnSlot, List.getElem?_take_of_lt inside, List.getElem?_drop]

theorem slot_head (text : Bytes) (slot : Nat) : (insnSlot text slot).head? = text[insnSize * slot]? := by
  rw [List.head?_eq_getElem?, slot_get text slot 0 (by decide), Nat.add_zero]

theorem slot_length (text : Bytes) (slot : Nat) (inside : slot < text.length / insnSize) :
    (insnSlot text slot).length = insnSize := by
  rw [insnSlot, List.length_take, List.length_drop]
  rw [insnSize] at inside ⊢
  omega

variable (left right : Bytes)

theorem same_iff_bytes (n : Nat) (leftLength : left.length = n) (rightLength : right.length = n) :
    left = right ↔ ∀ j < n, left[j]? = right[j]? := by
  refine ⟨fun same j _ => by rw [same], fun bytes => List.ext_getElem? fun j => ?_⟩
  by_cases inside : j < n
  · exact bytes j inside
  · rw [List.getElem?_eq_none (by omega), List.getElem?_eq_none (by omega)]

theorem take_iff_bytes (n : Nat) : left.take n = right.take n ↔ ∀ j < n, left[j]? = right[j]? := by
  constructor
  · intro same j inside
    rw [← List.getElem?_take_of_lt inside, same, List.getElem?_take_of_lt inside]
  · intro bytes
    refine List.ext_getElem? fun j => ?_
    by_cases inside : j < n
    · rw [List.getElem?_take_of_lt inside, List.getElem?_take_of_lt inside, bytes j inside]
    · rw [List.getElem?_take, if_neg inside, List.getElem?_take, if_neg inside]

theorem slot_matches_iff (leftLength : left.length = insnSize) (rightLength : right.length = insnSize) :
    slotMatches left right = true ↔ ∀ j < insnSize, left[j]? ≠ right[j]? →
      4 ≤ j ∧ left.head? = some callImm ∧ right.head? = some callImm := by
  rw [slotMatches]
  by_cases calls : left.head? = some callImm ∧ right.head? = some callImm
  · rw [if_pos calls, beq_iff_eq, take_iff_bytes]
    constructor
    · intro front j _ differ
      refine ⟨?_, calls⟩
      by_contra early
      exact differ (front j (by omega))
    · intro back j early
      by_contra differ
      have late := (back j (by rw [insnSize]; omega) differ).1
      omega
  · rw [if_neg calls, beq_iff_eq, same_iff_bytes left right insnSize leftLength rightLength]
    constructor
    · intro same j inside differ
      exact absurd (same j inside) differ
    · intro only j inside
      by_contra differ
      exact calls (only j inside differ).2

theorem text_matches_slots : textMatches (some left) (some right) = true ↔
    left.length = right.length ∧ ∀ slot < left.length / insnSize, slotMatches (insnSlot left slot) (insnSlot right slot) = true := by
  rw [textMatches, Bool.and_eq_true, beq_iff_eq]
  refine and_congr_right fun same => ?_
  rw [slots, slots, ← same, List.zip_map', List.all_map, List.all_eq_true]
  simp only [List.mem_range]
  rfl

theorem text_matches_iff : textMatches (some left) (some right) = true ↔ SameCode left right := by
  rw [text_matches_slots, SameCode]
  refine and_congr_right fun same => ?_
  constructor
  · intro each i inside differ
    have slot : i / insnSize < left.length / insnSize := Nat.div_lt_of_lt_mul inside
    have position : insnSize * (i / insnSize) + i % insnSize = i := Nat.div_add_mod i insnSize
    have within : i % insnSize < insnSize := Nat.mod_lt _ (by decide)
    have here := (slot_matches_iff _ _ (slot_length left _ slot) (slot_length right _ (same ▸ slot))).mp
      (each (i / insnSize) slot) (i % insnSize) within
    rw [slot_get _ _ _ within, slot_get _ _ _ within, position, slot_head, slot_head] at here
    exact here differ
  · intro each slot inside
    rw [slot_matches_iff _ _ (slot_length left _ inside) (slot_length right _ (same ▸ inside))]
    intro j within differ
    have quotient : (insnSize * slot + j) / insnSize = slot := by
      rw [insnSize] at within ⊢
      omega
    have remainder : (insnSize * slot + j) % insnSize = j := by
      rw [insnSize] at within ⊢
      omega
    have bound : insnSize * slot + j < insnSize * (left.length / insnSize) := by
      rw [insnSize] at within inside ⊢
      omega
    rw [slot_get _ _ _ within, slot_get _ _ _ within] at differ
    have allowed := each _ bound differ
    rw [InCallImmediate, quotient, remainder] at allowed
    rwa [slot_head, slot_head]

theorem same_code_whole (whole : insnSize ∣ left.length) : SameCode left right ↔
      left.length = right.length ∧ ∀ i : Nat, left[i]? ≠ right[i]? → InCallImmediate left right i := by
  rw [SameCode, Nat.mul_div_cancel' whole]
  refine and_congr_right fun same => ⟨fun each i differ => each i ?_ differ, fun each i _ => each i⟩
  by_contra outside
  exact differ (by rw [List.getElem?_eq_none (by omega), List.getElem?_eq_none (by omega)])

theorem same_code_refl (text : Bytes) : SameCode text text := ⟨rfl, fun _ _ differ => absurd rfl differ⟩

theorem same_code_symm (same : SameCode left right) : SameCode right left := by
  obtain ⟨lengths, bytes⟩ := same
  refine ⟨lengths.symm, fun i inside differ => ?_⟩
  rw [← lengths] at inside
  obtain ⟨late, first, second⟩ := bytes i inside (Ne.symm differ)
  exact ⟨late, second, first⟩

theorem same_opcode (same : SameCode left right) (i : Nat) (inside : i < insnSize * (left.length / insnSize)) :
    left[insnSize * (i / insnSize)]? = right[insnSize * (i / insnSize)]? := by
  by_contra differ
  have early : insnSize * (i / insnSize) < insnSize * (left.length / insnSize) := by
    have low := Nat.mul_div_le i insnSize
    omega
  have late := (same.2 _ early differ).1
  rw [Nat.mul_mod_right] at late
  omega

theorem same_code_trans (left middle right : Bytes) (first : SameCode left middle) (second : SameCode middle right) :
    SameCode left right := by
  refine ⟨first.1.trans second.1, fun i inside differ => ?_⟩
  have alsoInside : i < insnSize * (middle.length / insnSize) := first.1 ▸ inside
  have opcodes := same_opcode left middle first i inside
  have others := same_opcode middle right second i alsoInside
  by_cases here : left[i]? = middle[i]?
  · obtain ⟨late, call, called⟩ := second.2 i alsoInside fun same => differ (here.trans same)
    exact ⟨late, opcodes.trans call, called⟩
  · obtain ⟨late, call, called⟩ := first.2 i inside here
    exact ⟨late, call, others.symm.trans called⟩

def SameBuild (toolchain : Toolchain) (sidecar deployed : Bytes) : Prop :=
  ∃ text code, textOf toolchain sidecar = some text ∧ textOf toolchain deployed = some code ∧ SameCode text code

variable (toolchain : Toolchain)

theorem same_build_iff (sidecar deployed : Bytes) :
    textMatches (textOf toolchain sidecar) (textOf toolchain deployed) = true ↔ SameBuild toolchain sidecar deployed := by
  rw [SameBuild]
  cases textOf toolchain sidecar with
  | none => simp [textMatches]
  | some text =>
    cases textOf toolchain deployed with
    | none => simp [textMatches]
    | some code => simp [text_matches_iff]

variable (disk : Disk)

theorem matched_not_mismatch (programId : Address) (counters : ProgramCounters)
    (sidecar deployed : Bytes) (roots : List RootSpec) (out : LineCounts) (cache : RowCache)
    (isDeployed : counters.elf = some deployed)
    (chosen : chooseElf toolchain (some sidecar) (some deployed) = .elf sidecar) :
    (resolveProgram toolchain disk programId counters (some sidecar) roots out cache).report.textMismatch = false := by
  rw [resolveProgram, isDeployed, chosen]
  dsimp only
  cases toolchain.parse sidecar with
  | none => rfl
  | some object =>
    dsimp only
    split
    · rfl
    · rfl

theorem sidecar_gate (toolchain : Toolchain) (disk : Disk) :
    Equivalence (fun left right : { text : Bytes // insnSize ∣ text.length } =>
      textMatches (some left.1) (some right.1) = true) ∧
    (∀ left right : Bytes, insnSize ∣ left.length → insnSize ∣ right.length →
      (textMatches (some left) (some right) = true ↔
        left.length = right.length ∧ ∀ i : Nat, left[i]? ≠ right[i]? → InCallImmediate left right i)) ∧
    ∀ (programId : Address) (counters : ProgramCounters) (sidecar deployed : Bytes) (roots : List RootSpec) (out : LineCounts)
      (cache : RowCache), counters.elf = some deployed →
      let resolved := resolveProgram toolchain disk programId counters (some sidecar) roots out cache
      (SameBuild toolchain sidecar deployed →
        chooseElf toolchain (some sidecar) counters.elf = .elf sidecar ∧ resolved.report.textMismatch = false) ∧
      (¬ SameBuild toolchain sidecar deployed →
        resolved.report.textMismatch = true ∧ resolved.report.linesResolved = 0 ∧ resolved.lines = out ∧
          resolved.cache = cache) := by
  refine ⟨⟨?_, ?_, ?_⟩, ?_, ?_⟩
  · intro text
    exact (text_matches_iff _ _).mpr (same_code_refl text.1)
  · intro left right same
    exact (text_matches_iff _ _).mpr (same_code_symm _ _ ((text_matches_iff _ _).mp same))
  · intro left middle right first second
    exact (text_matches_iff _ _).mpr
      (same_code_trans _ _ _ ((text_matches_iff _ _).mp first) ((text_matches_iff _ _).mp second))
  · intro left right whole _
    rw [text_matches_iff, same_code_whole left right whole]
  · intro programId counters sidecar deployed roots out cache isDeployed
    constructor
    · intro same
      have chosen : chooseElf toolchain (some sidecar) (some deployed) = .elf sidecar := by
        rw [chooseElf, if_pos ((same_build_iff toolchain sidecar deployed).mpr same)]
      refine ⟨by rw [isDeployed, chosen], ?_⟩
      exact matched_not_mismatch toolchain disk programId counters sidecar deployed roots out cache isDeployed chosen
    · intro differ
      have chosen : chooseElf toolchain (some sidecar) (some deployed) = .mismatch := by
        rw [chooseElf, if_neg (mt (same_build_iff toolchain sidecar deployed).mp differ)]
      rw [resolveProgram, isDeployed, chosen]
      exact ⟨rfl, rfl, rfl, rfl⟩

structure Digests (toolchain : Toolchain) : Prop where
  injective : ∀ left right, toolchain.sha256Hex left = toolchain.sha256Hex right → left = right
  nonempty : ∀ text, toolchain.sha256Hex text ≠ []
  clean : ∀ text, Char.ofNat 3 ∉ toolchain.sha256Hex text

theorem digest_clean (digests : Digests toolchain) (elf : Option Bytes) : Char.ofNat 3 ∉ textDigest toolchain elf := by
  rw [textDigest]
  cases elf.bind (textOf toolchain) with
  | none => exact List.not_mem_nil
  | some text => exact digests.clean text

theorem cache_key_digest (left right : Address) (leftDigest rightDigest : Text) (leftRoots rightRoots : List RootSpec)
    (leftClean : Char.ofNat 3 ∉ leftDigest) (rightClean : Char.ofNat 3 ∉ rightDigest)
    (same : cacheKey left leftDigest leftRoots = cacheKey right rightDigest rightRoots) : leftDigest = rightDigest := by
  rw [cache_key_program left right _ _ _ _ same, cacheKey, cacheKey, List.append_assoc, List.append_assoc] at same
  have rest := List.append_cancel_left same
  rw [List.cons_append, List.cons_append, List.cons.injEq] at rest
  have read := congrArg (splitOnce [Char.ofNat 3]) rest.2
  rw [split_once_char _ _ _ leftClean, split_once_char _ _ _ rightClean] at read
  exact congrArg Prod.fst (Option.some.inj read)

def TableOf (toolchain : Toolchain) (disk : Disk) (code : Bytes) (table : LineTable) : Prop :=
  ∃ elf object text roots, toolchain.parse elf = some object ∧ freshTable disk roots object = some table ∧
    textOf toolchain elf = some text ∧ SameCode text code

theorem request_origin (debugElfs : Dict Address Bytes) (roots : List RootSpec)
    (program : Address × ProgramCounters) (key : Text) (table : LineTable) (code : Bytes)
    (asked : tableRequest toolchain disk debugElfs roots program = some (key, some table))
    (deployed : program.2.elf.bind (textOf toolchain) = some code) : TableOf toolchain disk code table := by
  obtain ⟨elf, isElf, isCode⟩ := Option.bind_eq_some_iff.mp deployed
  have chosen : ∀ bytes text, textOf toolchain bytes = some text → SameCode text code →
      (toolchain.parse bytes).map (fun object =>
        (cacheKey program.1 (textDigest toolchain program.2.elf) roots, freshTable disk roots object)) = some (key, some table) →
      TableOf toolchain disk code table := by
    intro bytes text hasText same found
    obtain ⟨object, parsed, pair⟩ := Option.map_eq_some_iff.mp found
    exact ⟨bytes, object, text, roots, parsed, (Prod.mk.inj pair).2, hasText, same⟩
  rw [tableRequest, isElf] at asked
  cases registered : debugElfs.get program.1 with
  | none =>
    rw [registered, chooseElf] at asked
    exact chosen elf code isCode (same_code_refl code) (by rw [isElf]; exact asked)
  | some sidecar =>
    rw [registered, chooseElf] at asked
    by_cases gate : textMatches (textOf toolchain sidecar) (textOf toolchain elf) = true
    · obtain ⟨text, found, hasText, isFound, same⟩ := (same_build_iff toolchain sidecar elf).mp gate
      rw [isCode, Option.some.injEq] at isFound
      rw [if_pos gate] at asked
      exact chosen sidecar text hasText (isFound ▸ same) (by rw [isElf]; exact asked)
    · rw [if_neg gate] at asked
      cases asked

theorem requests_origin (counters : Counters) (events : List Event)
    (asked : Text × Option LineTable) (inside : asked ∈ requests toolchain disk counters events) :
    ∃ debugElfs roots program, tableRequest toolchain disk debugElfs roots program = some asked := by
  induction events generalizing counters with
  | nil => cases inside
  | cons event rest ih =>
    cases event with
    | report roots =>
      rw [requests] at inside
      rcases List.mem_append.mp inside with here | later
      · obtain ⟨program, -, isAsked⟩ := List.mem_filterMap.mp here
        exact ⟨_, roots, program, isAsked⟩
      · exact ih _ later
    | execute programId text found trace => exact ih _ inside
    | addDebugElf programId elf => exact ih _ inside
    | reset => exact ih _ inside

theorem session_tables_match (digests : Digests toolchain) (events : List Event)
    (roots : List RootSpec) (program : Address × ProgramCounters) (code : Bytes)
    (deployed : program.2.elf.bind (textOf toolchain) = some code) (debugElfs : Dict Address Bytes)
    (asked : Text × Option LineTable) (isAsked : tableRequest toolchain disk debugElfs roots program = some asked)
    (table : LineTable) (used : (firstAnswer (requests toolchain disk .fresh events) asked.1).or asked.2 = some table) :
    TableOf toolchain disk code table := by
  cases cached : firstAnswer (requests toolchain disk .fresh events) asked.1 with
  | none =>
    rw [cached, Option.none_or] at used
    exact request_origin toolchain disk debugElfs roots program asked.1 table code (by rw [isAsked, ← used]) deployed
  | some answer =>
    rw [cached, Option.some_or, Option.some.injEq] at used
    subst used
    have earlier := first_answer_mem _ _ _ cached
    obtain ⟨oldElfs, oldRoots, old, wasAsked⟩ := requests_origin toolchain disk .fresh events _ earlier
    have oldKey := table_request_key toolchain disk oldElfs oldRoots old _ wasAsked
    have newKey := table_request_key toolchain disk debugElfs roots program asked isAsked
    have same := cache_key_digest _ _ _ _ _ _ (digest_clean toolchain digests old.2.elf)
      (digest_clean toolchain digests program.2.elf) (oldKey.symm.trans newKey)
    refine request_origin toolchain disk oldElfs oldRoots old asked.1 answer code wasAsked ?_
    rw [textDigest, textDigest, deployed] at same
    cases oldCode : old.2.elf.bind (textOf toolchain) with
    | none =>
      rw [oldCode] at same
      exact absurd same.symm (digests.nonempty code)
    | some text =>
      rw [oldCode] at same
      rw [digests.injective text code same]

def spelledBuilds : Toolchain := { twoBuilds with sha256Hex := fun text => '0' :: base58 text }

end WakeSol.Coverage
