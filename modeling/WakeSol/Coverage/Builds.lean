import WakeSol.Coverage.RowCache

/- Which build the counts of a report belong to. Counters are kept by program id
   alone, sized by the code of the first invocation and filed under the ELF seen
   first, while every SVM of the process may have deployed a build of its own. -/
set_option autoImplicit false

namespace WakeSol.Coverage

open TextLib TallyLib

inductive Action where
  | deploy (svm : Nat) (programId : Address) (elf : Bytes)
  | resetSvm (svm : Nat)
  | execute (svm : Nat) (programId : Address) (trace : List Nat)
  | addDebugElf (programId : Address) (elf : Bytes)
  | resetCoverage
  | report (roots : List RootSpec)

structure Invocation where
  programId : Address
  elf : Bytes
  trace : List Nat

structure Process where
  deployed : Nat → Address → Option Bytes
  counters : Counters
  ran : List Invocation

def Process.fresh : Process := ⟨fun _ _ => none, .fresh, []⟩

def Process.step (toolchain : Toolchain) (process : Process) : Action → Process
  | .deploy svm programId elf => { process with
      deployed := fun other address =>
        if other = svm ∧ address = programId then some elf else process.deployed other address }
  | .resetSvm svm => { process with
      deployed := fun other address => if other = svm then none else process.deployed other address }
  | .execute svm programId trace =>
    match process.deployed svm programId with
    | none => process
    | some elf => { process with
        counters := process.counters.after toolchain (.execute programId (toolchain.executableText elf) (some elf) trace)
        ran := process.ran ++ [⟨programId, elf, trace⟩] }
  | .addDebugElf programId elf => { process with counters := process.counters.after toolchain (.addDebugElf programId elf) }
  | .resetCoverage => { process with counters := process.counters.after toolchain .reset, ran := [] }
  | .report _ => process

def Process.run (toolchain : Toolchain) (process : Process) (actions : List Action) : Process :=
  actions.foldl (Process.step toolchain) process

def ranAs (programId : Address) (ran : List Invocation) : List Invocation := ran.filter fun one => one.programId = programId

def occurrences (ran : List Invocation) (pc : Nat) : Nat := (ran.flatMap Invocation.trace).count pc

def summary (toolchain : Toolchain) : List Invocation → Option ProgramCounters
  | [] => none
  | first :: rest => some ⟨((first :: rest).flatMap Invocation.trace).foldl countHit
      (List.replicate ((toolchain.executableText first.elf).length / insnSize) 0), some first.elf⟩

theorem summary_snoc (toolchain : Toolchain) (ran : List Invocation) (last : Invocation) :
    summary toolchain (ran ++ [last]) = some (((summary toolchain ran).getD
      (.new ((toolchain.executableText last.elf).length / insnSize))).record (some last.elf) last.trace) := by
  cases ran with
  | nil =>
    rw [List.nil_append, summary, summary, Option.getD_none, ProgramCounters.record, ProgramCounters.new]
    simp
  | cons first rest =>
    rw [List.cons_append, summary, summary, Option.getD_some, ProgramCounters.record, ← List.cons_append,
      List.flatMap_append, List.foldl_append]
    simp

theorem ran_as_snoc (programId : Address) (ran : List Invocation) (last : Invocation) :
    ranAs programId (ran ++ [last]) = if last.programId = programId then ranAs programId ran ++ [last] else ranAs programId ran := by
  rw [ranAs, List.filter_append, ranAs]
  by_cases same : last.programId = programId
  · simp [same]
  · simp [same]

def Tracked (toolchain : Toolchain) (process : Process) : Prop :=
  ∀ programId, process.counters.programs.get programId = summary toolchain (ranAs programId process.ran)

theorem step_tracked (toolchain : Toolchain) (process : Process) (action : Action) (tracked : Tracked toolchain process) :
    Tracked toolchain (process.step toolchain action) := by
  intro programId
  cases action with
  | deploy svm program elf => exact tracked programId
  | resetSvm svm => exact tracked programId
  | report roots => exact tracked programId
  | resetCoverage => rfl
  | addDebugElf program elf =>
    rw [Process.step, Counters.after, Counters.addDebugElf]
    split <;> exact tracked programId
  | execute svm program trace =>
    rw [Process.step]
    cases process.deployed svm program with
    | none => exact tracked programId
    | some elf =>
      dsimp only [Counters.after, Counters.record]
      rw [ran_as_snoc, get_set]
      by_cases same : programId = program
      · rw [if_pos same, if_pos same.symm, summary_snoc, ← tracked, same]
      · rw [if_neg same, if_neg fun other => same other.symm]
        exact tracked programId

theorem run_tracked (toolchain : Toolchain) (process : Process) (actions : List Action) (tracked : Tracked toolchain process) :
    Tracked toolchain (process.run toolchain actions) := by
  induction actions generalizing process with
  | nil => exact tracked
  | cons action rest ih => exact ih (process.step toolchain action) (step_tracked toolchain process action tracked)

theorem count_hit_get (hits : List Nat) (pc slot : Nat) :
    (countHit hits pc)[slot]? = (hits[slot]?).map fun count => if pc = slot then saturatingAdd count 1 else count := by
  rw [countHit, List.getElem?_modify]
  cases hits[slot]? <;> rfl

theorem counted_get (trace hits : List Nat) (slot : Nat) (bounded : ∀ count ∈ hits[slot]?, count ≤ u64Max) :
    (trace.foldl countHit hits)[slot]? = (hits[slot]?).map fun count => min (count + trace.count slot) u64Max := by
  induction trace generalizing hits with
  | nil =>
    cases found : hits[slot]? with
    | none => simp [found]
    | some count =>
      have small := bounded count found
      simp [found, small]
  | cons pc rest ih =>
    have still : ∀ count ∈ (countHit hits pc)[slot]?, count ≤ u64Max := by
      intro count found
      rw [count_hit_get] at found
      obtain ⟨before, isBefore, rfl⟩ := Option.map_eq_some_iff.mp found
      have small := bounded before isBefore
      split
      · rw [saturatingAdd]
        omega
      · exact small
    rw [List.foldl_cons, ih (countHit hits pc) still, count_hit_get, Option.map_map]
    cases found : hits[slot]? with
    | none => rfl
    | some count =>
      have small := bounded count found
      rw [Option.map_some, Option.map_some, List.count_cons]
      dsimp only [Function.comp]
      by_cases same : pc = slot
      · simp only [saturatingAdd, same, beq_self_eq_true, if_true]
        congr 1
        omega
      · simp [same]

theorem occurrences_split (ran : List Invocation) (own : Invocation → Bool) (pc : Nat) :
    occurrences ran pc = occurrences (ran.filter own) pc + occurrences (ran.filter fun one => !own one) pc := by
  induction ran with
  | nil => rfl
  | cons first rest ih =>
    simp only [occurrences, List.flatMap_cons, List.count_append] at ih ⊢
    by_cases mine : own first = true
    · rw [List.filter_cons_of_pos mine, List.filter_cons_of_neg (by simp [mine]), List.flatMap_cons, List.count_append]
      omega
    · rw [List.filter_cons_of_neg mine, List.filter_cons_of_pos (by simp [mine]), List.flatMap_cons, List.count_append]
      omega

theorem occurs_iff (ran : List Invocation) (pc : Nat) : 0 < occurrences ran pc ↔ ∃ one ∈ ran, pc ∈ one.trace := by
  rw [occurrences, List.count_pos_iff, List.mem_flatMap]

def codeSize (toolchain : Toolchain) (elf : Bytes) : Nat := (toolchain.executableText elf).length / insnSize

def Invocation.ofBuild (toolchain : Toolchain) (digest : Text) (one : Invocation) : Bool :=
  textDigest toolchain (some one.elf) = digest

-- A report states a digest for the program. Each slot has to count what the
-- invocations of that build executed, and nothing they executed may be missing.
def Process.CountsItsBuild (toolchain : Toolchain) (process : Process) (programId : Address) : Prop :=
  ∀ entry, process.counters.programs.get programId = some entry →
    let stated := (bareReport toolchain programId entry).textSha256
    let own := (ranAs programId process.ran).filter (Invocation.ofBuild toolchain stated)
    (∀ pc count, entry.hits[pc]? = some count → count = min (occurrences own pc) u64Max) ∧
      ∀ one ∈ own, ∀ pc ∈ one.trace, pc < entry.hits.length

-- Everything that ran under the id is of the build that ran first and stays inside
-- its code. Another build may only have touched counters that were full, or
-- instructions past the end of the first.
def OneBuild (toolchain : Toolchain) (ran : List Invocation) : Prop :=
  ∀ first ∈ ran.head?, ∀ one ∈ ran, ∀ pc ∈ one.trace,
    let own := Invocation.ofBuild toolchain (textDigest toolchain (some first.elf))
    if own one then pc < codeSize toolchain first.elf
    else pc < codeSize toolchain first.elf → u64Max ≤ occurrences (ran.filter own) pc

theorem summary_hits (toolchain : Toolchain) (first : Invocation) (rest : List Invocation) (entry : ProgramCounters)
    (found : summary toolchain (first :: rest) = some entry) :
    entry.elf = some first.elf ∧ entry.hits.length = codeSize toolchain first.elf ∧
      ∀ pc, entry.hits[pc]? = if pc < codeSize toolchain first.elf then some (min (occurrences (first :: rest) pc) u64Max) else none := by
  cases found
  have slots : ∀ pc, (((first :: rest).flatMap Invocation.trace).foldl countHit
      (List.replicate (codeSize toolchain first.elf) 0))[pc]? =
        if pc < codeSize toolchain first.elf then some (min (occurrences (first :: rest) pc) u64Max) else none := by
    intro pc
    have zero : ∀ count ∈ (List.replicate (codeSize toolchain first.elf) 0)[pc]?, count ≤ u64Max := by
      intro count isCount
      rw [List.getElem?_replicate] at isCount
      split at isCount
      · cases isCount
        exact Nat.zero_le _
      · cases isCount
    rw [counted_get _ _ pc zero, List.getElem?_replicate, occurrences]
    split <;> simp
  refine ⟨rfl, ?_, slots⟩
  have size : ∀ (trace hits : List Nat), (trace.foldl countHit hits).length = hits.length := by
    intro trace
    induction trace with
    | nil => exact fun _ => rfl
    | cons pc rest ih =>
      intro hits
      rw [List.foldl_cons, ih, countHit, List.length_modify]
  rw [size, List.length_replicate, codeSize]

theorem own_counts_iff (ran : List Invocation) (own : Invocation → Bool) (bound : Nat) :
    ((∀ pc count, (if pc < bound then some (min (occurrences ran pc) u64Max) else none) = some count →
        count = min (occurrences (ran.filter own) pc) u64Max) ∧
      ∀ one ∈ ran.filter own, ∀ pc ∈ one.trace, pc < bound) ↔
    ∀ one ∈ ran, ∀ pc ∈ one.trace,
      if own one then pc < bound else pc < bound → u64Max ≤ occurrences (ran.filter own) pc := by
  have split := occurrences_split ran own
  constructor
  · rintro ⟨exact, inside⟩ one isRan pc executed
    by_cases mine : own one = true
    · rw [if_pos mine]
      exact inside one (List.mem_filter.mpr ⟨isRan, mine⟩) pc executed
    · rw [if_neg mine]
      intro small
      have equal := exact pc _ (if_pos small)
      have foreign : 0 < occurrences (ran.filter fun one => !own one) pc :=
        (occurs_iff _ pc).mpr ⟨one, List.mem_filter.mpr ⟨isRan, by simp [mine]⟩, executed⟩
      have total := split pc
      omega
  · intro oneBuild
    refine ⟨fun pc count isCount => ?_, fun one isOwn pc executed => ?_⟩
    · by_cases small : pc < bound
      · rw [if_pos small] at isCount
        cases isCount
        have total := split pc
        by_cases foreign : 0 < occurrences (ran.filter fun one => !own one) pc
        · obtain ⟨one, isForeign, executed⟩ := (occurs_iff _ pc).mp foreign
          obtain ⟨isRan, notOwn⟩ := List.mem_filter.mp isForeign
          have full := oneBuild one isRan pc executed
          rw [if_neg (by simpa using notOwn)] at full
          have enough := full small
          omega
        · omega
      · rw [if_neg small] at isCount
        cases isCount
    · obtain ⟨isRan, mine⟩ := List.mem_filter.mp isOwn
      have inside := oneBuild one isRan pc executed
      rwa [if_pos mine] at inside

theorem counts_build_iff (toolchain : Toolchain) (actions : List Action) (programId : Address) :
    (Process.fresh.run toolchain actions).CountsItsBuild toolchain programId ↔
      OneBuild toolchain (ranAs programId (Process.fresh.run toolchain actions).ran) := by
  have tracked := run_tracked toolchain .fresh actions (fun _ => rfl) programId
  rw [Process.CountsItsBuild, tracked]
  generalize ranAs programId (Process.fresh.run toolchain actions).ran = ran
  cases ran with
  | nil => simp [summary, OneBuild]
  | cons first rest =>
    obtain ⟨entry, found⟩ : ∃ entry, summary toolchain (first :: rest) = some entry := ⟨_, rfl⟩
    obtain ⟨captured, size, slots⟩ := summary_hits toolchain first rest entry found
    have stated : (bareReport toolchain programId entry).textSha256 = textDigest toolchain (some first.elf) := by
      rw [bareReport, captured]
    simp only [found, Option.some.injEq, forall_eq', stated, size, slots, OneBuild, List.head?_cons, Option.mem_def]
    exact own_counts_iff (first :: rest) (Invocation.ofBuild toolchain (textDigest toolchain (some first.elf))) _

def digestBuilds : Toolchain where
  parse elf := some ⟨some ⟨0, some elf⟩, none, some []⟩
  sha256Hex text := text.map fun byte => Char.ofNat byte.toNat
  executableText _ := [0, 0, 0, 0, 0, 0, 0, 0]

def redeployment : List Action :=
  [.deploy 0 (.fill 1) [1], .execute 0 (.fill 1) [0], .resetSvm 0, .deploy 0 (.fill 1) [2], .execute 0 (.fill 1) [0]]

theorem redeployment_mixed : ¬ (Process.fresh.run digestBuilds redeployment).CountsItsBuild digestBuilds (.fill 1) := by
  intro counts
  have slot := (counts ⟨[2], some [1]⟩ rfl).1 0 2 rfl
  revert slot
  decide +kernel

end WakeSol.Coverage
