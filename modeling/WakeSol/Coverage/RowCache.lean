import WakeSol.Coverage.Resolve

/- The cache of line tables. Its key names a program, the digest of the code that ran
   and the source roots, but not the ELF that was resolved, so a table stays in use
   when another debug build is registered. -/
set_option autoImplicit false

namespace WakeSol.Coverage

open TextLib TallyLib CacheLib RadixLib

inductive Event where
  | execute (programId : Address) (text : Bytes) (found : Option Bytes) (trace : List Nat)
  | addDebugElf (programId : Address) (elf : Bytes)
  | reset
  | report (roots : List RootSpec)

-- A build without a line table is refused.
def Counters.addDebugElf (toolchain : Toolchain) (counters : Counters) (programId : Address) (elf : Bytes) : Counters :=
  if hasLineTable toolchain elf then counters.registerDebugElf programId elf else counters

def Counters.after (toolchain : Toolchain) (counters : Counters) : Event → Counters
  | .execute programId text found trace => counters.record programId text found trace
  | .addDebugElf programId elf => counters.addDebugElf toolchain programId elf
  | .reset => counters.reset
  | .report _ => counters

structure Session where
  counters : Counters
  cache : RowCache

def Session.fresh : Session := ⟨.fresh, .empty⟩

def Session.step (toolchain : Toolchain) (disk : Disk) (session : Session) (event : Event) : Session where
  counters := session.counters.after toolchain event
  cache := match event with
    | .report roots => (buildReport toolchain disk session.counters roots session.cache).2
    | _ => session.cache

def Session.run (toolchain : Toolchain) (disk : Disk) (session : Session) (events : List Event) : Session :=
  events.foldl (Session.step toolchain disk) session

def Session.report (toolchain : Toolchain) (disk : Disk) (session : Session) (roots : List RootSpec) : Report :=
  (buildReport toolchain disk session.counters roots session.cache).1

def Session.uncached (toolchain : Toolchain) (disk : Disk) (session : Session) (roots : List RootSpec) : Report :=
  (buildReport toolchain disk session.counters roots .empty).1

section requests

variable (toolchain : Toolchain) (disk : Disk) (debugElfs : Dict Address Bytes) (roots : List RootSpec)

def tableRequest (program : Address × ProgramCounters) : Option (Text × Option LineTable) :=
  match chooseElf toolchain (debugElfs.get program.1) program.2.elf with
  | .elf elf => (toolchain.parse elf).map fun object =>
    (cacheKey program.1 (textDigest toolchain program.2.elf) roots, freshTable disk roots object)
  | _ => none

def withTable (report : ProgramReport) (hits : List Nat) (out : LineCounts) : Option LineTable → ProgramReport × LineCounts
  | none => (report, out)
  | some table => ({ report with linesResolved := table.rows.length },
      if table.rows.isEmpty then out else addLines out (lineCounts table hits))

def headReport (program : Address × ProgramCounters) : ProgramReport :=
  let report := bareReport toolchain program.1 program.2
  match chooseElf toolchain (debugElfs.get program.1) program.2.elf with
  | .absent => report
  | .mismatch => { report with textMismatch := true }
  | .elf elf => match toolchain.parse elf with
    | none => report
    | some _ => { report with hasDebugInfo := hasLineTable toolchain elf }

def resolveUsing (choose : Text → Option LineTable → Option LineTable) (program : Address × ProgramCounters) (out : LineCounts) :
    ProgramReport × LineCounts :=
  let report := headReport toolchain debugElfs program
  match tableRequest toolchain disk debugElfs roots program with
  | none => (report, out)
  | some asked => withTable report program.2.hits out (choose asked.1 asked.2)

def resolveAllUsing (choose : Text → Option LineTable → Option LineTable) :
    List (Address × ProgramCounters) → LineCounts → LineCounts × List ProgramReport
  | [], out => (out, [])
  | program :: rest, out =>
    let here := resolveUsing toolchain disk debugElfs roots choose program out
    let later := resolveAllUsing choose rest here.2
    (later.1, here.1 :: later.2)

theorem resolve_program_using (program : Address × ProgramCounters) (out : LineCounts) (cache : RowCache) :
    let resolved := resolveProgram toolchain disk program.1 program.2 (debugElfs.get program.1) roots out cache
    (resolved.report, resolved.lines) =
        resolveUsing toolchain disk debugElfs roots (fun key fresh => (request cache key fresh).1) program out ∧
      resolved.cache = match tableRequest toolchain disk debugElfs roots program with
        | none => cache
        | some asked => (request cache asked.1 asked.2).2 := by
  dsimp only
  rw [resolveProgram, resolveUsing, headReport, tableRequest]
  cases chooseElf toolchain (debugElfs.get program.1) program.2.elf with
  | absent => exact ⟨rfl, rfl⟩
  | mismatch => exact ⟨rfl, rfl⟩
  | elf elf =>
    dsimp only
    cases toolchain.parse elf with
    | none => exact ⟨rfl, rfl⟩
    | some object =>
      dsimp only [Option.map_some, bareReport]
      generalize request cache _ (freshTable disk roots object) = answered
      obtain ⟨table, store⟩ := answered
      cases table with
      | none => exact ⟨rfl, rfl⟩
      | some table => exact ⟨rfl, rfl⟩

theorem resolve_using_congr (left right : Text → Option LineTable → Option LineTable) (program : Address × ProgramCounters)
    (out : LineCounts)
    (same : ∀ asked, tableRequest toolchain disk debugElfs roots program = some asked →
      left asked.1 asked.2 = right asked.1 asked.2) :
    resolveUsing toolchain disk debugElfs roots left program out =
      resolveUsing toolchain disk debugElfs roots right program out := by
  rw [resolveUsing, resolveUsing]
  cases request : tableRequest toolchain disk debugElfs roots program with
  | none => rfl
  | some asked =>
    dsimp only
    rw [same asked request]

theorem resolve_all_congr (left right : Text → Option LineTable → Option LineTable) (programs : List (Address × ProgramCounters))
    (out : LineCounts)
    (same : ∀ asked ∈ programs.filterMap (tableRequest toolchain disk debugElfs roots),
      left asked.1 asked.2 = right asked.1 asked.2) :
    resolveAllUsing toolchain disk debugElfs roots left programs out =
      resolveAllUsing toolchain disk debugElfs roots right programs out := by
  induction programs generalizing out with
  | nil => rfl
  | cons program rest ih =>
    have here := resolve_using_congr toolchain disk debugElfs roots left right program out fun asked isAsked =>
      same asked (List.mem_filterMap.mpr ⟨program, List.mem_cons_self, isAsked⟩)
    have later := ih (resolveUsing toolchain disk debugElfs roots right program out).2 fun asked inside => by
      obtain ⟨source, member, isAsked⟩ := List.mem_filterMap.mp inside
      exact same asked (List.mem_filterMap.mpr ⟨source, List.mem_cons_of_mem _ member, isAsked⟩)
    rw [resolveAllUsing, resolveAllUsing, here, later]

theorem cache_key_program (left right : Address) (leftDigest rightDigest : Text) (leftRoots rightRoots : List RootSpec)
    (same : cacheKey left leftDigest leftRoots = cacheKey right rightDigest rightRoots) : left = right := by
  have foreign : Char.ofNat 3 ∉ base58Alphabet := by decide
  have read : ∀ (address : Address) (rest : Text), splitOnce [Char.ofNat 3] (address.text ++ Char.ofNat 3 :: rest) =
      some (address.text, rest) := fun address rest => split_once_char _ _ rest (base58_avoids address.bytes _ foreign)
  have split := congrArg (splitOnce [Char.ofNat 3]) same
  rw [cacheKey, cacheKey, List.append_assoc, List.append_assoc, List.cons_append, List.cons_append, read, read] at split
  exact address_text_injective left right (congrArg Prod.fst (Option.some.inj split))

theorem table_request_key (program : Address × ProgramCounters) (asked : Text × Option LineTable)
    (isAsked : tableRequest toolchain disk debugElfs roots program = some asked) :
    asked.1 = cacheKey program.1 (textDigest toolchain program.2.elf) roots := by
  rw [tableRequest] at isAsked
  cases choice : chooseElf toolchain (debugElfs.get program.1) program.2.elf with
  | absent => simp [choice] at isAsked
  | mismatch => simp [choice] at isAsked
  | elf elf =>
    rw [choice] at isAsked
    obtain ⟨object, _, rfl⟩ := Option.map_eq_some_iff.mp isAsked
    rfl

theorem resolve_all_using (programs : List (Address × ProgramCounters)) (distinct : (programs.map Prod.fst).Nodup)
    (past : List (Text × Option LineTable)) (out : LineCounts) :
    let resolved := resolveAll toolchain disk debugElfs roots programs out (firstAnswer past)
    (resolved.1, resolved.2.1) =
        resolveAllUsing toolchain disk debugElfs roots (fun key fresh => (firstAnswer past key).or fresh) programs out ∧
      resolved.2.2 = firstAnswer (past ++ programs.filterMap (tableRequest toolchain disk debugElfs roots)) := by
  dsimp only
  induction programs generalizing past out with
  | nil => exact ⟨rfl, by rw [List.filterMap_nil, List.append_nil]; rfl⟩
  | cons program rest ih =>
    obtain ⟨absent, apart⟩ := List.nodup_cons.mp distinct
    obtain ⟨here, stored⟩ := resolve_program_using toolchain disk debugElfs roots program out (firstAnswer past)
    simp only [request_value] at here
    rw [resolveAll, resolveAllUsing, ← here]
    dsimp only at stored ⊢
    rw [stored]
    cases request : tableRequest toolchain disk debugElfs roots program with
    | none =>
      obtain ⟨results, cache⟩ := ih apart past
        (resolveProgram toolchain disk program.1 program.2 (debugElfs.get program.1) roots out (firstAnswer past)).lines
      rw [List.filterMap_cons_none request]
      exact ⟨by rw [← results], cache⟩
    | some asked =>
      obtain ⟨results, cache⟩ := ih apart (past ++ [asked])
        (resolveProgram toolchain disk program.1 program.2 (debugElfs.get program.1) roots out (firstAnswer past)).lines
      dsimp only
      rw [request_store, List.filterMap_cons_some request]
      refine ⟨?_, by rw [cache, List.append_assoc, List.singleton_append]⟩
      have unaffected := resolve_all_congr toolchain disk debugElfs roots
        (fun key fresh => (firstAnswer (past ++ [asked]) key).or fresh) (fun key fresh => (firstAnswer past key).or fresh)
        rest (resolveProgram toolchain disk program.1 program.2 (debugElfs.get program.1) roots out (firstAnswer past)).lines
        fun other inside => by
          obtain ⟨source, member, isAsked⟩ := List.mem_filterMap.mp inside
          have differs : asked.1 ≠ other.1 := by
            rw [table_request_key toolchain disk debugElfs roots program asked request,
              table_request_key toolchain disk debugElfs roots source other isAsked]
            intro same
            apply absent
            rw [cache_key_program _ _ _ _ _ _ same]
            exact List.mem_map_of_mem member
          rw [first_answer_snoc past asked.1 other.1 asked.2, if_neg differs, Option.or_none]
      rw [← unaffected, ← results]

end requests

def requests (toolchain : Toolchain) (disk : Disk) (counters : Counters) : List Event → List (Text × Option LineTable)
  | [] => []
  | .report roots :: rest =>
    counters.programs.entries.filterMap (tableRequest toolchain disk counters.debugElfs roots) ++
      requests toolchain disk counters rest
  | event :: rest => requests toolchain disk (counters.after toolchain event) rest

section session

variable (toolchain : Toolchain) (disk : Disk)

def reportUsing (counters : Counters) (roots : List RootSpec) (choose : Text → Option LineTable → Option LineTable) : Report :=
  let resolved := resolveAllUsing toolchain disk counters.debugElfs roots choose counters.programs.entries .empty
  ⟨resolved.1, resolved.2.insertionSort byProgramId⟩

theorem build_report_using (counters : Counters) (roots : List RootSpec) (past : List (Text × Option LineTable)) :
    buildReport toolchain disk counters roots (firstAnswer past) =
      (reportUsing toolchain disk counters roots fun key fresh => (firstAnswer past key).or fresh,
        firstAnswer (past ++ counters.programs.entries.filterMap (tableRequest toolchain disk counters.debugElfs roots))) := by
  obtain ⟨results, cache⟩ := resolve_all_using toolchain disk counters.debugElfs roots counters.programs.entries
    counters.programs.distinct past .empty
  rw [buildReport, reportUsing, ← results]
  dsimp only
  rw [cache]

theorem uncached_using (session : Session) (roots : List RootSpec) :
    session.uncached toolchain disk roots = reportUsing toolchain disk session.counters roots fun _ fresh => fresh := by
  have direct := build_report_using toolchain disk session.counters roots []
  have empty : (RowCache.empty : RowCache) = firstAnswer [] := rfl
  rw [Session.uncached, empty, direct]
  rfl

theorem run_counters (session : Session) (events : List Event) :
    (session.run toolchain disk events).counters = events.foldl (Counters.after toolchain) session.counters := by
  induction events generalizing session with
  | nil => rfl
  | cons event rest ih => exact ih (session.step toolchain disk event)

theorem run_cache (session : Session) (past : List (Text × Option LineTable)) (events : List Event)
    (cached : session.cache = firstAnswer past) :
    (session.run toolchain disk events).cache = firstAnswer (past ++ requests toolchain disk session.counters events) := by
  induction events generalizing session past with
  | nil =>
    rw [requests, List.append_nil]
    exact cached
  | cons event rest ih =>
    cases event with
    | report roots =>
      rw [requests, ← List.append_assoc]
      refine ih (session.step toolchain disk (.report roots)) _ ?_
      rw [Session.step, cached, build_report_using]
    | execute programId text found trace => exact ih (session.step toolchain disk _) past cached
    | addDebugElf programId elf => exact ih (session.step toolchain disk _) past cached
    | reset => exact ih (session.step toolchain disk _) past cached

theorem requests_append (counters : Counters) (front back : List Event) :
    requests toolchain disk counters (front ++ back) =
      requests toolchain disk counters front ++ requests toolchain disk (front.foldl (Counters.after toolchain) counters) back := by
  induction front generalizing counters with
  | nil => rfl
  | cons event rest ih =>
    cases event with
    | report roots =>
      rw [List.cons_append, requests, requests, ih, List.append_assoc]
      rfl
    | execute programId text found trace => exact ih _
    | addDebugElf programId elf => exact ih _
    | reset => exact ih _

theorem session_report_using (front : List Event) (roots : List RootSpec) :
    (Session.fresh.run toolchain disk front).report toolchain disk roots =
      reportUsing toolchain disk (front.foldl (Counters.after toolchain) .fresh) roots fun key fresh =>
        (firstAnswer (requests toolchain disk .fresh front) key).or fresh := by
  have cached := run_cache toolchain disk .fresh [] front rfl
  rw [List.nil_append] at cached
  rw [Session.report, cached, run_counters, build_report_using]
  rfl

def rowCount (table : Option LineTable) : Nat := table.elim 0 fun table => table.rows.length

section programs

variable (debugElfs : Dict Address Bytes) (roots : List RootSpec) (choose : Text → Option LineTable → Option LineTable)

def programReport (program : Address × ProgramCounters) : ProgramReport :=
  (resolveUsing toolchain disk debugElfs roots choose program .empty).1

theorem head_report_bare (program : Address × ProgramCounters) :
    (headReport toolchain debugElfs program).programId = program.1.text ∧
      (headReport toolchain debugElfs program).linesResolved = 0 := by
  rw [headReport]
  cases chooseElf toolchain (debugElfs.get program.1) program.2.elf with
  | absent => exact ⟨rfl, rfl⟩
  | mismatch => exact ⟨rfl, rfl⟩
  | elf elf =>
    dsimp only
    cases toolchain.parse elf with
    | none => exact ⟨rfl, rfl⟩
    | some object => exact ⟨rfl, rfl⟩

theorem with_table_report (report : ProgramReport) (hits : List Nat) (out other : LineCounts) (table : Option LineTable) :
    (withTable report hits out table).1 = (withTable report hits other table).1 ∧
      (withTable report hits out table).1.programId = report.programId ∧
      (report.linesResolved = 0 → (withTable report hits out table).1.linesResolved = rowCount table) := by
  cases table with
  | none => exact ⟨rfl, rfl, fun zero => zero⟩
  | some table => exact ⟨rfl, rfl, fun _ => rfl⟩

theorem program_report_using (program : Address × ProgramCounters) (out : LineCounts) :
    (resolveUsing toolchain disk debugElfs roots choose program out).1 =
      programReport toolchain disk debugElfs roots choose program := by
  rw [programReport, resolveUsing, resolveUsing]
  cases tableRequest toolchain disk debugElfs roots program with
  | none => rfl
  | some asked => exact (with_table_report _ _ out .empty _).1

theorem programs_using (programs : List (Address × ProgramCounters)) (out : LineCounts) :
    (resolveAllUsing toolchain disk debugElfs roots choose programs out).2 =
      programs.map (programReport toolchain disk debugElfs roots choose) := by
  induction programs generalizing out with
  | nil => rfl
  | cons program rest ih => rw [resolveAllUsing, List.map_cons, ih, program_report_using]

theorem program_report_id (program : Address × ProgramCounters) :
    (programReport toolchain disk debugElfs roots choose program).programId = program.1.text := by
  have bare := head_report_bare toolchain debugElfs program
  rw [programReport, resolveUsing]
  cases tableRequest toolchain disk debugElfs roots program with
  | none => exact bare.1
  | some asked => exact (with_table_report _ _ .empty .empty _).2.1.trans bare.1

theorem program_report_rows (program : Address × ProgramCounters) (asked : Text × Option LineTable)
    (isAsked : tableRequest toolchain disk debugElfs roots program = some asked) :
    (programReport toolchain disk debugElfs roots choose program).linesResolved = rowCount (choose asked.1 asked.2) := by
  have bare := head_report_bare toolchain debugElfs program
  rw [programReport, resolveUsing, isAsked]
  exact (with_table_report _ _ .empty .empty _).2.2 bare.2

end programs

theorem report_rows_differ (counters : Counters) (roots : List RootSpec) (left right : Text → Option LineTable → Option LineTable)
    (program : Address × ProgramCounters) (inside : program ∈ counters.programs.entries) (asked : Text × Option LineTable)
    (isAsked : tableRequest toolchain disk counters.debugElfs roots program = some asked)
    (differ : rowCount (left asked.1 asked.2) ≠ rowCount (right asked.1 asked.2)) :
    reportUsing toolchain disk counters roots left ≠ reportUsing toolchain disk counters roots right := by
  intro same
  have programs := congrArg Report.programs same
  simp only [reportUsing, programs_using] at programs
  have here : programReport toolchain disk counters.debugElfs roots left program ∈
      (counters.programs.entries.map (programReport toolchain disk counters.debugElfs roots right)).insertionSort byProgramId := by
    rw [← programs, List.mem_insertionSort]
    exact List.mem_map_of_mem inside
  rw [List.mem_insertionSort] at here
  obtain ⟨other, member, equal⟩ := List.mem_map.mp here
  have ids := congrArg ProgramReport.programId equal
  rw [program_report_id, program_report_id] at ids
  have address := address_text_injective other.1 program.1 ids
  have found := (get_iff counters.programs program.1 program.2).mpr inside
  have again := (get_iff counters.programs other.1 other.2).mpr member
  rw [address, found] at again
  have twin : other = program := Prod.ext address (Option.some.inj again).symm
  rw [twin] at equal
  apply differ
  rw [← program_report_rows toolchain disk counters.debugElfs roots left program asked isAsked,
    ← program_report_rows toolchain disk counters.debugElfs roots right program asked isAsked, equal]

def Outdated (front : List Event) (roots : List RootSpec) : Prop :=
  let counters := front.foldl (Counters.after toolchain) .fresh
  ∃ program ∈ counters.programs.entries, ∃ asked, tableRequest toolchain disk counters.debugElfs roots program = some asked ∧
    ∃ table, firstAnswer (requests toolchain disk .fresh front) asked.1 = some table ∧
      table.rows.length ≠ rowCount asked.2

theorem row_cache_transparent (events : List Event) :
    (Stable (requests toolchain disk .fresh events) →
      ∀ front roots back, events = front ++ .report roots :: back →
        (Session.fresh.run toolchain disk front).report toolchain disk roots =
          (Session.fresh.run toolchain disk front).uncached toolchain disk roots) ∧
    ∀ front roots back, events = front ++ .report roots :: back → Outdated toolchain disk front roots →
      (Session.fresh.run toolchain disk front).report toolchain disk roots ≠
        (Session.fresh.run toolchain disk front).uncached toolchain disk roots := by
  refine ⟨fun stable front roots back split => ?_, fun front roots back _ outdated => ?_⟩
  · rw [session_report_using, uncached_using, run_counters, reportUsing, reportUsing]
    rw [split, requests_append, requests, ← List.append_assoc] at stable
    have early := (List.pairwise_append.mp stable).1
    have same := resolve_all_congr toolchain disk (front.foldl (Counters.after toolchain) .fresh).debugElfs roots
      (fun key fresh => (firstAnswer (requests toolchain disk .fresh front) key).or fresh) (fun _ fresh => fresh)
      (front.foldl (Counters.after toolchain) .fresh).programs.entries .empty fun asked inside =>
        stable_first _ _ early asked.1 asked.2 inside
    rw [same]
    rfl
  · obtain ⟨program, inside, asked, isAsked, table, first, differ⟩ := outdated
    rw [session_report_using, uncached_using, run_counters]
    refine report_rows_differ toolchain disk _ roots _ _ program inside asked isAsked ?_
    rw [first, Option.some_or]
    exact differ

end session

def strippedObject : ObjectFile := ⟨some ⟨0, some [0, 0, 0, 0, 0, 0, 0, 0]⟩, none, some []⟩

def debugUnit : CompUnit := ⟨none, none, some ⟨[(1, ⟨0, none, some ['/', 'a']⟩)], [⟨0, false, true, some 1, 1⟩]⟩⟩

def debugObject : ObjectFile := ⟨some ⟨0, some [0, 0, 0, 0, 0, 0, 0, 0]⟩, some 1, some [debugUnit]⟩

def twoBuilds : Toolchain where
  parse elf := if elf = [1] then some strippedObject else if elf = [2] then some debugObject else none
  sha256Hex _ := ['d']
  executableText _ := [0, 0, 0, 0, 0, 0, 0, 0]

def openDisk : Disk := ⟨fun _ => true, fun _ => none⟩

def lateRegistration : List Event :=
  [.execute (.fill 1) [0, 0, 0, 0, 0, 0, 0, 0] (some [1]) [0], .report [], .addDebugElf (.fill 1) [2]]

theorem late_registration_ignored :
    ((Session.fresh.run twoBuilds openDisk lateRegistration).report twoBuilds openDisk []).programs.map ProgramReport.linesResolved =
        [0] ∧
      ((Session.fresh.run twoBuilds openDisk lateRegistration).uncached twoBuilds openDisk []).programs.map
        ProgramReport.linesResolved = [1] := by
  decide +kernel

end WakeSol.Coverage
