import WakeSol.Lib.Tally
import WakeSol.Lib.Text

/- Merging of LCOV reports. Each report has a sidecar with the digest of the build its
   line numbers describe; a merge is refused when two inputs name different builds,
   and writes the sidecars' entries, later ones over earlier ones, beside its output. -/
set_option autoImplicit false

namespace WakeSol.Coverage

open TextLib TallyLib

structure BuildInfo where
  textSha256 : Option Text
  instructionsTotal : Option Nat

def BuildInfo.digest (info : BuildInfo) : Text := info.textSha256.getD []

structure LcovReport where
  name : Text
  files : Tally Text Int Int
  builds : Dict Text BuildInfo

structure Refusal where
  path : Text
  earlier : Text
  programId : Text
  digest : Text
  known : Text

def Refusal.message (refusal : Refusal) : Text :=
  refusal.path ++ " and ".toList ++ refusal.earlier ++ " contain different builds of program ".toList ++ refusal.programId ++
    " (".toList ++ refusal.digest.take 12 ++ "… vs ".toList ++ refusal.known.take 12 ++
    "…). Their line numbers describe different code and must not be summed. Pass force=True to merge anyway.".toList

abbrev Seen := Dict Text (Text × Text)

structure Recorded where
  report : Text
  programId : Text
  info : BuildInfo

def recorded (inputs : List LcovReport) : List Recorded :=
  inputs.flatMap fun report => report.builds.entries.map fun entry => ⟨report.name, entry.1, entry.2⟩

def checkEntry (force : Bool) (seen : Seen) (entry : Recorded) : Except Refusal Seen :=
  if entry.info.digest = [] then .ok seen
  else match seen.get entry.programId with
    | none => .ok (seen.set entry.programId (entry.info.digest, entry.report))
    | some first =>
      if first.1 ≠ entry.info.digest ∧ force = false then
        .error ⟨entry.report, first.2, entry.programId, entry.info.digest, first.1⟩
      else .ok seen

def checkBuilds (force : Bool) (inputs : List LcovReport) : Except Refusal Seen :=
  (recorded inputs).foldlM (checkEntry force) .empty

def sumFiles (inputs : List LcovReport) : Tally Text Int Int :=
  inputs.foldl (fun merged report => absorb (fun slot count => slot.getD 0 + count) merged report.files) .empty

def combinedBuilds (inputs : List LcovReport) : Dict Text BuildInfo :=
  inputs.foldl (fun combined report => combined.absorb (fun _ info => info) report.builds) .empty

-- The output stands at a path of its own, so no older sidecar is beside it.
def mergeLcov (force : Bool) (inputs : List LcovReport) (out : Text) : Except Refusal LcovReport :=
  match checkBuilds force inputs with
  | .error refusal => .error refusal
  | .ok _ => .ok ⟨out, sumFiles inputs, combinedBuilds inputs⟩

mutual
inductive Plan where
  | report (leaf : LcovReport)
  | merge (out : Text) (inputs : Plans)

inductive Plans where
  | nil
  | cons (first : Plan) (rest : Plans)
end

mutual
def Plan.run : Plan → Except Refusal LcovReport
  | .report leaf => .ok leaf
  | .merge out inputs => match inputs.run with
    | .error refusal => .error refusal
    | .ok reports => mergeLcov false reports out

def Plans.run : Plans → Except Refusal (List LcovReport)
  | .nil => .ok []
  | .cons first rest => match first.run with
    | .error refusal => .error refusal
    | .ok report => match rest.run with
      | .error refusal => .error refusal
      | .ok reports => .ok (report :: reports)
end

mutual
def Plan.leaves : Plan → List LcovReport
  | .report leaf => [leaf]
  | .merge _ inputs => inputs.leaves

def Plans.leaves : Plans → List LcovReport
  | .nil => []
  | .cons first rest => first.leaves ++ rest.leaves
end

def Refused {α : Type} (result : Except Refusal α) : Prop := ∃ refusal, result = .error refusal

def Agree (entries : List Recorded) : Prop :=
  ∀ left ∈ entries, ∀ right ∈ entries, left.programId = right.programId → left.info.digest ≠ [] → right.info.digest ≠ [] →
    left.info.digest = right.info.digest

structure Remembers (seen : Seen) (past : List Recorded) : Prop where
  source : ∀ program first, seen.get program = some first →
    ∃ entry ∈ past, entry.programId = program ∧ entry.info.digest = first.1 ∧ first.1 ≠ []
  noted : ∀ entry ∈ past, entry.info.digest ≠ [] → ∃ first, seen.get entry.programId = some first

theorem agree_snoc (past : List Recorded) (entry : Recorded) (agree : Agree past)
    (fits : entry.info.digest ≠ [] → ∀ earlier ∈ past, earlier.programId = entry.programId → earlier.info.digest ≠ [] →
      earlier.info.digest = entry.info.digest) : Agree (past ++ [entry]) := by
  intro left isLeft right isRight same leftMarked rightMarked
  rcases List.mem_append.mp isLeft with leftPast | leftNew
  · rcases List.mem_append.mp isRight with rightPast | rightNew
    · exact agree left leftPast right rightPast same leftMarked rightMarked
    · rw [List.mem_singleton.mp rightNew] at same rightMarked ⊢
      exact fits rightMarked left leftPast same leftMarked
  · rw [List.mem_singleton.mp leftNew] at same leftMarked ⊢
    rcases List.mem_append.mp isRight with rightPast | rightNew
    · exact (fits leftMarked right rightPast same.symm rightMarked).symm
    · rw [List.mem_singleton.mp rightNew]

theorem remembers_snoc (seen : Seen) (past : List Recorded) (entry : Recorded) (remembers : Remembers seen past)
    (noted : entry.info.digest ≠ [] → ∃ first, seen.get entry.programId = some first) : Remembers seen (past ++ [entry]) := by
  refine ⟨fun program first found => ?_, fun other isOther marked => ?_⟩
  · obtain ⟨source, inside, facts⟩ := remembers.source program first found
    exact ⟨source, List.mem_append_left _ inside, facts⟩
  · rcases List.mem_append.mp isOther with old | new
    · exact remembers.noted other old marked
    · rw [List.mem_singleton.mp new] at marked ⊢
      exact noted marked

theorem remembers_set (seen : Seen) (past : List Recorded) (entry : Recorded) (remembers : Remembers seen past)
    (marked : entry.info.digest ≠ []) :
    Remembers (seen.set entry.programId (entry.info.digest, entry.report)) (past ++ [entry]) := by
  refine ⟨fun program first found => ?_, fun other isOther isMarked => ?_⟩
  · rw [get_set] at found
    split at found
    · rename_i same
      cases found
      exact ⟨entry, by simp, same.symm, rfl, marked⟩
    · obtain ⟨source, inside, facts⟩ := remembers.source program first found
      exact ⟨source, List.mem_append_left _ inside, facts⟩
  · rw [get_set]
    split
    · exact ⟨_, rfl⟩
    · rename_i apart
      rcases List.mem_append.mp isOther with old | new
      · exact remembers.noted other old isMarked
      · rw [List.mem_singleton.mp new] at apart
        exact absurd rfl apart

theorem check_entries_iff (entries : List Recorded) (seen : Seen) (past : List Recorded) (remembers : Remembers seen past)
    (agree : Agree past) :
    (∃ last, entries.foldlM (checkEntry false) seen = .ok last) ↔ Agree (past ++ entries) := by
  induction entries generalizing seen past with
  | nil => simp [agree, pure, Except.pure]
  | cons entry rest ih =>
    rw [List.foldlM_cons, List.append_cons]
    by_cases blank : entry.info.digest = []
    · rw [checkEntry, if_pos blank]
      refine ih seen (past ++ [entry]) (remembers_snoc seen past entry remembers fun marked => absurd blank marked) ?_
      exact agree_snoc past entry agree fun marked => absurd blank marked
    · rw [checkEntry, if_neg blank]
      cases known : seen.get entry.programId with
      | none =>
        refine ih (seen.set entry.programId (entry.info.digest, entry.report)) (past ++ [entry])
          (remembers_set seen past entry remembers blank) ?_
        apply agree_snoc past entry agree
        intro _ earlier inside same marked
        obtain ⟨first, found⟩ := remembers.noted earlier inside marked
        rw [same, known] at found
        cases found
      | some first =>
        obtain ⟨source, inside, isProgram, isDigest, marked⟩ := remembers.source entry.programId first known
        by_cases fits : first.1 = entry.info.digest
        · dsimp only
          rw [if_neg fun refused => refused.1 fits]
          refine ih seen (past ++ [entry]) (remembers_snoc seen past entry remembers fun _ => ⟨first, known⟩) ?_
          apply agree_snoc past entry agree
          intro _ earlier isEarlier same earlierMarked
          rw [agree earlier isEarlier source inside (same.trans isProgram.symm) earlierMarked (by rwa [isDigest]), isDigest,
            fits]
        · dsimp only
          rw [if_pos ⟨fits, rfl⟩]
          refine ⟨fun ⟨last, impossible⟩ => (by cases impossible), fun agreeing => ?_⟩
          have same := agreeing source (by simp [inside]) entry (by simp) isProgram (by rwa [isDigest]) blank
          exact absurd (isDigest.symm.trans same) fits

def LcovReport.Blank (report : LcovReport) (program : Text) : Prop :=
  ∃ info, report.builds.get program = some info ∧ info.digest = []

def Conflicting (collection : List LcovReport) (program : Text) : Prop :=
  ∃ left ∈ collection, ∃ right ∈ collection, ∃ leftInfo rightInfo,
    left.builds.get program = some leftInfo ∧ right.builds.get program = some rightInfo ∧
      leftInfo.digest ≠ [] ∧ rightInfo.digest ≠ [] ∧ leftInfo.digest ≠ rightInfo.digest

variable (inputs : List LcovReport)

theorem recorded_mem (entry : Recorded) :
    entry ∈ recorded inputs ↔ ∃ report ∈ inputs, entry.report = report.name ∧ report.builds.get entry.programId = some entry.info := by
  rw [recorded, List.mem_flatMap]
  refine ⟨fun ⟨report, isInput, inside⟩ => ?_, fun ⟨report, isInput, named, found⟩ => ?_⟩
  · obtain ⟨pair, isPair, rfl⟩ := List.mem_map.mp inside
    exact ⟨report, isInput, rfl, (get_iff report.builds pair.1 pair.2).mpr isPair⟩
  · refine ⟨report, isInput, List.mem_map.mpr ⟨(entry.programId, entry.info), (get_iff report.builds _ _).mp found, ?_⟩⟩
    rw [← named]

theorem agree_iff : Agree (recorded inputs) ↔ ∀ program, ¬ Conflicting inputs program := by
  refine ⟨fun agree program => ?_, fun none => ?_⟩
  · rintro ⟨left, isLeft, right, isRight, leftInfo, rightInfo, leftFound, rightFound, leftMarked, rightMarked, differ⟩
    apply differ
    exact agree ⟨left.name, program, leftInfo⟩ ((recorded_mem inputs _).mpr ⟨left, isLeft, rfl, leftFound⟩)
      ⟨right.name, program, rightInfo⟩ ((recorded_mem inputs _).mpr ⟨right, isRight, rfl, rightFound⟩) rfl leftMarked rightMarked
  · intro left isLeft right isRight same leftMarked rightMarked
    obtain ⟨leftReport, leftInput, _, leftFound⟩ := (recorded_mem inputs left).mp isLeft
    obtain ⟨rightReport, rightInput, _, rightFound⟩ := (recorded_mem inputs right).mp isRight
    by_contra differ
    rw [same] at leftFound
    exact none right.programId
      ⟨leftReport, leftInput, rightReport, rightInput, left.info, right.info, leftFound, rightFound, leftMarked, rightMarked, differ⟩

theorem merge_ok (out : Text) (merged : LcovReport) : mergeLcov false inputs out = .ok merged ↔
      (∀ program, ¬ Conflicting inputs program) ∧ merged = ⟨out, sumFiles inputs, combinedBuilds inputs⟩ := by
  have check := check_entries_iff (recorded inputs) .empty [] ⟨by simp [get_empty], by simp⟩ (by simp [Agree])
  rw [List.nil_append, agree_iff] at check
  rw [← check, mergeLcov, checkBuilds]
  cases (recorded inputs).foldlM (checkEntry false) .empty with
  | error refusal => simp
  | ok seen => simp [eq_comm]

theorem merge_refused_iff (out : Text) :
    Refused (mergeLcov false inputs out) ↔ ∃ program, Conflicting inputs program := by
  have accepted := merge_ok inputs out
  cases result : mergeLcov false inputs out with
  | error refusal =>
    have conflict : ∃ program, Conflicting inputs program := by
      by_contra none
      have merged := (accepted ⟨out, sumFiles inputs, combinedBuilds inputs⟩).mpr ⟨not_exists.mp none, rfl⟩
      rw [result] at merged
      cases merged
    exact ⟨fun _ => conflict, fun _ => ⟨refusal, rfl⟩⟩
  | ok merged =>
    refine ⟨fun ⟨refusal, impossible⟩ => (by cases impossible), fun ⟨program, conflict⟩ => ?_⟩
    exact absurd conflict (((accepted merged).mp result).1 program)

theorem combined_source (program : Text) (info : BuildInfo)
    (found : (combinedBuilds inputs).get program = some info) : ∃ report ∈ inputs, report.builds.get program = some info := by
  suffices grows : ∀ (inputs : List LcovReport) (combined : Dict Text BuildInfo),
      (inputs.foldl (fun combined report => combined.absorb (fun _ info => info) report.builds) combined).get program = some info →
        combined.get program = some info ∨ ∃ report ∈ inputs, report.builds.get program = some info by
    rcases grows inputs .empty found with impossible | source
    · cases impossible
    · exact source
  intro inputs
  induction inputs with
  | nil => exact fun _ old => .inl old
  | cons report rest ih =>
    intro combined last
    rcases ih _ last with here | ⟨source, inside, isSource⟩
    · rw [get_absorb] at here
      cases known : report.builds.get program with
      | none =>
        rw [known] at here
        exact .inl here
      | some own =>
        rw [known] at here
        cases here
        exact .inr ⟨report, List.mem_cons_self, known⟩
    · exact .inr ⟨source, List.mem_cons_of_mem _ inside, isSource⟩

theorem combined_snoc (last : LcovReport) (program : Text) :
    (combinedBuilds (inputs ++ [last])).get program = (last.builds.get program).or ((combinedBuilds inputs).get program) := by
  rw [combinedBuilds, List.foldl_append, List.foldl_cons, List.foldl_nil, get_absorb, ← combinedBuilds]
  cases last.builds.get program <;> rfl

theorem combined_some (report : LcovReport) (isInput : report ∈ inputs) (program : Text)
    (info : BuildInfo) (found : report.builds.get program = some info) :
    ∃ last, (combinedBuilds inputs).get program = some last := by
  induction inputs using List.reverseRecOn with
  | nil => cases isInput
  | append_singleton front last ih =>
    rw [combined_snoc]
    cases known : last.builds.get program with
    | some own => exact ⟨own, Option.some_or⟩
    | none =>
      rw [Option.none_or]
      rcases List.mem_append.mp isInput with early | here
      · exact ih early
      · rw [List.mem_singleton.mp here, known] at found
        cases found

structure Carries (program : Text) (leaves : List LcovReport) (result : LcovReport) : Prop where
  marked : ¬ result.Blank program
  kept : ∀ leaf ∈ leaves, ∀ info, leaf.builds.get program = some info →
    ∃ last, result.builds.get program = some last ∧ last.digest = info.digest

def CarriesAll (program : Text) (leaves : List LcovReport) (results : List LcovReport) : Prop :=
  ∀ leaf ∈ leaves, ∀ info, leaf.builds.get program = some info →
    ∃ result ∈ results, ∃ last, result.builds.get program = some last ∧ last.digest = info.digest

theorem merged_carries (program : Text) (leaves inputs : List LcovReport) (out : Text) (merged : LcovReport)
    (accepted : mergeLcov false inputs out = .ok merged) (marked : ∀ input ∈ inputs, ¬ input.Blank program)
    (kept : CarriesAll program leaves inputs) : Carries program leaves merged := by
  obtain ⟨none, rfl⟩ := (merge_ok inputs out merged).mp accepted
  have solid : ∀ input ∈ inputs, ∀ info, input.builds.get program = some info → info.digest ≠ [] :=
    fun input isInput info found blank => marked input isInput ⟨info, found, blank⟩
  refine ⟨?_, fun leaf isLeaf info found => ?_⟩
  · rintro ⟨info, found, blank⟩
    obtain ⟨source, isInput, isSource⟩ := combined_source inputs program info found
    exact solid source isInput info isSource blank
  · obtain ⟨input, isInput, own, isOwn, same⟩ := kept leaf isLeaf info found
    obtain ⟨last, isLast⟩ := combined_some inputs input isInput program own isOwn
    obtain ⟨source, sourceInput, isSource⟩ := combined_source inputs program last isLast
    refine ⟨last, isLast, ?_⟩
    rw [← same]
    by_contra differ
    exact none program ⟨source, sourceInput, input, isInput, last, own, isSource, isOwn, solid source sourceInput last isSource,
      solid input isInput own isOwn, differ⟩

mutual
theorem plan_carries (program : Text) (plan : Plan) (result : LcovReport) (ran : plan.run = .ok result)
    (marked : ∀ leaf ∈ plan.leaves, ¬ leaf.Blank program) : Carries program plan.leaves result := by
  cases plan with
  | report leaf =>
    rw [Plan.run] at ran
    cases ran
    refine ⟨marked _ (by simp [Plan.leaves]), fun other isLeaf info found => ⟨info, ?_, rfl⟩⟩
    rw [Plan.leaves] at isLeaf
    rwa [List.mem_singleton.mp isLeaf] at found
  | merge out inputs =>
    rw [Plan.leaves] at marked ⊢
    rw [Plan.run] at ran
    cases all : inputs.run with
    | error refusal =>
      rw [all] at ran
      cases ran
    | ok reports =>
      rw [all] at ran
      obtain ⟨solid, kept⟩ := plans_carry program inputs reports all marked
      exact merged_carries program inputs.leaves reports out result ran solid kept
theorem plans_carry (program : Text) (plans : Plans) (results : List LcovReport) (ran : plans.run = .ok results)
    (marked : ∀ leaf ∈ plans.leaves, ¬ leaf.Blank program) :
    (∀ result ∈ results, ¬ result.Blank program) ∧ CarriesAll program plans.leaves results := by
  cases plans with
  | nil =>
    rw [Plans.run] at ran
    cases ran
    exact ⟨by simp, fun leaf isLeaf => by simp [Plans.leaves] at isLeaf⟩
  | cons first rest =>
    rw [Plans.leaves] at marked ⊢
    rw [Plans.run] at ran
    cases one : first.run with
    | error refusal =>
      rw [one] at ran
      cases ran
    | ok report =>
      rw [one] at ran
      cases others : rest.run with
      | error refusal =>
        rw [others] at ran
        cases ran
      | ok reports =>
        rw [others] at ran
        cases ran
        have here := plan_carries program first report one fun leaf isLeaf => marked leaf (by simp [isLeaf])
        obtain ⟨solid, kept⟩ := plans_carry program rest reports others fun leaf isLeaf => marked leaf (by simp [isLeaf])
        refine ⟨fun result isResult => ?_, fun leaf isLeaf info found => ?_⟩
        · rcases List.mem_cons.mp isResult with rfl | later
          · exact here.marked
          · exact solid result later
        · rcases List.mem_append.mp isLeaf with early | late
          · obtain ⟨last, isLast⟩ := here.kept leaf early info found
            exact ⟨report, List.mem_cons_self, last, isLast⟩
          · obtain ⟨result, isResult, last⟩ := kept leaf late info found
            exact ⟨result, List.mem_cons_of_mem _ isResult, last⟩
end

variable (collection : List LcovReport)

theorem marked_conflict_refused (program : Text) (conflict : Conflicting collection program)
    (marked : ∀ report ∈ collection, ¬ report.Blank program) (plan : Plan) (all : plan.leaves.Perm collection) :
    Refused plan.run := by
  cases ran : plan.run with
  | error refusal => exact ⟨refusal, rfl⟩
  | ok result =>
    have carried := plan_carries program plan result ran fun leaf isLeaf => marked leaf (all.mem_iff.mp isLeaf)
    obtain ⟨left, isLeft, right, isRight, leftInfo, rightInfo, leftFound, rightFound, _, _, differ⟩ := conflict
    obtain ⟨leftLast, leftIs, leftSame⟩ := carried.kept left (all.mem_iff.mpr isLeft) leftInfo leftFound
    obtain ⟨rightLast, rightIs, rightSame⟩ := carried.kept right (all.mem_iff.mpr isRight) rightInfo rightFound
    rw [leftIs] at rightIs
    cases rightIs
    exact absurd (leftSame.symm.trans rightSame) differ

def absorbing (blank : LcovReport) : List LcovReport → Plan
  | [] => .report blank
  | report :: rest => .merge [] (.cons (.report report) (.cons (absorbing blank rest) .nil))

theorem absorbing_leaves (blank : LcovReport) (rest : List LcovReport) : (absorbing blank rest).leaves = rest ++ [blank] := by
  induction rest with
  | nil => simp [absorbing, Plan.leaves]
  | cons report rest ih => simp [absorbing, Plan.leaves, Plans.leaves, ih]

theorem blank_settles (report last : LcovReport) (here : report ∈ collection)
    (blanks : ∀ program, Conflicting collection program → last.Blank program)
    (sources : ∀ program info, last.builds.get program = some info →
      ∃ source ∈ collection, source.builds.get program = some info) (program : Text) :
    ¬ Conflicting [report, last] program := by
  rintro ⟨left, isLeft, right, isRight, leftInfo, rightInfo, leftFound, rightFound, leftMarked, rightMarked, differ⟩
  have origin : ∀ input ∈ [report, last], ∀ info, input.builds.get program = some info →
      ∃ source ∈ collection, source.builds.get program = some info := by
    intro input isInput info found
    simp only [List.mem_cons, List.not_mem_nil, or_false] at isInput
    rcases isInput with rfl | rfl
    · exact ⟨_, here, found⟩
    · exact sources program info found
  obtain ⟨leftSource, leftInside, leftIs⟩ := origin left isLeft leftInfo leftFound
  obtain ⟨rightSource, rightInside, rightIs⟩ := origin right isRight rightInfo rightFound
  have conflict : Conflicting collection program :=
    ⟨leftSource, leftInside, rightSource, rightInside, leftInfo, rightInfo, leftIs, rightIs, leftMarked, rightMarked, differ⟩
  obtain ⟨info, found, empty⟩ := blanks program conflict
  simp only [List.mem_cons, List.not_mem_nil, or_false] at isLeft isRight
  rcases isLeft with rfl | rfl
  · rcases isRight with rfl | rfl
    · rw [leftFound] at rightFound
      cases rightFound
      exact differ rfl
    · rw [found] at rightFound
      cases rightFound
      exact rightMarked empty
  · rw [found] at leftFound
    cases leftFound
    exact leftMarked empty

theorem absorbing_accepted (blank : LcovReport) (isBlank : blank ∈ collection)
    (covers : ∀ program, Conflicting collection program → blank.Blank program) (rest : List LcovReport)
    (inside : ∀ report ∈ rest, report ∈ collection) : ∃ result, (absorbing blank rest).run = .ok result ∧
      (∀ program, Conflicting collection program → result.Blank program) ∧
      ∀ program info, result.builds.get program = some info →
        ∃ report ∈ collection, report.builds.get program = some info := by
  induction rest with
  | nil => exact ⟨blank, rfl, covers, fun program info found => ⟨blank, isBlank, found⟩⟩
  | cons report rest ih =>
    obtain ⟨last, ran, blanks, sources⟩ := ih fun other isOther => inside other (List.mem_cons_of_mem _ isOther)
    have here := inside report List.mem_cons_self
    refine ⟨⟨[], sumFiles [report, last], combinedBuilds [report, last]⟩, ?_, fun program conflict => ?_,
      fun program info found => ?_⟩
    · rw [absorbing, Plan.run, Plans.run, Plan.run, Plans.run, ran, Plans.run]
      exact (merge_ok [report, last] [] _).mpr ⟨blank_settles collection report last here blanks sources, rfl⟩
    · obtain ⟨info, found, empty⟩ := blanks program conflict
      refine ⟨info, ?_, empty⟩
      have decides := combined_snoc [report] last program
      rw [found, Option.some_or] at decides
      exact decides
    · obtain ⟨source, isInput, isSource⟩ := combined_source _ program info found
      simp only [List.mem_cons, List.not_mem_nil, or_false] at isInput
      rcases isInput with rfl | rfl
      · exact ⟨_, here, isSource⟩
      · exact sources program info isSource

def Survives (collection : List LcovReport) : Prop :=
  ∀ out, Refused (mergeLcov false collection out) → ∀ plan : Plan, plan.leaves.Perm collection → Refused plan.run

def sidecar (digest : Text) : Dict Text BuildInfo := Dict.empty.set ['p'] ⟨some digest, some 1⟩

def buildOne : LcovReport := ⟨['a'], .empty, sidecar ['1']⟩
def buildNone : LcovReport := ⟨['b'], .empty, sidecar []⟩
def buildTwo : LcovReport := ⟨['c'], .empty, sidecar ['2']⟩

def passes {α : Type} (result : Except Refusal α) : Bool := match result with
  | .ok _ => true
  | .error _ => false

end WakeSol.Coverage
