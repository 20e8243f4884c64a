import WakeSol.Fuzz.Schedule

/- Whole runs: every sequence of a run keeps the schedule, and the statistics a run
   records balance, however it ends. -/
set_option autoImplicit false

namespace WakeSol.Fuzz

open EffectLib TallyLib TextLib

variable {σ : Type}

structure Carried (stable : FlowStats → Prop) (ended : Engine σ → Prop) (cut : Site σ → Engine σ → Prop)
    (sequences : Sequences σ) : Prop where
  engines : ∀ engine ∈ sequences.engines, ended engine ∨ ∃ site, cut site engine
  passed : ∀ stats, sequences.ending = .passed stats → stable stats
  failed : ∀ site raised engine, sequences.ending = .failed site raised engine → cut site engine

section carrying

variable (suite : Suite σ) (flowsCount : Int) (stable : FlowStats → Prop) (ended : Engine σ → Prop)
  (cut : Site σ → Engine σ → Prop)
  (sequence : ∀ self sequenceNum stats, stable stats →
    Ensures (fun engine => engine = .fresh self sequenceNum stats) (runSequence suite flowsCount.toNat)
      (fun _ engine => ended engine ∧ stable engine.stats) (fun error => cut error.1))

include sequence

theorem run_sequences_carried (left sequenceNum : Nat) (self : σ) (stats : FlowStats) (done : List (Engine σ))
    (start : stable stats) (before : ∀ engine ∈ done, ended engine ∨ ∃ site, cut site engine) :
    Carried stable ended cut (runSequences suite flowsCount.toNat left sequenceNum self stats done) := by
  induction left generalizing sequenceNum self stats done with
  | zero =>
    refine ⟨before, fun other same => ?_, fun _ _ _ absent => nomatch absent⟩
    cases same
    exact start
  | succ left ih =>
    rw [runSequences]
    split
    · exact ⟨before, fun _ absent => (nomatch absent), fun _ _ _ absent => nomatch absent⟩
    · rename_i ready _
      have reached := sequence ready sequenceNum stats start _ rfl
      have grown : ∀ engine, ended engine ∨ (∃ site, cut site engine) →
          ∀ other ∈ done ++ [engine], ended other ∨ ∃ site, cut site other := by
        intro engine holds other inside
        rcases List.mem_append.mp inside with old | new
        · exact before other old
        · rw [List.mem_singleton.mp new]
          exact holds
      split
      · rename_i engine ran
        rw [ran] at reached
        exact ih (sequenceNum + 1) engine.self engine.stats _ reached.2 (grown engine (.inl reached.1))
      · rename_i site raised engine ran
        rw [ran] at reached
        refine ⟨grown engine (.inr ⟨site, reached⟩), fun _ passed => ?_, fun other cause last failed => ?_⟩
        · split at passed <;> cases passed
        · split at failed <;> cases failed
          exact reached

theorem run_all_carried (sequencesCount : Int) (self : σ) (start : stable (zeroStats suite)) :
    Carried stable ended cut (runAll suite sequencesCount flowsCount self) := by
  rw [runAll]
  have escapes : ∀ raised, Carried stable ended cut ⟨.escaped raised, []⟩ := fun _ =>
    ⟨fun _ absent => (nomatch absent), fun _ absent => (nomatch absent), fun _ _ _ absent => nomatch absent⟩
  split
  · exact escapes _
  · split
    · exact escapes _
    · exact run_sequences_carried suite flowsCount stable ended cut sequence _ 0 _ _ [] start fun _ absent => nomatch absent

end carrying

theorem boundary_like (suite : Suite σ) (step : Nat) (start engine : Engine σ) (like : Like start engine)
    (boundary : Boundary suite step start) : Boundary suite step engine := by
  obtain ⟨self, rfl⟩ := like
  exact ⟨boundary.length, boundary.idle, boundary.licensed, boundary.finished, boundary.counted, boundary.capped, boundary.clock,
    boundary.balanced⟩

theorem run_step_boundary (suite : Suite σ) (positive : ∀ invariant ∈ suite.invariants, 1 ≤ invariant.period) (step : Nat) :
    Ensures (Boundary suite step) (runStep suite step) (fun _ => Boundary suite (step + 1)) (fun error => Stopped suite error.1) := by
  intro engine boundary
  exact ensures_imp _ _ _ _ _ (run_step_spec suite step engine) (fun _ same => same)
    (fun _ later => boundary_finished suite positive step engine later boundary)
    (fun error later => stopped_interrupted suite step engine later error boundary) engine (like_refl engine)

theorem run_sequence_boundary (suite : Suite σ) (positive : ∀ invariant ∈ suite.invariants, 1 ≤ invariant.period)
    (flowsCount : Nat) :
    Ensures (Boundary suite 0) (runSequence suite flowsCount) (fun _ => Boundary suite flowsCount)
      (fun error => Stopped suite error.1) := by
  refine ensures_bind _ _ _ _ (ensures_range flowsCount _ (Boundary suite) fun step _ => run_step_boundary suite positive step)
    fun _ engine boundary => ?_
  refine ensures_imp _ _ _ _ _ (call_spec .postSequence suite.postSequence engine) (fun _ same => same) ?_ ?_ engine (like_refl engine)
  · exact fun _ later like => boundary_like suite flowsCount engine later like boundary
  · rintro error later ⟨place, like⟩
    have after := boundary_like suite flowsCount engine later like boundary
    rw [place]
    exact ⟨stopped_between suite flowsCount later after, after.balanced⟩

theorem zero_stats_balanced (suite : Suite σ) : Balanced suite none (zeroStats suite) := by
  intro flow member
  refine ⟨.zero, get_of_agree _ _ _ ?_ fun pair inside _ => ?_, rfl, rfl⟩
  · rw [List.map_map]
    exact List.mem_map_of_mem member
  · obtain ⟨other, _, rfl⟩ := List.mem_map.mp inside
    rfl

def Ending.owed : Ending σ → Option Text
  | .failed site _ _ => site.owed
  | _ => none

def deposit : Flow Unit := ⟨0, ['d', 'e', 'p', 'o', 's', 'i', 't'], 100, some 1, none, pure none⟩

def withdraw : Flow Unit :=
  ⟨1, ['w', 'i', 't', 'h', 'd', 'r', 'a', 'w'], 100, none, some (pure true), pure (some ['e', 'm', 'p', 't', 'y'])⟩

def solvent : Invariant Unit := ⟨0, ['s', 'o', 'l', 'v', 'e', 'n', 't'], 2, pure ()⟩

def firstChoice (weights : List Int) : Act Raised Unit (Fin weights.length) :=
  match weights with
  | [] => fail .exception
  | _ :: _ => pure 0

theorem distinct_flows (left right : Flow Unit) (first : left ∈ [deposit, withdraw]) (second : right ∈ [deposit, withdraw])
    (same : left.key = right.key) : left = right := by
  simp only [List.mem_cons, List.not_mem_nil, or_false] at first second
  rcases first with rfl | rfl <;> rcases second with rfl | rfl <;> first | rfl | cases same

def bank : Suite Unit where
  name := ['B', 'a', 'n', 'k']
  flows := [deposit, withdraw]
  invariants := [solvent]
  create := pure ()
  preSequence := pure ()
  postSequence := pure ()
  preFlow _ := pure ()
  postFlow _ := pure ()
  preInvariants := pure ()
  postInvariants := pure ()
  preInvariant _ := pure ()
  postInvariant _ := pure ()
  reset := pure ()
  choices := firstChoice
  sameFlow left first right second same := distinct_flows left right first second same
  invariantKeys := List.nodup_singleton _

end WakeSol.Fuzz
