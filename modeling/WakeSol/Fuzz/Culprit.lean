import WakeSol.Fuzz.Runs

/- Whom the crash record of a failed run names. The engine notes a label when it picks
   a flow or begins to check an invariant, and reads it when something raises. -/
set_option autoImplicit false

namespace WakeSol.Fuzz

open EffectLib TallyLib TextLib

variable {σ : Type}

def Site.label : Site σ → Option Text
  | .preFlow chosen | .flow chosen | .postFlow chosen => some (flowLabel chosen)
  | .preInvariant checked | .invariant checked | .postInvariant checked => some (invariantLabel checked)
  | _ => none

def Event.label : Event σ → Option Text
  | .returned flow _ => some (flowLabel flow)
  | .checked invariant => some (invariantLabel invariant)
  | _ => none

def Completed (label : Text) (events : List (Event σ)) : Prop := ∃ event ∈ events, event.label = some label

def NamesCulprit (failing : Text) (site : Site σ) : Prop := failing = [] ∨ site.label = some failing

structure Told (engine : Engine σ) : Prop where
  silent : engine.trace = [] → engine.current = []
  stale : engine.trace ≠ [] → Completed engine.current engine.steps.flatten

def Blamed (site : Site σ) (engine : Engine σ) : Prop :=
  site.label = some engine.current ∨
    (site.label = none ∧ (engine.trace = [] → engine.current = []) ∧ (engine.trace ≠ [] → Completed engine.current engine.events))

theorem completed_left (label : Text) (events more : List (Event σ)) (completed : Completed label events) :
    Completed label (events ++ more) := by
  obtain ⟨event, inside, same⟩ := completed
  exact ⟨event, List.mem_append_left _ inside, same⟩

theorem completed_right (label : Text) (events more : List (Event σ)) (completed : Completed label more) :
    Completed label (events ++ more) := by
  obtain ⟨event, inside, same⟩ := completed
  exact ⟨event, List.mem_append_right _ inside, same⟩

theorem flow_label_nonempty (flow : Flow σ) : flowLabel flow ≠ [] :=
  List.append_ne_nil_of_left_ne_nil (by simp) flow.name

theorem invariant_label_nonempty (invariant : Invariant σ) : invariantLabel invariant ≠ [] :=
  List.append_ne_nil_of_left_ne_nil (by simp) invariant.name

theorem completed_nonempty (label : Text) (events : List (Event σ)) (completed : Completed label events) : label ≠ [] := by
  obtain ⟨event, _, same⟩ := completed
  cases event with
  | returned flow skip =>
    rw [Event.label, Option.some.injEq] at same
    exact same ▸ flow_label_nonempty flow
  | checked invariant =>
    rw [Event.label, Option.some.injEq] at same
    exact same ▸ invariant_label_nonempty invariant
  | evaluated flow holds => cases same
  | chosen flow => cases same

theorem told_like (start engine : Engine σ) (like : Like start engine) (told : Told start) : Told engine := by
  obtain ⟨self, rfl⟩ := like
  exact ⟨told.silent, told.stale⟩

theorem counted_current (start : Engine σ) (events : List (Event σ)) (flow : Flow σ) (skip : Option Text) :
    (counted start events flow skip).current = flowLabel flow := by
  cases skip <;> rfl

theorem counted_trace (start : Engine σ) (events : List (Event σ)) (flow : Flow σ) (skip : Option Text) :
    (counted start events flow skip).trace = start.trace ++ [flow.name] := by
  cases skip <;> rfl

theorem checked_completed (start : Engine σ) (events : List (Event σ)) (flow : Flow σ) (skip : Option Text)
    (done : List (Invariant σ)) :
    Completed (checkedTo (counted start events flow skip) done).current (checkedTo (counted start events flow skip) done).now := by
  simp only [checkedTo, lastLabel]
  cases last : (dueIn (counted start events flow skip) done).getLast? with
  | none =>
    refine completed_left _ _ _ ⟨.returned flow skip, ?_, congrArg some (counted_current start events flow skip).symm⟩
    rw [counted_now]
    exact List.mem_append_right _ (List.mem_singleton_self _)
  | some invariant =>
    exact completed_right _ _ _ ⟨.checked invariant, List.mem_map_of_mem (List.mem_of_getLast? last), rfl⟩

theorem told_finished (suite : Suite σ) (start engine : Engine σ) (finished : Finished suite start engine) : Told engine := by
  obtain ⟨events, flow, skip, _, _, self, rfl⟩ := finished
  have completed := checked_completed start events flow skip suite.invariants
  refine ⟨fun empty => ?_, fun _ => ?_⟩
  · change (counted start events flow skip).trace = [] at empty
    rw [counted_trace] at empty
    exact absurd empty (by simp)
  · change Completed _ (Engine.finish _).steps.flatten
    rw [Engine.finish, List.flatten_append, List.flatten_singleton]
    exact completed_right _ _ _ completed

theorem early_unnamed (site : Site σ) (early : site.Early) : site.label = none := by
  cases site <;> first | rfl | exact early.elim

theorem blamed_interrupted (suite : Suite σ) (step : Nat) (before engine : Engine σ) (error : Site σ × Raised)
    (told : Told before) (cut : Interrupted suite (before.begin step) error engine) : Blamed error.1 engine := by
  rcases cut with ⟨early, events, _, self, rfl⟩ | ⟨events, flow, _, _, inFlow | ⟨skip, inChecks⟩⟩
  · exact .inr ⟨early_unnamed error.1 early, told.silent, fun picked => completed_left _ _ _ (told.stale picked)⟩
  · rcases inFlow with ⟨place, self, rfl⟩ | ⟨skip, place, self, rfl⟩
    · refine .inl ?_
      rcases place with place | place <;> rw [place] <;> rfl
    · exact .inl (by rw [place]; rfl)
  have traced : (counted (before.begin step) events flow skip).trace ≠ [] := by
    rw [counted_trace]
    exact fun empty => absurd empty (by simp)
  rcases inChecks with ⟨place, self, rfl⟩ | ⟨done, invariant, rest, _, _, ⟨place, self, rfl⟩ | ⟨place, self, rfl⟩⟩ | ⟨place, self, rfl⟩
  · have completed := checked_completed (before.begin step) events flow skip []
    rw [checked_to_nil] at completed
    exact .inr ⟨by rw [place]; rfl, fun empty => absurd empty traced, fun _ => completed_right _ _ _ completed⟩
  · refine .inl ?_
    rcases place with place | place <;> rw [place] <;> rfl
  · exact .inl (by rw [place]; rfl)
  · have completed := checked_completed (before.begin step) events flow skip suite.invariants
    exact .inr ⟨by rw [place]; rfl, fun empty => absurd empty traced, fun _ => completed_right _ _ _ completed⟩

theorem run_sequence_blamed (suite : Suite σ) (flowsCount : Nat) :
    Ensures Told (runSequence suite flowsCount) (fun _ => Told) (fun error => Blamed error.1) := by
  refine ensures_bind _ _ (fun _ => Told) _ (ensures_range flowsCount _ (fun _ => Told) fun step _ engine told => ?_)
    fun _ engine told => ?_
  · exact ensures_imp _ _ _ _ _ (run_step_spec suite step engine) (fun _ same => same)
      (fun _ later => told_finished suite _ later)
      (fun error later => blamed_interrupted suite step engine later error told) engine (like_refl engine)
  · refine ensures_imp _ _ _ _ _ (call_spec .postSequence suite.postSequence engine) (fun _ same => same) ?_ ?_ engine (like_refl engine)
    · exact fun _ later like => told_like engine later like told
    · rintro error later ⟨place, like⟩
      have after := told_like engine later like told
      exact .inr ⟨by rw [place]; rfl, after.silent, fun picked => completed_left _ _ _ (after.stale picked)⟩

theorem run_all_blamed (suite : Suite σ) (sequencesCount flowsCount : Int) (self : σ) (site : Site σ) (raised : Raised)
    (engine : Engine σ) (failed : (runAll suite sequencesCount flowsCount self).ending = .failed site raised engine) :
    Blamed site engine := by
  refine (run_all_carried suite flowsCount (fun _ => True) (fun _ => True) Blamed (fun self sequenceNum stats _ => ?_)
    sequencesCount self trivial).failed site raised engine failed
  refine ensures_imp _ _ _ _ _ (run_sequence_blamed suite flowsCount.toNat) ?_ (fun _ _ _ => ⟨trivial, trivial⟩) fun _ _ cut => cut
  rintro _ rfl
  exact ⟨fun _ => rfl, fun picked => absurd rfl picked⟩

-- The record names whose body or hook raised, or nobody, exactly when something of a
-- flow's or an invariant's own raised, or nothing had been picked yet. In every other
-- case it names one that has already completed.
theorem failing_names_iff (suite : Suite σ) (sequencesCount flowsCount : Int) (self : σ) (session : Session) (site : Site σ)
    (raised : Raised) (engine : Engine σ)
    (failed : (runAll suite sequencesCount flowsCount self).ending = .failed site raised engine) :
    ∃ failure, (run suite sequencesCount flowsCount self session).lastFuzzFailure = some failure ∧
      (NamesCulprit failure.failing site ↔ site.label.isSome = true ∨ failure.trace = []) ∧
      (¬NamesCulprit failure.failing site → Completed failure.failing engine.events) := by
  refine ⟨failureOf suite engine, by simp only [run, failed], ?_⟩
  change (NamesCulprit engine.current site ↔ site.label.isSome = true ∨ engine.trace = []) ∧
    (¬NamesCulprit engine.current site → Completed engine.current engine.events)
  rcases run_all_blamed suite sequencesCount flowsCount self site raised engine failed with named | ⟨unnamed, silent, stale⟩
  · have right : NamesCulprit engine.current site := .inr named
    exact ⟨⟨fun _ => .inl (by rw [named]; rfl), fun _ => right⟩, fun wrong => absurd right wrong⟩
  · by_cases picked : engine.trace = []
    · have right : NamesCulprit engine.current site := .inl (silent picked)
      exact ⟨⟨fun _ => .inr picked, fun _ => right⟩, fun wrong => absurd right wrong⟩
    · have completed := stale picked
      refine ⟨⟨fun right => ?_, fun known => ?_⟩, fun _ => completed⟩
      · rcases right with empty | same
        · exact absurd empty (completed_nonempty _ _ completed)
        · rw [unnamed] at same
          cases same
      · rcases known with labelled | empty
        · rw [unnamed] at labelled
          cases labelled
        · exact absurd empty picked

def onlyDeposit : Suite Unit where
  __ := bank
  flows := [deposit]
  invariants := []
  sameFlow _ first _ second _ := (List.mem_singleton.mp first).trans (List.mem_singleton.mp second).symm
  invariantKeys := List.nodup_nil

theorem failing_names_only_deposit :
    ∃ engine failure, (runAll onlyDeposit 1 2 ()).ending = .failed .runnable (.noRunnableFlow [deposit.name] []) engine ∧
      (run onlyDeposit 1 2 () ⟨.empty, none⟩).lastFuzzFailure = some failure ∧
      (NamesCulprit failure.failing (.runnable : Site Unit) ↔ failure.trace = []) := by
  obtain ⟨failure, recorded, right, _⟩ := failing_names_iff onlyDeposit 1 2 () ⟨.empty, none⟩ .runnable _ _ rfl
  refine ⟨_, failure, rfl, recorded, right.trans ?_⟩
  simp [Site.label]

theorem finished_flow_blamed :
    ∃ engine, (runAll onlyDeposit 1 2 ()).ending = .failed .runnable (.noRunnableFlow [deposit.name] []) engine ∧
      (run onlyDeposit 1 2 () ⟨.empty, none⟩).lastFuzzFailure =
        some ⟨onlyDeposit.name, 0, 1, flowLabel deposit, [deposit.name]⟩ ∧
      engine.steps = [[.chosen deposit, .returned deposit none]] ∧ ¬NamesCulprit (flowLabel deposit) (.runnable : Site Unit) := by
  refine ⟨_, rfl, ?_, ?_, ?_⟩
  · rfl
  · rfl
  · rintro (empty | same)
    · exact flow_label_nonempty deposit empty
    · cases same

end WakeSol.Fuzz
