import Mathlib.Tactic.Basic
import WakeSol.Fuzz.Engine

/- Everything a step of a sequence can do: the engine it leaves when it finishes, and
   for each place at which it can raise the engine it leaves there. The state of the
   test's own code is arbitrary throughout. -/
set_option autoImplicit false

namespace WakeSol.Fuzz

open EffectLib TallyLib TextLib

variable {σ α : Type}

def Like (start engine : Engine σ) : Prop := ∃ self, engine = { start with self := self }

theorem like_refl (engine : Engine σ) : Like engine engine := ⟨engine.self, rfl⟩

theorem call_spec (site : Site σ) (act : Act Raised σ α) (start : Engine σ) :
    Ensures (Like start) (call site act) (fun _ => Like start) (fun error engine => error.1 = site ∧ Like start engine) := by
  have kept : ∀ (self : σ) (engine : Engine σ), Like start engine → Like start { engine with self := self } := by
    rintro self _ ⟨_, rfl⟩
    exact ⟨self, rfl⟩
  refine ensures_imp _ _ _ _ _ (ensures_within Engine.self _ _ act (Like start) kept) (fun _ like => like)
    (fun _ _ like => like) ?_
  rintro _ engine ⟨⟨_, rfl⟩, like⟩
  exact ⟨rfl, like⟩

theorem update_spec (change : Engine σ → Engine σ) (start : Engine σ) (abrupt : Site σ × Raised → Engine σ → Prop)
    (natural : ∀ self, Like (change start) (change { start with self := self })) :
    Ensures (Like start) (update change) (fun _ => Like (change start)) abrupt := by
  refine ensures_update _ _ ?_
  rintro _ ⟨self, rfl⟩
  exact natural self

def noted (start : Engine σ) (events : List (Event σ)) : Engine σ := { start with now := start.now ++ events }

theorem note_spec (event : Event σ) (start : Engine σ) (abrupt : Site σ × Raised → Engine σ → Prop) :
    Ensures (Like start) (note event) (fun _ => Like (noted start [event])) abrupt :=
  update_spec _ start abrupt fun self => ⟨self, rfl⟩

def Evaluations (events : List (Event σ)) : Prop := ∀ event ∈ events, ∃ flow holds, event = .evaluated flow holds

theorem evaluations_append (left right : List (Event σ)) (first : Evaluations left) (second : Evaluations right) :
    Evaluations (left ++ right) := by
  intro event inside
  rcases List.mem_append.mp inside with before | after
  · exact first event before
  · exact second event after

theorem evaluations_nil : Evaluations ([] : List (Event σ)) := fun _ absent => nomatch absent

theorem noted_nil (start : Engine σ) : noted start [] = start := by
  rw [noted, List.append_nil]

theorem noted_append (start : Engine σ) (first second : List (Event σ)) :
    noted (noted start first) second = noted start (first ++ second) := by
  simp only [noted, List.append_assoc]

def Allowed (flow : Flow σ) (events : List (Event σ)) : Prop := flow.precondition.isSome = true → .evaluated flow true ∈ events

variable (flow : Flow σ)

theorem evaluate_spec (start : Engine σ) : Ensures (Like start) (evaluate flow)
      (fun holds engine => ∃ events, Evaluations events ∧ (holds = true → Allowed flow events) ∧ Like (noted start events) engine)
      (fun error engine => error.1 = .precondition flow ∧ Like start engine) := by
  rw [evaluate]
  cases gate : flow.precondition with
  | none =>
    refine ensures_pure true _ fun engine like => ⟨[], evaluations_nil, fun _ gated => ?_, by rwa [noted_nil]⟩
    rw [gate] at gated
    cases gated
  | some precondition =>
    refine ensures_bind _ _ _ _ (call_spec _ _ start) fun holds => ?_
    refine ensures_bind _ _ _ _ (note_spec _ start _) fun _ => ?_
    refine ensures_pure holds _ fun engine like => ⟨[.evaluated flow holds], ?_, fun yes _ => ?_, like⟩
    · intro event inside
      exact ⟨flow, holds, List.mem_singleton.mp inside⟩
    · rw [yes]
      exact List.mem_singleton_self _

theorem runnable_spec (start : Engine σ) : Ensures (Like start) (runnable flow)
      (fun wanted engine => ∃ events, Evaluations events ∧
        (wanted = true → underCap flow start = true ∧ Allowed flow events) ∧ Like (noted start events) engine)
      (fun error engine => error.1 = .precondition flow ∧ Like start engine) := by
  refine ensures_read _ _ fun seen like => ?_
  have cap : underCap flow seen = underCap flow start := by
    obtain ⟨self, rfl⟩ := like
    rfl
  rw [cap]
  by_cases room : underCap flow start = true
  · rw [if_pos room]
    refine ensures_imp _ _ _ _ _ (evaluate_spec flow start) (fun _ same => same ▸ like) ?_ fun _ _ cut => cut
    rintro holds engine ⟨events, only, allowed, reached⟩
    exact ⟨events, only, fun yes => ⟨room, allowed yes⟩, reached⟩
  · rw [if_neg room]
    refine ensures_pure false _ fun engine same => ⟨[], evaluations_nil, Bool.noConfusion, ?_⟩
    rw [same, noted_nil]
    exact like

structure Eligible (suite : Suite σ) (start : Engine σ) (events : List (Event σ)) (flow : Flow σ) : Prop where
  member : flow ∈ suite.flows
  room : underCap flow start = true
  allowed : Allowed flow events

def Selecting (suite : Suite σ) (start : Engine σ) (kept : List (Flow σ)) (engine : Engine σ) : Prop :=
  ∃ events, Evaluations events ∧ (∀ flow ∈ kept, Eligible suite start events flow) ∧ Like (noted start events) engine

def Site.Early : Site σ → Prop
  | .precondition _ | .runnable | .choice => True
  | _ => False

def Searched (start engine : Engine σ) : Prop := ∃ events, Evaluations events ∧ Like (noted start events) engine

def CutEarly (start : Engine σ) (error : Site σ × Raised) (engine : Engine σ) : Prop := error.1.Early ∧ Searched start engine

theorem allowed_append (events more : List (Event σ)) (allowed : Allowed flow events) :
    Allowed flow (events ++ more) := fun gated => List.mem_append_left _ (allowed gated)

variable (suite : Suite σ)

theorem eligible_append (start : Engine σ) (events more : List (Event σ)) (flow : Flow σ)
    (eligible : Eligible suite start events flow) : Eligible suite start (events ++ more) flow where
  member := eligible.member
  room := eligible.room
  allowed := allowed_append flow events more eligible.allowed

theorem select_spec (start : Engine σ) :
    Ensures (Like start) (keep suite.flows runnable) (Selecting suite start) (CutEarly start) := by
  refine ensures_from _ (Selecting suite start []) _ (fun engine like => ?_) (ensures_keep suite.flows runnable _ ?_)
  · exact ⟨[], evaluations_nil, fun _ absent => (nomatch absent), by rwa [noted_nil]⟩
  · intro kept flow member engine selecting
    obtain ⟨events, only, eligible, like⟩ := selecting
    refine ensures_imp _ _ _ _ _ (runnable_spec flow (noted start events)) (fun _ same => same) ?_ ?_ engine like
    · rintro wanted reached ⟨more, onlyMore, fits, later⟩
      refine ⟨events ++ more, evaluations_append _ _ only onlyMore, fun other inside => ?_, noted_append start events more ▸ later⟩
      have old : other ∈ kept → Eligible suite start (events ++ more) other := fun before =>
        eligible_append suite start events more other (eligible other before)
      cases wanted with
      | false => exact old inside
      | true =>
        rcases List.mem_append.mp inside with before | here
        · exact old before
        · obtain rfl := List.mem_singleton.mp here
          obtain ⟨room, allowed⟩ := fits rfl
          exact ⟨member, room, fun gated => List.mem_append_right _ (allowed gated)⟩
    · rintro error reached ⟨site, later⟩
      exact ⟨by rw [site]; trivial, events, only, later⟩

theorem evaluate_again (start : Engine σ) :
    Ensures (Searched start) (evaluate flow) (fun _ => Searched start) (CutEarly start) := by
  intro engine ⟨events, only, like⟩
  refine ensures_imp _ _ _ _ _ (evaluate_spec flow (noted start events)) (fun _ same => same) ?_ ?_ engine like
  · rintro holds reached ⟨more, onlyMore, _, later⟩
    exact ⟨events ++ more, evaluations_append _ _ only onlyMore, noted_append start events more ▸ later⟩
  · rintro error reached ⟨site, later⟩
    exact ⟨by rw [site]; trivial, events, only, later⟩

theorem no_runnable_spec (start : Engine σ) (after : Unit → Engine σ → Prop) :
    Ensures (Searched start) (noRunnableFlow suite) after (CutEarly start) := by
  refine ensures_read _ _ fun seen searched => ensures_from _ (Searched start) _ (fun _ same => same ▸ searched) ?_
  refine ensures_bind _ _ (fun _ => Searched start) _ ?_ fun gated => ensures_fail _ _ fun engine again => ⟨trivial, again⟩
  refine ensures_keep suite.flows _ (fun _ => Searched start) fun _ flow _ => ?_
  refine ensures_bind _ _ _ _ (evaluate_again flow start) fun holds => ensures_pure _ _ fun engine again => ?_
  exact again

theorem choose_spec (valid : List (Flow σ)) (start : Engine σ) :
    Ensures (Selecting suite start valid) (choose suite valid)
      (fun flow engine => ∃ events, Evaluations events ∧ Eligible suite start events flow ∧ Like (noted start events) engine)
      (CutEarly start) := by
  intro engine ⟨events, only, eligible, like⟩
  refine ensures_bind _ _ _ _ (ensures_cut _ _ _ (call_spec .choice _ (noted start events)) ?_) (fun place => ?_) engine like
  · rintro error reached ⟨site, later⟩
    exact ⟨by rw [site]; trivial, events, only, later⟩
  · refine ensures_pure _ _ fun reached later => ⟨events, only, eligible _ (List.get_mem _ _), later⟩

def picked (start : Engine σ) (events : List (Event σ)) (flow : Flow σ) : Engine σ := Engine.pick flow (noted start events)

def returned (start : Engine σ) (events : List (Event σ)) (flow : Flow σ) (skip : Option Text) : Engine σ :=
  noted (picked start events flow) [.returned flow skip]

def counted (start : Engine σ) (events : List (Event σ)) (flow : Flow σ) (skip : Option Text) : Engine σ :=
  Engine.count flow skip (returned start events flow skip)

def CutFlow (start : Engine σ) (events : List (Event σ)) (flow : Flow σ) (error : Site σ × Raised) (engine : Engine σ) : Prop :=
  ((error.1 = .preFlow flow ∨ error.1 = .flow flow) ∧ Like (picked start events flow) engine) ∨
    ∃ skip, error.1 = .postFlow flow ∧ Like (returned start events flow skip) engine

theorem run_flow_spec (start : Engine σ) (events : List (Event σ)) (flow : Flow σ) :
    Ensures (Like (noted start events)) (runFlow suite flow) (fun _ engine => ∃ skip, Like (counted start events flow skip) engine)
      (CutFlow start events flow) := by
  refine ensures_bind _ _ _ _ (update_spec (Engine.pick flow) _ _ fun self => ⟨self, rfl⟩) fun _ => ?_
  refine ensures_bind _ _ (fun _ => Like (picked start events flow)) _ ?_ fun _ => ?_
  · exact ensures_cut _ _ _ (call_spec (.preFlow flow) _ _) fun error engine cut => .inl ⟨.inl cut.1, cut.2⟩
  refine ensures_bind _ _ (fun _ => Like (picked start events flow)) _ ?_ fun skip => ?_
  · exact ensures_cut _ _ _ (call_spec (.flow flow) _ _) fun error engine cut => .inl ⟨.inr cut.1, cut.2⟩
  refine ensures_bind _ _ _ _ (note_spec (.returned flow skip) _ _) fun _ => ?_
  refine ensures_bind _ _ (fun _ => Like (returned start events flow skip)) _ ?_ fun _ => ?_
  · exact ensures_cut _ _ _ (call_spec (.postFlow flow) _ _) fun error engine cut => .inr ⟨skip, cut⟩
  · refine ensures_imp _ _ _ _ _ (update_spec (Engine.count flow skip) (returned start events flow skip) _ ?_) (fun _ same => same)
      (fun _ engine like => ⟨skip, like⟩) fun _ _ cut => cut
    intro self
    cases skip <;> exact ⟨self, rfl⟩

def dueIn (base : Engine σ) (done : List (Invariant σ)) : List (Invariant σ) :=
  done.filter fun invariant => base.invariantPeriods invariant.key = 0

def advanceAll (done : List (Invariant σ)) (periods : Nat → Nat) : Nat → Nat :=
  done.foldl (fun periods invariant => Function.update periods invariant.key (nextPeriod invariant (periods invariant.key))) periods

def lastLabel (base : Engine σ) (done : List (Invariant σ)) : Text :=
  ((dueIn base done).getLast?.map invariantLabel).getD base.current

def checkedTo (base : Engine σ) (done : List (Invariant σ)) : Engine σ :=
  { base with
    invariantPeriods := advanceAll done base.invariantPeriods
    current := lastLabel base done
    now := base.now ++ (dueIn base done).map .checked }

def labelled (base : Engine σ) (invariant : Invariant σ) : Engine σ := { base with current := invariantLabel invariant }

theorem advance_all_apart (done : List (Invariant σ)) (periods : Nat → Nat) (key : Nat) (apart : key ∉ done.map Invariant.key) :
    advanceAll done periods key = periods key := by
  induction done generalizing periods with
  | nil => rfl
  | cons invariant rest ih =>
    rw [List.map_cons, List.mem_cons, not_or] at apart
    rw [advanceAll, List.foldl_cons, ← advanceAll, ih _ apart.2, Function.update_of_ne apart.1]

theorem advance_all_append (done : List (Invariant σ)) (invariant : Invariant σ) (periods : Nat → Nat) :
    advanceAll (done ++ [invariant]) periods =
      Function.update (advanceAll done periods) invariant.key (nextPeriod invariant (advanceAll done periods invariant.key)) := by
  rw [advanceAll, List.foldl_append]
  rfl

variable (base : Engine σ)

theorem checked_to_due (done : List (Invariant σ)) (invariant : Invariant σ)
    (due : base.invariantPeriods invariant.key = 0) :
    Engine.advance invariant (noted (labelled (checkedTo base done) invariant) [.checked invariant]) =
      checkedTo base (done ++ [invariant]) := by
  have grown : dueIn base (done ++ [invariant]) = dueIn base done ++ [invariant] := by simp [dueIn, due]
  simp [Engine.advance, noted, labelled, checkedTo, lastLabel, grown, advance_all_append]

theorem checked_to_idle (done : List (Invariant σ)) (invariant : Invariant σ)
    (idle : base.invariantPeriods invariant.key ≠ 0) :
    Engine.advance invariant (checkedTo base done) = checkedTo base (done ++ [invariant]) := by
  have same : dueIn base (done ++ [invariant]) = dueIn base done := by simp [dueIn, idle]
  simp [Engine.advance, checkedTo, lastLabel, same, advance_all_append]

def CutCheck (base : Engine σ) (done : List (Invariant σ)) (invariant : Invariant σ) (error : Site σ × Raised)
    (engine : Engine σ) : Prop :=
  ((error.1 = .preInvariant invariant ∨ error.1 = .invariant invariant) ∧ Like (labelled (checkedTo base done) invariant) engine) ∨
    (error.1 = .postInvariant invariant ∧ Like (noted (labelled (checkedTo base done) invariant) [.checked invariant]) engine)

theorem check_body_spec (done : List (Invariant σ)) (invariant : Invariant σ) :
    Ensures (Like (checkedTo base done)) (checkBody suite invariant)
      (fun _ => Like (noted (labelled (checkedTo base done) invariant) [.checked invariant])) (CutCheck base done invariant) := by
  refine ensures_bind _ _ _ _ (update_spec _ _ _ fun self => ⟨self, rfl⟩) fun _ => ?_
  refine ensures_bind _ _ (fun _ => Like (labelled (checkedTo base done) invariant)) _ ?_ fun _ => ?_
  · exact ensures_cut _ _ _ (call_spec (.preInvariant invariant) _ _) fun error engine cut => .inl ⟨.inl cut.1, cut.2⟩
  refine ensures_bind _ _ (fun _ => Like (labelled (checkedTo base done) invariant)) _ ?_ fun _ => ?_
  · exact ensures_cut _ _ _ (call_spec (.invariant invariant) _ _) fun error engine cut => .inl ⟨.inr cut.1, cut.2⟩
  refine ensures_bind _ _ _ _ (note_spec (.checked invariant) _ _) fun _ => ?_
  exact ensures_cut _ _ _ (call_spec (.postInvariant invariant) _ _) fun error engine cut => .inr cut

theorem check_spec (done : List (Invariant σ)) (invariant : Invariant σ) (apart : invariant.key ∉ done.map Invariant.key) :
    Ensures (Like (checkedTo base done)) (checkInvariant suite invariant) (fun _ => Like (checkedTo base (done ++ [invariant])))
      (fun error engine => base.invariantPeriods invariant.key = 0 ∧ CutCheck base done invariant error engine) := by
  refine ensures_read _ _ fun seen like => ?_
  have counter : seen.invariantPeriods invariant.key = base.invariantPeriods invariant.key := by
    obtain ⟨self, rfl⟩ := like
    exact advance_all_apart done base.invariantPeriods invariant.key apart
  rw [counter]
  by_cases due : base.invariantPeriods invariant.key = 0
  · rw [if_pos due, ← checked_to_due base done invariant due]
    refine ensures_from _ (Like (checkedTo base done)) _ (fun _ same => same ▸ like) ?_
    refine ensures_bind _ _ _ _ (ensures_cut _ _ _ (check_body_spec suite base done invariant) ?_) fun _ => ?_
    · exact fun error engine cut => ⟨due, cut⟩
    exact update_spec (Engine.advance invariant) _ _ fun self => ⟨self, rfl⟩
  · rw [if_neg due, ← checked_to_idle base done invariant due]
    refine ensures_from _ (Like (checkedTo base done)) _ (fun _ same => same ▸ like) ?_
    exact update_spec (Engine.advance invariant) _ _ fun self => ⟨self, rfl⟩

def CutChecks (suite : Suite σ) (base : Engine σ) (error : Site σ × Raised) (engine : Engine σ) : Prop :=
  (error.1 = .preInvariants ∧ Like base engine) ∨
    (∃ done invariant rest, suite.invariants = done ++ invariant :: rest ∧ base.invariantPeriods invariant.key = 0 ∧
      CutCheck base done invariant error engine) ∨
    (error.1 = .postInvariants ∧ Like (checkedTo base suite.invariants) engine)

theorem checked_to_nil : checkedTo base [] = base := by
  simp [checkedTo, advanceAll, lastLabel, dueIn]

theorem split_apart (done rest : List (Invariant σ)) (invariant : Invariant σ)
    (split : suite.invariants = done ++ invariant :: rest) : invariant.key ∉ done.map Invariant.key := by
  have keys := suite.invariantKeys
  rw [split, List.map_append, List.map_cons] at keys
  intro known
  exact List.disjoint_of_nodup_append keys known List.mem_cons_self

theorem run_checks_spec :
    Ensures (Like base) (runChecks suite) (fun _ => Like (checkedTo base suite.invariants)) (CutChecks suite base) := by
  refine ensures_bind _ _ (fun _ => Like (checkedTo base [])) _ ?_ fun _ => ?_
  · rw [checked_to_nil]
    exact ensures_cut _ _ _ (call_spec .preInvariants _ _) fun error engine cut => .inl cut
  refine ensures_bind _ _ (fun _ => Like (checkedTo base suite.invariants)) _ ?_ fun _ => ?_
  · refine ensures_each suite.invariants _ (fun done => Like (checkedTo base done)) fun done invariant rest split => ?_
    refine ensures_cut _ _ _ (check_spec suite base done invariant (split_apart suite done rest invariant split)) ?_
    exact fun error engine cut => .inr (.inl ⟨done, invariant, rest, split, cut⟩)
  · exact ensures_cut _ _ _ (call_spec .postInvariants _ _) fun error engine cut => .inr (.inr cut)

def Finished (suite : Suite σ) (start engine : Engine σ) : Prop :=
  ∃ events flow skip, Evaluations events ∧ Eligible suite start events flow ∧
    Like (Engine.finish (checkedTo (counted start events flow skip) suite.invariants)) engine

def Interrupted (suite : Suite σ) (start : Engine σ) (error : Site σ × Raised) (engine : Engine σ) : Prop :=
  CutEarly start error engine ∨
    ∃ events flow, Evaluations events ∧ Eligible suite start events flow ∧
      (CutFlow start events flow error engine ∨ ∃ skip, CutChecks suite (counted start events flow skip) error engine)

theorem run_step_spec (step : Nat) (before : Engine σ) :
    Ensures (Like before) (runStep suite step) (fun _ => Finished suite (before.begin step))
      (Interrupted suite (before.begin step)) := by
  refine ensures_bind _ _ _ _ (update_spec (Engine.begin step) before _ fun self => ⟨self, rfl⟩) fun _ => ?_
  refine ensures_bind _ _ (Selecting suite (before.begin step)) _ ?_ fun valid => ?_
  · exact ensures_cut _ _ _ (select_spec suite (before.begin step)) fun error engine cut => .inl cut
  by_cases empty : valid.isEmpty = true
  · rw [if_pos empty]
    refine ensures_imp _ _ _ _ _ (no_runnable_spec suite (before.begin step) _) ?_ (fun _ _ same => same)
      fun error engine cut => .inl cut
    rintro engine ⟨events, only, _, like⟩
    exact ⟨events, only, like⟩
  rw [if_neg empty]
  refine ensures_bind _ _ _ _ (ensures_cut _ _ _ (choose_spec suite valid (before.begin step)) ?_) fun flow => ?_
  · exact fun error engine cut => .inl cut
  rintro engine ⟨events, only, eligible, like⟩
  have flowCut : ∀ error reached, CutFlow (before.begin step) events flow error reached →
      Interrupted suite (before.begin step) error reached := fun _ _ cut => .inr ⟨events, flow, only, eligible, .inl cut⟩
  refine ensures_bind _ _ _ _ (ensures_cut _ _ _ (run_flow_spec suite _ events flow) flowCut) (fun _ => ?_) engine like
  rintro later ⟨skip, ran⟩
  have checkCut : ∀ error reached, CutChecks suite (counted (before.begin step) events flow skip) error reached →
      Interrupted suite (before.begin step) error reached := fun _ _ cut => .inr ⟨events, flow, only, eligible, .inr ⟨skip, cut⟩⟩
  refine ensures_bind _ _ _ _ (ensures_cut _ _ _ (run_checks_spec suite _) checkCut) (fun _ => ?_) later ran
  refine ensures_imp _ _ _ _ _ (update_spec Engine.finish _ _ fun self => ⟨self, rfl⟩) (fun _ same => same)
    (fun _ reached like => ⟨events, flow, skip, only, eligible, like⟩) fun _ _ cut => cut

end WakeSol.Fuzz
