import Mathlib.Tactic.Linarith
import WakeSol.Fuzz.Steps

/- What holds of every sequence, however it ends: how often a capped flow has run, that
   a chosen flow's precondition was true, which invariants each finished step checked,
   and that the statistics balance. -/
set_option autoImplicit false

namespace WakeSol.Fuzz

open EffectLib TallyLib TextLib

variable {σ : Type}

def Event.completes (key : Nat) : Event σ → Bool
  | .returned flow none => flow.key == key
  | _ => false

def completions (key : Nat) (events : List (Event σ)) : Nat := events.countP (Event.completes key)

def Engine.events (engine : Engine σ) : List (Event σ) := engine.steps.flatten ++ engine.now

def Licensed (events : List (Event σ)) : Prop := ∀ flow, .chosen flow ∈ events → Allowed flow events

def dueAt (suite : Suite σ) (step : Nat) : List (Invariant σ) :=
  suite.invariants.filter fun invariant => decide (invariant.period ∣ (step : Int))

def stepLog (evaluations : List (Event σ)) (flow : Flow σ) (skip : Option Text) (checks : List (Invariant σ)) : List (Event σ) :=
  evaluations ++ .chosen flow :: .returned flow skip :: checks.map .checked

def FullStep (suite : Suite σ) (step : Nat) (events : List (Event σ)) : Prop :=
  ∃ evaluations flow skip, Evaluations evaluations ∧ flow ∈ suite.flows ∧ events = stepLog evaluations flow skip (dueAt suite step)

structure Schedule (suite : Suite σ) (engine : Engine σ) : Prop where
  capped : ∀ flow ∈ suite.flows, ∀ times, flow.maxTimes = some times → completions flow.key engine.events ≤ times.toNat
  licensed : ∀ events ∈ engine.steps ++ [engine.now], Licensed events
  finished : ∀ step events, engine.steps[step]? = some events → FullStep suite step events

structure Leaf.Even (owed : Nat) (leaf : Leaf) : Prop where
  picks : leaf.picked = leaf.ran + leaf.skipped + owed
  reasons : amount leaf.reasons.entries = leaf.skipped

def Balanced (suite : Suite σ) (owed : Option Text) (stats : FlowStats) : Prop :=
  ∀ flow ∈ suite.flows, ∃ leaf, stats.get flow.name = some leaf ∧ leaf.Even (if owed = some flow.name then 1 else 0)

def Site.owed : Site σ → Option Text
  | .preFlow chosen | .flow chosen | .postFlow chosen => some chosen.name
  | _ => none

theorem adjust_get (stats : FlowStats) (name other : Text) (change : Leaf → Leaf) :
    (adjust stats name change).get other = if other = name then (stats.get name).map change else stats.get other := by
  rw [adjust]
  cases found : stats.get name with
  | none =>
    by_cases same : other = name
    · rw [if_pos same, same, found]
      rfl
    · rw [if_neg same]
  | some leaf => exact get_set stats name other (change leaf)

variable (suite : Suite σ)

theorem balanced_adjust (owed later : Option Text) (stats : FlowStats) (name : Text) (change : Leaf → Leaf)
    (balanced : Balanced suite owed stats)
    (here : ∀ leaf : Leaf, leaf.Even (if owed = some name then 1 else 0) → (change leaf).Even (if later = some name then 1 else 0))
    (apart : ∀ other, other ≠ name → (owed = some other ↔ later = some other)) :
    Balanced suite later (adjust stats name change) := by
  intro flow member
  obtain ⟨leaf, found, even⟩ := balanced flow member
  rw [adjust_get]
  by_cases same : flow.name = name
  · rw [same] at found even ⊢
    exact ⟨change leaf, by rw [if_pos rfl, found, Option.map_some], here leaf even⟩
  · refine ⟨leaf, by rw [if_neg same, found], ?_⟩
    simp only [← apart flow.name same]
    exact even

theorem balanced_pick (stats : FlowStats) (name : Text) (balanced : Balanced suite none stats) :
    Balanced suite (some name) (adjust stats name Leaf.pick) := by
  refine balanced_adjust suite none (some name) stats name _ balanced (fun leaf even => ?_) fun other apart => ?_
  · exact ⟨by simpa [Leaf.pick] using even.picks, even.reasons⟩
  · simp [Ne.symm apart]

theorem balanced_settle (stats : FlowStats) (name : Text) (change : Leaf → Leaf)
    (balanced : Balanced suite (some name) stats) (settles : ∀ leaf : Leaf, leaf.Even 1 → (change leaf).Even 0) :
    Balanced suite none (adjust stats name change) := by
  refine balanced_adjust suite (some name) none stats name _ balanced (fun leaf even => ?_) fun other apart => ?_
  · rw [if_pos rfl] at even
    exact settles leaf even
  · simp [Ne.symm apart]

theorem run_settles (leaf : Leaf) (even : leaf.Even 1) : leaf.run.Even 0 where
  picks := by
    have picks := even.picks
    simp only [Leaf.run]
    omega
  reasons := even.reasons

theorem skip_settles (reason : Text) (leaf : Leaf) (even : leaf.Even 1) : (leaf.skip reason).Even 0 where
  picks := by
    have picks := even.picks
    simp only [Leaf.skip]
    omega
  reasons := by
    have counted := amount_increment leaf.reasons reason
    rw [even.reasons] at counted
    exact counted

theorem evaluations_completions (key : Nat) (events : List (Event σ)) (only : Evaluations events) : completions key events = 0 := by
  rw [completions, List.countP_eq_zero]
  intro event inside
  obtain ⟨flow, holds, rfl⟩ := only event inside
  exact Bool.false_ne_true

theorem checks_completions (key : Nat) (checks : List (Invariant σ)) : completions key (checks.map .checked) = 0 := by
  rw [completions, List.countP_eq_zero]
  intro event inside
  obtain ⟨invariant, _, rfl⟩ := List.mem_map.mp inside
  exact Bool.false_ne_true

theorem step_log_completions (key : Nat) (evaluations : List (Event σ)) (flow : Flow σ) (skip : Option Text)
    (checks : List (Invariant σ)) (only : Evaluations evaluations) :
    completions key (stepLog evaluations flow skip checks) = if skip = none ∧ flow.key = key then 1 else 0 := by
  have before := evaluations_completions key evaluations only
  have after := checks_completions key checks
  rw [completions] at before after ⊢
  rw [stepLog, List.countP_append, List.countP_cons, List.countP_cons, before, after]
  cases skip with
  | none => simp [Event.completes]
  | some reason => simp [Event.completes]

theorem evaluations_licensed (events : List (Event σ)) (only : Evaluations events) : Licensed events := by
  intro flow inside
  obtain ⟨other, holds, same⟩ := only _ inside
  cases same

theorem chosen_licensed (events tail : List (Event σ)) (flow : Flow σ) (only : Evaluations events) (allowed : Allowed flow events)
    (none : ∀ other, .chosen other ∉ tail) : Licensed (events ++ .chosen flow :: tail) := by
  intro other inside
  rcases List.mem_append.mp inside with before | after
  · exact allowed_append other events _ (evaluations_licensed events only other before)
  · rcases List.mem_cons.mp after with same | later
    · cases same
      exact allowed_append flow events _ allowed
    · exact absurd later (none other)

theorem step_log_licensed (events : List (Event σ)) (flow : Flow σ) (skip : Option Text) (checks : List (Invariant σ))
    (only : Evaluations events) (allowed : Allowed flow events) : Licensed (stepLog events flow skip checks) := by
  refine chosen_licensed events _ flow only allowed fun other inside => ?_
  rcases List.mem_cons.mp inside with same | later
  · cases same
  · obtain ⟨_, _, same⟩ := List.mem_map.mp later
    cases same

theorem counted_counter (start : Engine σ) (events : List (Event σ)) (flow : Flow σ) (skip : Option Text) (key : Nat) :
    (counted start events flow skip).flowsCounter key = start.flowsCounter key + if skip = none ∧ flow.key = key then 1 else 0 := by
  cases skip with
  | some reason => simp [counted, Engine.count, returned, picked, noted, Engine.pick]
  | none =>
    by_cases same : flow.key = key
    · subst same
      simp [counted, Engine.count, returned, picked, noted, Engine.pick]
    · have apart : key ≠ flow.key := fun equal => same equal.symm
      simp [counted, Engine.count, returned, picked, noted, Engine.pick, same, apart]

theorem counted_balanced (start : Engine σ) (events : List (Event σ)) (flow : Flow σ) (skip : Option Text)
    (balanced : Balanced suite none start.stats) : Balanced suite none (counted start events flow skip).stats := by
  have picking := balanced_pick suite start.stats flow.name balanced
  cases skip with
  | none => exact balanced_settle suite _ flow.name _ picking run_settles
  | some reason => exact balanced_settle suite _ flow.name _ picking (skip_settles reason)

theorem advance_all_at (done : List (Invariant σ)) (distinct : (done.map Invariant.key).Nodup) (periods : Nat → Nat)
    (invariant : Invariant σ) (inside : invariant ∈ done) :
    advanceAll done periods invariant.key = nextPeriod invariant (periods invariant.key) := by
  obtain ⟨first, rest, rfl⟩ := List.append_of_mem inside
  rw [List.map_append, List.map_cons, List.nodup_append] at distinct
  have before : invariant.key ∉ first.map Invariant.key := fun known => distinct.2.2 _ known _ List.mem_cons_self rfl
  have after : invariant.key ∉ rest.map Invariant.key := (List.nodup_cons.mp distinct.2.1).1
  rw [advanceAll, List.foldl_append, List.foldl_cons, ← advanceAll, ← advanceAll, advance_all_apart rest _ _ after,
    Function.update_self, advance_all_apart first _ _ before]

theorem next_period_mod (invariant : Invariant σ) (positive : 1 ≤ invariant.period) (count step : Nat)
    (clock : (count : Int) = (step : Int) % invariant.period) :
    (nextPeriod invariant count : Int) = ((step + 1 : Nat) : Int) % invariant.period := by
  have small : (step : Int) % invariant.period < invariant.period := Int.emod_lt_of_pos _ (by omega)
  have later : ((step + 1 : Nat) : Int) % invariant.period = ((count : Int) + 1) % invariant.period := by
    rw [clock, Nat.cast_add, Nat.cast_one, Int.emod_add_emod]
  rw [later, nextPeriod]
  by_cases full : ((count + 1 : Nat) : Int) ≥ invariant.period
  · have whole : (count : Int) + 1 = invariant.period := by omega
    rw [if_pos full, whole, Int.emod_self]
    rfl
  · rw [if_neg full, Int.emod_eq_of_lt (by omega) (by omega)]
    rfl

structure Boundary (suite : Suite σ) (step : Nat) (engine : Engine σ) : Prop where
  length : engine.steps.length = step
  idle : engine.now = []
  licensed : ∀ events ∈ engine.steps, Licensed events
  finished : ∀ (place : Nat) events, engine.steps[place]? = some events → FullStep suite place events
  counted : ∀ key, completions key engine.steps.flatten = engine.flowsCounter key
  capped : ∀ flow ∈ suite.flows, ∀ times, flow.maxTimes = some times → engine.flowsCounter flow.key ≤ times.toNat
  clock : ∀ invariant ∈ suite.invariants, (engine.invariantPeriods invariant.key : Int) = (step : Int) % invariant.period
  balanced : Balanced suite none engine.stats

theorem room_for_one (step : Nat) (engine : Engine σ) (boundary : Boundary suite step engine)
    (events : List (Event σ)) (chosen : Flow σ) (skip : Option Text) (eligible : Eligible suite engine events chosen)
    (flow : Flow σ) (member : flow ∈ suite.flows) (times : Int) (cap : flow.maxTimes = some times) :
    engine.flowsCounter flow.key + (if skip = none ∧ chosen.key = flow.key then 1 else 0) ≤ times.toNat := by
  have within := boundary.capped flow member times cap
  by_cases gains : skip = none ∧ chosen.key = flow.key
  · have same := suite.sameFlow chosen eligible.member flow member gains.2
    have room := eligible.room
    rw [same, underCap, cap] at room
    have less := of_decide_eq_true room
    rw [if_pos gains]
    omega
  · rw [if_neg gains]
    omega

theorem due_at_boundary (step : Nat) (engine base : Engine σ) (boundary : Boundary suite step engine)
    (periods : base.invariantPeriods = engine.invariantPeriods) : dueIn base suite.invariants = dueAt suite step := by
  refine List.filter_congr fun invariant inside => ?_
  have clock := boundary.clock invariant inside
  rw [periods, decide_eq_decide, Int.dvd_iff_emod_eq_zero, ← clock]
  omega

theorem boundary_fresh (self : σ) (sequenceNum : Nat) (stats : FlowStats)
    (balanced : Balanced suite none stats) : Boundary suite 0 (.fresh self sequenceNum stats) where
  length := rfl
  idle := rfl
  licensed _ absent := nomatch absent
  finished _ _ absent := nomatch absent
  counted _ := rfl
  capped _ _ _ _ := Nat.zero_le _
  clock invariant _ := (Int.zero_emod invariant.period).symm
  balanced := balanced

theorem counted_periods (start : Engine σ) (events : List (Event σ)) (flow : Flow σ) (skip : Option Text) :
    (counted start events flow skip).invariantPeriods = start.invariantPeriods := by
  cases skip <;> rfl

theorem counted_steps (start : Engine σ) (events : List (Event σ)) (flow : Flow σ) (skip : Option Text) :
    (counted start events flow skip).steps = start.steps := by
  cases skip <;> rfl

theorem counted_now (start : Engine σ) (events : List (Event σ)) (flow : Flow σ) (skip : Option Text) :
    (counted start events flow skip).now = start.now ++ events ++ [.chosen flow] ++ [.returned flow skip] := by
  cases skip <;> rfl

theorem checked_log (before : Engine σ) (step : Nat) (events : List (Event σ)) (flow : Flow σ) (skip : Option Text)
    (done : List (Invariant σ)) :
    (checkedTo (counted (before.begin step) events flow skip) done).now =
      stepLog events flow skip (dueIn (counted (before.begin step) events flow skip) done) := by
  simp [checkedTo, counted_now, stepLog, Engine.begin]

theorem boundary_finished (positive : ∀ invariant ∈ suite.invariants, 1 ≤ invariant.period) (step : Nat)
    (before engine : Engine σ) (boundary : Boundary suite step before) (finished : Finished suite (before.begin step) engine) :
    Boundary suite (step + 1) engine := by
  obtain ⟨events, flow, skip, only, eligible, self, rfl⟩ := finished
  have due := due_at_boundary suite step before (counted (before.begin step) events flow skip) boundary (counted_periods _ _ _ _)
  have log := checked_log before step events flow skip suite.invariants
  rw [due] at log
  have steps : (counted (before.begin step) events flow skip).steps = before.steps := counted_steps _ _ _ _
  have counters := counted_counter (before.begin step) events flow skip
  have grown : (Engine.finish (checkedTo (counted (before.begin step) events flow skip) suite.invariants)).steps =
      before.steps ++ [stepLog events flow skip (dueAt suite step)] := by
    rw [Engine.finish, log]
    exact congrArg (· ++ _) steps
  refine ⟨?_, rfl, ?_, ?_, ?_, ?_, ?_, ?_⟩
  · change (Engine.finish _).steps.length = _
    rw [grown, List.length_append, boundary.length]
    rfl
  · change ∀ events ∈ (Engine.finish _).steps, _
    rw [grown]
    intro log inside
    rcases List.mem_append.mp inside with old | new
    · exact boundary.licensed log old
    · rw [List.mem_singleton.mp new]
      exact step_log_licensed events flow skip _ only eligible.allowed
  · change ∀ (place : Nat) events, (Engine.finish _).steps[place]? = some events → _
    rw [grown]
    intro place log found
    by_cases old : place < before.steps.length
    · rw [List.getElem?_append_left old] at found
      exact boundary.finished place log found
    · obtain ⟨within, same⟩ := List.getElem?_eq_some_iff.mp found
      rw [List.length_append, List.length_singleton] at within
      have last : place = before.steps.length := by omega
      subst last
      rw [List.getElem_append_right (le_refl _)] at same
      refine ⟨events, flow, skip, only, eligible.member, ?_⟩
      rw [boundary.length, ← same]
      simp
  · intro key
    change completions key (Engine.finish _).steps.flatten = (counted (before.begin step) events flow skip).flowsCounter key
    rw [grown, List.flatten_append, completions, List.countP_append, ← completions, ← completions, boundary.counted, counters,
      List.flatten_singleton, step_log_completions key events flow skip _ only]
    rfl
  · intro other member times cap
    change (counted (before.begin step) events flow skip).flowsCounter other.key ≤ _
    rw [counters]
    exact room_for_one suite step before boundary events flow skip ⟨eligible.member, eligible.room, eligible.allowed⟩ other member
      times cap
  · intro invariant inside
    change (advanceAll suite.invariants (counted (before.begin step) events flow skip).invariantPeriods invariant.key : Int) = _
    rw [advance_all_at _ suite.invariantKeys _ invariant inside, counted_periods]
    exact next_period_mod invariant (positive invariant inside) _ step (boundary.clock invariant inside)
  · exact counted_balanced suite (before.begin step) events flow skip boundary.balanced

structure Stopped (suite : Suite σ) (site : Site σ) (engine : Engine σ) : Prop where
  schedule : Schedule suite engine
  balanced : Balanced suite site.owed engine.stats

theorem schedule_within (step : Nat) (before engine : Engine σ) (boundary : Boundary suite step before)
    (steps : engine.steps = before.steps) (licensed : Licensed engine.now)
    (few : ∀ flow ∈ suite.flows, ∀ times, flow.maxTimes = some times →
      before.flowsCounter flow.key + completions flow.key engine.now ≤ times.toNat) : Schedule suite engine where
  capped flow member times cap := by
    rw [Engine.events, completions, List.countP_append, ← completions, ← completions, steps, boundary.counted]
    exact few flow member times cap
  licensed events inside := by
    rw [steps] at inside
    rcases List.mem_append.mp inside with old | new
    · exact boundary.licensed events old
    · rw [List.mem_singleton.mp new]
      exact licensed
  finished := by
    rw [steps]
    exact boundary.finished

theorem stopped_between (step : Nat) (engine : Engine σ) (boundary : Boundary suite step engine) :
    Schedule suite engine := by
  refine schedule_within suite step engine engine boundary rfl ?_ fun flow member times cap => ?_
  · rw [boundary.idle]
    exact fun _ absent => nomatch absent
  · rw [boundary.idle]
    exact boundary.capped flow member times cap

theorem early_owes_nothing (site : Site σ) (early : site.Early) : site.owed = none := by
  cases site <;> first | rfl | exact early.elim

theorem stopped_early (step : Nat) (before engine : Engine σ) (error : Site σ × Raised)
    (boundary : Boundary suite step before) (cut : CutEarly (before.begin step) error engine) : Stopped suite error.1 engine := by
  obtain ⟨early, events, only, self, rfl⟩ := cut
  refine ⟨schedule_within suite step before _ boundary rfl (evaluations_licensed events only) fun flow member times cap => ?_, ?_⟩
  · change before.flowsCounter flow.key + completions flow.key events ≤ _
    rw [evaluations_completions flow.key events only]
    exact boundary.capped flow member times cap
  · rw [early_owes_nothing error.1 early]
    exact boundary.balanced

theorem stopped_flow (step : Nat) (before engine : Engine σ) (error : Site σ × Raised)
    (boundary : Boundary suite step before) (events : List (Event σ)) (flow : Flow σ) (only : Evaluations events)
    (eligible : Eligible suite (before.begin step) events flow) (cut : CutFlow (before.begin step) events flow error engine) :
    Stopped suite error.1 engine := by
  have balanced := balanced_pick suite before.stats flow.name boundary.balanced
  rcases cut with ⟨place, self, rfl⟩ | ⟨skip, place, self, rfl⟩
  · refine ⟨schedule_within suite step before _ boundary rfl ?_ fun other member times cap => ?_, ?_⟩
    · exact chosen_licensed events [] flow only eligible.allowed fun _ absent => nomatch absent
    · change before.flowsCounter other.key + completions other.key (events ++ [.chosen flow]) ≤ _
      rw [completions, List.countP_append, ← completions, evaluations_completions other.key events only]
      exact boundary.capped other member times cap
    · have owed : error.1.owed = some flow.name := by rcases place with at_pre | at_flow <;> simp [*, Site.owed]
      rw [owed]
      exact balanced
  · have log : events ++ [.chosen flow] ++ [.returned flow skip] = stepLog events flow skip [] := by simp [stepLog]
    refine ⟨schedule_within suite step before _ boundary rfl ?_ fun other member times cap => ?_, ?_⟩
    · change Licensed (events ++ [.chosen flow] ++ [.returned flow skip])
      rw [log]
      exact step_log_licensed events flow skip [] only eligible.allowed
    · change before.flowsCounter other.key + completions other.key (events ++ [.chosen flow] ++ [.returned flow skip]) ≤ _
      rw [log, step_log_completions other.key events flow skip [] only]
      exact room_for_one suite step before boundary events flow skip ⟨eligible.member, eligible.room, eligible.allowed⟩ other member
        times cap
    · rw [place]
      exact balanced

theorem stopped_checks (step : Nat) (before engine : Engine σ) (site : Site σ)
    (boundary : Boundary suite step before) (events : List (Event σ)) (flow : Flow σ) (skip : Option Text)
    (only : Evaluations events) (eligible : Eligible suite (before.begin step) events flow) (checks : List (Invariant σ))
    (steps : engine.steps = before.steps) (log : engine.now = stepLog events flow skip checks)
    (stats : engine.stats = (counted (before.begin step) events flow skip).stats) (owed : site.owed = none) :
    Stopped suite site engine := by
  refine ⟨schedule_within suite step before engine boundary steps ?_ fun other member times cap => ?_, ?_⟩
  · rw [log]
    exact step_log_licensed events flow skip checks only eligible.allowed
  · rw [log, step_log_completions other.key events flow skip checks only]
    exact room_for_one suite step before boundary events flow skip ⟨eligible.member, eligible.room, eligible.allowed⟩ other member
      times cap
  · rw [owed, stats]
    exact counted_balanced suite (before.begin step) events flow skip boundary.balanced

theorem step_log_more (events : List (Event σ)) (flow : Flow σ) (skip : Option Text) (checks : List (Invariant σ))
    (invariant : Invariant σ) :
    stepLog events flow skip checks ++ [.checked invariant] = stepLog events flow skip (checks ++ [invariant]) := by
  simp [stepLog]

theorem stopped_interrupted (step : Nat) (before engine : Engine σ) (error : Site σ × Raised)
    (boundary : Boundary suite step before) (cut : Interrupted suite (before.begin step) error engine) :
    Stopped suite error.1 engine := by
  rcases cut with early | ⟨events, flow, only, eligible, inFlow | ⟨skip, inChecks⟩⟩
  · exact stopped_early suite step before engine error boundary early
  · exact stopped_flow suite step before engine error boundary events flow only eligible inFlow
  have steps := counted_steps (before.begin step) events flow skip
  have log := checked_log before step events flow skip
  rcases inChecks with ⟨place, self, rfl⟩ | ⟨done, invariant, rest, _, _, ⟨place, self, rfl⟩ | ⟨place, self, rfl⟩⟩ | ⟨place, self, rfl⟩
  · refine stopped_checks suite step before _ error.1 boundary events flow skip only eligible [] steps ?_ rfl (by rw [place]; rfl)
    simp [counted_now, stepLog, Engine.begin]
  · refine stopped_checks suite step before _ error.1 boundary events flow skip only eligible _ steps (log done) rfl ?_
    rcases place with place | place <;> rw [place] <;> rfl
  · refine stopped_checks suite step before _ error.1 boundary events flow skip only eligible
      (dueIn (counted (before.begin step) events flow skip) done ++ [invariant]) steps ?_ rfl (by rw [place]; rfl)
    rw [← step_log_more, ← log done]
    rfl
  · exact stopped_checks suite step before _ error.1 boundary events flow skip only eligible _ steps (log _) rfl (by rw [place]; rfl)

end WakeSol.Fuzz
