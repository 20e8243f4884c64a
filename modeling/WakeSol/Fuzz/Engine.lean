import Mathlib.Logic.Function.Basic
import WakeSol.Fuzz.Stats
import WakeSol.Lib.Effects

/- The fuzz engine: sequences of steps, each of which picks one runnable flow, runs it
   and checks the invariants that are due. The code of the tests, their hooks and the
   random generator are any computations on a state of their own. The log of a
   sequence, and the place at which it was cut short, are not kept by the program. -/
set_option autoImplicit false

namespace WakeSol.Fuzz

open EffectLib TallyLib TextLib

-- The engine catches every Exception; a BaseException that is none, as an interrupt
-- from the keyboard, passes through it.
inductive Raised where
  | exception
  | noFlows
  | noRunnableFlow (capped gated : List Text)
  | fatal
deriving DecidableEq

def Raised.isException : Raised → Bool
  | .fatal => false
  | _ => true

-- The key is the identity of the method, by which the counters of a sequence are kept.
-- A flow that returns a text has skipped its step, for that reason.
structure Flow (σ : Type) where
  key : Nat
  name : Text
  weight : Int
  maxTimes : Option Int
  precondition : Option (Act Raised σ Bool)
  body : Act Raised σ (Option Text)

structure Invariant (σ : Type) where
  key : Nat
  name : Text
  period : Int
  body : Act Raised σ Unit

-- A test class, with the two calls the engine makes outside it: the reset of the
-- simulator and the weighted choice, which gives a place among the weights or raises.
structure Suite (σ : Type) where
  name : Text
  flows : List (Flow σ)
  invariants : List (Invariant σ)
  create : Act Raised σ Unit
  preSequence : Act Raised σ Unit
  postSequence : Act Raised σ Unit
  preFlow : Flow σ → Act Raised σ Unit
  postFlow : Flow σ → Act Raised σ Unit
  preInvariants : Act Raised σ Unit
  postInvariants : Act Raised σ Unit
  preInvariant : Invariant σ → Act Raised σ Unit
  postInvariant : Invariant σ → Act Raised σ Unit
  reset : Act Raised σ Unit
  choices : (weights : List Int) → Act Raised σ (Fin weights.length)
  sameFlow : ∀ left ∈ flows, ∀ right ∈ flows, left.key = right.key → left = right
  invariantKeys : (invariants.map Invariant.key).Nodup

inductive Event (σ : Type) where
  | evaluated (flow : Flow σ) (holds : Bool)
  | chosen (flow : Flow σ)
  | returned (flow : Flow σ) (skip : Option Text)
  | checked (invariant : Invariant σ)

inductive Site (σ : Type) where
  | precondition (flow : Flow σ)
  | runnable
  | choice
  | preFlow (flow : Flow σ)
  | flow (flow : Flow σ)
  | postFlow (flow : Flow σ)
  | preInvariants
  | preInvariant (invariant : Invariant σ)
  | invariant (invariant : Invariant σ)
  | postInvariant (invariant : Invariant σ)
  | postInvariants
  | postSequence

structure Engine (σ : Type) where
  self : σ
  sequenceNum : Nat
  flowNum : Nat
  flowsCounter : Nat → Nat
  invariantPeriods : Nat → Nat
  trace : List Text
  current : Text
  stats : FlowStats
  steps : List (List (Event σ))
  now : List (Event σ)

variable {σ α : Type}

abbrev Step (σ α : Type) := Act (Site σ × Raised) (Engine σ) α

def call (site : Site σ) (act : Act Raised σ α) : Step σ α :=
  within Engine.self (fun self engine => { engine with self := self }) (fun raised => (site, raised)) act

def note (event : Event σ) : Step σ Unit := update fun engine => { engine with now := engine.now ++ [event] }

def flowLabel (flow : Flow σ) : Text := "flow ".toList ++ flow.name

def invariantLabel (invariant : Invariant σ) : Text := "invariant ".toList ++ invariant.name

def underCap (flow : Flow σ) (engine : Engine σ) : Bool :=
  match flow.maxTimes with
  | none => true
  | some times => decide ((engine.flowsCounter flow.key : Int) < times)

def evaluate (flow : Flow σ) : Step σ Bool :=
  match flow.precondition with
  | none => pure true
  | some precondition => do
      let holds ← call (.precondition flow) precondition
      note (.evaluated flow holds)
      pure holds

def runnable (flow : Flow σ) : Step σ Bool := do
  let engine ← read
  if underCap flow engine then evaluate flow else pure false

-- The preconditions are evaluated once more for the message.
def noRunnableFlow (suite : Suite σ) : Step σ Unit := do
  let engine ← read
  let capped := suite.flows.filter fun flow => !underCap flow engine
  let gated ← keep suite.flows fun flow => do
    let holds ← evaluate flow
    pure !holds
  fail (.runnable, .noRunnableFlow (capped.map Flow.name) (gated.map Flow.name))

theorem weights_length (valid : List (Flow σ)) : (valid.map Flow.weight).length = valid.length := List.length_map Flow.weight

def choose (suite : Suite σ) (valid : List (Flow σ)) : Step σ (Flow σ) := do
  let place ← call .choice (suite.choices (valid.map Flow.weight))
  pure (valid.get (place.cast (weights_length valid)))

def adjust (stats : FlowStats) (name : Text) (change : Leaf → Leaf) : FlowStats :=
  match stats.get name with
  | none => stats
  | some leaf => stats.set name (change leaf)

def Leaf.pick (leaf : Leaf) : Leaf := { leaf with picked := leaf.picked + 1 }

def Leaf.run (leaf : Leaf) : Leaf := { leaf with ran := leaf.ran + 1 }

def Leaf.skip (reason : Text) (leaf : Leaf) : Leaf :=
  { leaf with skipped := leaf.skipped + 1, reasons := leaf.reasons.set reason ((leaf.reasons.get reason).getD 0 + 1) }

def Engine.pick (flow : Flow σ) (engine : Engine σ) : Engine σ :=
  { engine with
    current := flowLabel flow
    trace := engine.trace ++ [flow.name]
    stats := adjust engine.stats flow.name Leaf.pick
    now := engine.now ++ [.chosen flow] }

def Engine.count (flow : Flow σ) (skip : Option Text) (engine : Engine σ) : Engine σ :=
  match skip with
  | some reason => { engine with stats := adjust engine.stats flow.name (Leaf.skip reason) }
  | none =>
    { engine with
      flowsCounter := Function.update engine.flowsCounter flow.key (engine.flowsCounter flow.key + 1)
      stats := adjust engine.stats flow.name Leaf.run }

def runFlow (suite : Suite σ) (flow : Flow σ) : Step σ Unit := do
  update (Engine.pick flow)
  call (.preFlow flow) (suite.preFlow flow)
  let skip ← call (.flow flow) flow.body
  note (.returned flow skip)
  call (.postFlow flow) (suite.postFlow flow)
  update (Engine.count flow skip)

def nextPeriod (invariant : Invariant σ) (count : Nat) : Nat := if ((count + 1 : Nat) : Int) ≥ invariant.period then 0 else count + 1

def Engine.advance (invariant : Invariant σ) (engine : Engine σ) : Engine σ :=
  { engine with
    invariantPeriods := Function.update engine.invariantPeriods invariant.key
      (nextPeriod invariant (engine.invariantPeriods invariant.key)) }

def checkBody (suite : Suite σ) (invariant : Invariant σ) : Step σ Unit := do
  update fun engine => { engine with current := invariantLabel invariant }
  call (.preInvariant invariant) (suite.preInvariant invariant)
  call (.invariant invariant) invariant.body
  note (.checked invariant)
  call (.postInvariant invariant) (suite.postInvariant invariant)

def checkInvariant (suite : Suite σ) (invariant : Invariant σ) : Step σ Unit := do
  let engine ← read
  if engine.invariantPeriods invariant.key = 0 then checkBody suite invariant else pure ()
  update (Engine.advance invariant)

def runChecks (suite : Suite σ) : Step σ Unit := do
  call .preInvariants suite.preInvariants
  each suite.invariants (checkInvariant suite)
  call .postInvariants suite.postInvariants

def Engine.begin (step : Nat) (engine : Engine σ) : Engine σ := { engine with flowNum := step, now := [] }

def Engine.finish (engine : Engine σ) : Engine σ := { engine with steps := engine.steps ++ [engine.now], now := [] }

def runStep (suite : Suite σ) (step : Nat) : Step σ Unit := do
  update (Engine.begin step)
  let valid ← keep suite.flows runnable
  if valid.isEmpty then noRunnableFlow suite
  else do
    let chosen ← choose suite valid
    runFlow suite chosen
    runChecks suite
    update Engine.finish

def runSequence (suite : Suite σ) (flowsCount : Nat) : Step σ Unit := do
  each (List.range flowsCount) (runStep suite)
  call .postSequence suite.postSequence

def Engine.fresh (self : σ) (sequenceNum : Nat) (stats : FlowStats) : Engine σ where
  self := self
  sequenceNum := sequenceNum
  flowNum := 0
  flowsCounter := fun _ => 0
  invariantPeriods := fun _ => 0
  trace := []
  current := []
  stats := stats
  steps := []
  now := []

structure FuzzFailure where
  fuzzClass : Text
  sequence : Nat
  flow : Nat
  failing : Text
  trace : List Text
deriving DecidableEq

-- How the loop over the sequences ends. What raises outside a sequence's steps, or is
-- no Exception, leaves nothing behind.
inductive Ending (σ : Type) where
  | passed (stats : FlowStats)
  | failed (site : Site σ) (raised : Raised) (engine : Engine σ)
  | escaped (raised : Raised)

-- The engines are those of the sequences that came to their steps, as each ended.
structure Sequences (σ : Type) where
  ending : Ending σ
  engines : List (Engine σ)

def startSequence (suite : Suite σ) : Act Raised σ Unit := do
  suite.reset
  suite.preSequence

def runSequences (suite : Suite σ) (flowsCount : Nat) : Nat → Nat → σ → FlowStats → List (Engine σ) → Sequences σ
  | 0, _, _, stats, done => ⟨.passed stats, done⟩
  | left + 1, sequenceNum, self, stats, done =>
    match startSequence suite self with
    | (.error raised, _) => ⟨.escaped raised, done⟩
    | (.ok _, ready) =>
      match runSequence suite flowsCount (.fresh ready sequenceNum stats) with
      | (.ok _, engine) => runSequences suite flowsCount left (sequenceNum + 1) engine.self engine.stats (done ++ [engine])
      | (.error (site, raised), engine) =>
        ⟨if raised.isException then .failed site raised engine else .escaped raised, done ++ [engine]⟩

def zeroStats (suite : Suite σ) : FlowStats := .of (suite.flows.map fun flow => (flow.name, .zero))

def runAll (suite : Suite σ) (sequencesCount flowsCount : Int) (self : σ) : Sequences σ :=
  match suite.create self with
  | (.error raised, _) => ⟨.escaped raised, []⟩
  | (.ok _, ready) =>
    if suite.flows.isEmpty then ⟨.escaped .noFlows, []⟩
    else runSequences suite flowsCount.toNat sequencesCount.toNat 0 ready (zeroStats suite) []

structure Session where
  stats : Registry
  lastFuzzFailure : Option FuzzFailure

def failureOf (suite : Suite σ) (engine : Engine σ) : FuzzFailure where
  fuzzClass := suite.name
  sequence := engine.sequenceNum
  flow := engine.flowNum
  failing := engine.current
  trace := engine.trace

def Ending.recorded : Ending σ → Option FlowStats
  | .passed stats => some stats
  | .failed _ _ engine => some engine.stats
  | .escaped _ => none

def run (suite : Suite σ) (sequencesCount flowsCount : Int) (self : σ) (session : Session) : Session :=
  let ending := (runAll suite sequencesCount flowsCount self).ending
  { stats :=
      match ending.recorded with
      | some stats => recordRunStats session.stats suite.name sequencesCount flowsCount stats
      | none => session.stats
    lastFuzzFailure :=
      match ending with
      | .failed _ _ engine => some (failureOf suite engine)
      | _ => none }

end WakeSol.Fuzz
