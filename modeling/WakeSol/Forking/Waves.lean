import WakeSol.Forking.Complete
import WakeSol.Forking.Phases
import WakeSol.Forking.Replay

/- Everything a message needs is resident after its hydration. The first wave makes
   the lookup tables resident, the second one what they resolve to; over a session
   what the fork remembers stays resident. -/
set_option autoImplicit false

namespace WakeSol.Forking

open TextLib RadixLib CacheLib Trace

section Waves

variable (engine : Engine) (ledger : Ledger)

inductive Needs (accounts : Accounts) (message : Message) : Address → Prop where
  | static (address : Address) (inside : address ∈ message.staticAccountKeys) : Needs accounts message address
  | table (lookup : TableLookup) (inside : lookup ∈ message.addressTableLookups) : Needs accounts message lookup.accountKey
  | loaded (lookup : TableLookup) (inside : lookup ∈ message.addressTableLookups) (table : Account)
      (resident : accounts lookup.accountKey = some table) (addresses : List Address)
      (reads : engine.readTableAddresses table.data = .ok addresses) (index : UInt8)
      (named : index ∈ lookup.writableIndexes ++ lookup.readonlyIndexes) (address : Address)
      (inRange : addresses[index.toNat]? = some address) : Needs accounts message address

theorem loaded_complete (accounts : Accounts) (lookups : List TableLookup) (all : List Address)
    (loaded : loadedAddresses engine accounts lookups = .ok all) (lookup : TableLookup) (inside : lookup ∈ lookups)
    (table : Account) (resident : accounts lookup.accountKey = some table) (addresses : List Address)
    (reads : engine.readTableAddresses table.data = .ok addresses) (index : UInt8)
    (named : index ∈ lookup.writableIndexes ++ lookup.readonlyIndexes) (address : Address)
    (inRange : addresses[index.toNat]? = some address) : address ∈ all := by
  induction lookups generalizing all with
  | nil => cases inside
  | cons head rest ih =>
    rw [loadedAddresses] at loaded
    cases found : accounts head.accountKey with
    | none =>
      simp only [found] at loaded
      rcases List.mem_cons.mp inside with rfl | later
      · rw [resident] at found
        cases found
      · exact ih all loaded later
    | some account =>
      simp only [found] at loaded
      cases read : engine.readTableAddresses account.data with
      | error text => simp [read] at loaded
      | ok here =>
        simp only [read] at loaded
        cases tail : loadedAddresses engine accounts rest with
        | error text => simp [tail, Except.map] at loaded
        | ok more =>
          simp only [tail, Except.map, Except.ok.injEq] at loaded
          rw [← loaded, List.mem_append]
          rcases List.mem_cons.mp inside with rfl | later
          · rw [resident] at found
            cases found
            rw [reads] at read
            cases read
            exact .inl (List.mem_filterMap.mpr ⟨index, named, inRange⟩)
          · exact .inr (ih more tail later)

theorem known_unchanged (svm : Svm) (keys : List Address) (address : Address)
    (known : svm.accounts address ≠ none ∨ ∀ fork ∈ svm.fork, address ∈ fork.seen) :
    (ensurePresent engine svm keys).svm.accounts address = svm.accounts address := by
  rcases known with resident | seen
  · exact (ensure_keeps engine svm keys address resident).2
  · cases enabled : svm.fork with
    | none => rw [ensure_disabled engine svm keys enabled]
    | some fork => exact ensure_seen engine svm fork enabled keys address (seen fork enabled)

structure HydratesAll (message : Message) (outcome : Outcome) : Prop where
  complete : Complete ledger outcome.svm
  needed : ∀ address, Needs engine outcome.svm.accounts message address → Covered ledger outcome.svm address
  programdata : ∀ program ∈ outcome.injected, ∀ pd, Upgradeable program.2 pd → Covered ledger outcome.svm pd

theorem hydrate_complete (svm : Svm) (message : Message) (complete : Complete ledger svm)
    (ok : (hydrateForMessage engine svm message).error = none) :
    HydratesAll engine ledger message (hydrateForMessage engine svm message) := by
  cases enabled : svm.fork with
  | none =>
    have covered := covered_off ledger svm enabled
    rw [hydrateForMessage, enabled]
    exact ⟨complete, fun address _ => covered address, fun _ _ pd _ => covered pd⟩
  | some fork =>
    rw [hydrate_waves engine svm fork enabled] at ok ⊢
    obtain ⟨okFirst, okSecond⟩ := then_ok _ _ ok
    have first := ensure_ensures engine ledger svm (messageKeys message) complete okFirst
    rw [Outcome.andThen, okFirst]
    dsimp only
    generalize ensurePresent engine svm (messageKeys message) = middle at okSecond first ⊢
    rw [secondWave] at okSecond ⊢
    cases loaded : loadedAddresses engine middle.svm.accounts message.addressTableLookups with
    | error text =>
      simp only [loaded] at okSecond
      cases okSecond
    | ok addresses =>
      simp only [loaded] at okSecond ⊢
      have second := ensure_ensures engine ledger middle.svm addresses first.complete okSecond
      have later := covered_kept ledger middle.svm _ (ensure_guarded engine middle.svm addresses)
        (keeps_resident middle.svm _ (ensure_keeps engine middle.svm addresses))
      refine ⟨second.complete, ?_, ?_⟩
      · intro address needs
        cases needs with
        | static address inside => exact later address (first.asked address (List.mem_append_left _ inside))
        | table lookup inside =>
          refine later _ (first.asked _ (List.mem_append_right _ ?_))
          exact List.mem_map_of_mem inside
        | loaded lookup inside table resident all reads index named address inRange =>
          have isKey : lookup.accountKey ∈ messageKeys message := List.mem_append_right _ (List.mem_map_of_mem inside)
          -- The table was there when the second wave was put together.
          rw [known_unchanged engine middle.svm addresses _ (first.known _ isKey)] at resident
          exact second.asked address (loaded_complete engine _ _ addresses loaded lookup inside table resident all reads
            index named address inRange)
      · intro program written pd upgradeable
        rcases List.mem_append.mp written with early | late
        · exact later pd (first.programdata program early pd upgradeable)
        · exact second.programdata program late pd upgradeable

theorem hydration_complete (svm : Svm) (hydration : Hydration) (complete : Complete ledger svm)
    (ok : (hydrate engine svm hydration).error = none) : Complete ledger (hydrate engine svm hydration).svm := by
  cases hydration with
  | nothing => exact complete
  | keys keys => exact (ensure_ensures engine ledger svm keys complete ok).complete
  | message message => exact (hydrate_complete engine ledger svm message complete ok).complete

structure Orderly (svm : Svm) (op : Op) : Prop where
  running : op ≠ .reset
  hydrated : (hydrate engine svm (hydrationOf op)).error = none
  deletesNothing : ∀ address, (hydrate engine svm (hydrationOf op)).svm.accounts address ≠ none →
    (step engine svm op).svm.accounts address ≠ none

def OrderlyRun : Svm → List Op → Prop
  | _, [] => True
  | svm, op :: rest => Orderly engine svm op ∧ OrderlyRun (step engine svm op).svm rest

theorem step_complete (svm : Svm) (op : Op) (orderly : Orderly engine svm op) (complete : Complete ledger svm) :
    Complete ledger (step engine svm op).svm := by
  have middle := hydration_complete engine ledger svm (hydrationOf op) complete orderly.hydrated
  have sameFork := phases_fork engine svm op orderly.running
  constructor
  · rw [sameFork]
    exact middle.honest
  · rw [sameFork]
    intro fork isFork address seen last isLast due
    rw [sameFork] at isLast
    exact orderly.deletesNothing address (middle.resolved fork isFork address seen last isLast due)

theorem run_complete (svm : Svm) (ops : List Op) (orderly : OrderlyRun engine svm ops) (complete : Complete ledger svm) :
    Complete ledger (run engine svm ops) := by
  induction ops generalizing svm with
  | nil => exact complete
  | cons op rest ih => exact ih _ orderly.2 (step_complete engine ledger svm op orderly.1 complete)

theorem run_continues (svm : Svm) (fork : Fork) (enabled : svm.fork = some fork) (ops : List Op)
    (orderly : OrderlyRun engine svm ops) : ∃ after, (run engine svm ops).fork = some after ∧ fork.Continues after := by
  induction ops generalizing svm fork with
  | nil => exact ⟨fork, enabled, continues_refl fork⟩
  | cons op rest ih =>
    have guarded := step_guarded engine svm op orderly.1.running
    simp only [Guarded, enabled] at guarded
    obtain ⟨middle, isMiddle, continues, _⟩ := guarded
    obtain ⟨after, isAfter, further⟩ := ih _ middle isMiddle orderly.2
    exact ⟨after, isAfter, continues_trans _ _ _ continues further⟩

end Waves

-- A session starts where the fork remembers nothing: it was just enabled, or the
-- state was just reset.
theorem message_hydrated (engine : Engine) (ledger : Ledger) (svm : Svm) (fork : Fork) (enabled : svm.fork = some fork)
    (fresh : fork.seen = []) (honest : fork.Honest (holds ledger.accounts)) (ops : List Op)
    (orderly : OrderlyRun engine svm ops) (message : Message)
    (ok : (hydrateForMessage engine (run engine svm ops) message).error = none) :
    let before := run engine svm ops
    let outcome := hydrateForMessage engine before message
    (∀ address, Needs engine outcome.svm.accounts message address → fork.Due ledger address →
      outcome.svm.accounts address ≠ none) ∧
    (∀ program ∈ outcome.injected, ∀ pd, Upgradeable program.2 pd → fork.Due ledger pd → outcome.svm.accounts pd ≠ none) ∧
    ∀ address, before.accounts address ≠ none → outcome.svm.accounts address = before.accounts address := by
  have start : Complete ledger svm := by
    constructor
    · intro other isOther
      rw [enabled] at isOther
      cases isOther
      exact honest
    · intro other isOther address seen
      rw [enabled] at isOther
      cases isOther
      rw [fresh] at seen
      cases seen
  have all := hydrate_complete engine ledger _ message (run_complete engine ledger svm ops orderly start) ok
  obtain ⟨middle, isMiddle, continues⟩ := run_continues engine svm fork enabled ops orderly
  have guarded := hydrate_guarded engine (run engine svm ops) (.message message)
  simp only [Guarded, isMiddle, hydrate] at guarded
  obtain ⟨last, isLast, further, _⟩ := guarded
  have due : ∀ address, fork.Due ledger address → last.Due ledger address := fun address isDue =>
    (due_continues fork last ledger (continues_trans _ _ _ continues further) address).mpr isDue
  refine ⟨fun address needs isDue => ?_, fun program written pd upgradeable isDue => ?_, fun address resident => ?_⟩
  · exact all.needed address needs last isLast (due address isDue)
  · exact all.programdata program written pd upgradeable last isLast (due pd isDue)
  · exact (hydrate_keeps engine _ message address resident).2

def sampleProgram : Account := ⟨1, [2, 0, 0, 0] ++ List.replicate 32 4, loaderV3, true, 0⟩

def sampleAccounts (address : Address) : Option Account :=
  if address = .fill 1 then some sampleProgram
  else if address = .fill 2 ∨ address = .fill 3 ∨ address = .fill 4 then some (wallet 9) else none

theorem sample_cases (address : Address) (account : Account) (found : sampleAccounts address = some account) :
    account = sampleProgram ∨ account = wallet 9 := by
  rw [sampleAccounts] at found
  split at found
  · exact .inl (Option.some.inj found).symm
  · split at found
    · exact .inr (Option.some.inj found).symm
    · cases found

theorem sample_living (address : Address) (account : Account) (found : sampleAccounts address = some account) :
    account.lamports ≠ 0 := by
  rcases sample_cases address account found with rfl | rfl <;> decide

theorem sample_programdata (address : Address) (program : Account) (pd : Address) (account : Account)
    (found : sampleAccounts address = some program) (upgradeable : Upgradeable program pd)
    (data : sampleAccounts pd = some account) : account.executable = false := by
  rcases sample_cases address program found with rfl | rfl
  · have isData : programdataAddress sampleProgram.data = some (.fill 4) := by decide
    rw [upgradeable.address] at isData
    obtain rfl := Option.some.inj isData
    obtain rfl := Option.some.inj data
    rfl
  · cases upgradeable.executable

def sampleLedger : Ledger := ⟨sampleAccounts, sample_living, sample_programdata⟩

def sampleEngine : Engine := { plainEngine with readTableAddresses := fun _ => .ok [.fill 3] }

def sampleFork : Fork := freshFork (some (nodeOf sampleAccounts)) emptyDirectory

def sampleMessage : Message := ⟨[.fill 1], [], [⟨.fill 2, [0], [7]⟩], fun _ => false, fun _ => false⟩

theorem sample_hydrated :
    let outcome := hydrateForMessage sampleEngine (run sampleEngine (forkedSvm sampleFork) [.touch [.fill 5]]) sampleMessage
    outcome.svm.accounts (.fill 1) ≠ none ∧ outcome.svm.accounts (.fill 3) ≠ none ∧
      outcome.svm.accounts (.fill 4) ≠ none := by
  have orderly : OrderlyRun sampleEngine (forkedSvm sampleFork) [.touch [.fill 5]] :=
    ⟨⟨nofun, by decide +kernel, fun _ resident => resident⟩, trivial⟩
  have all := message_hydrated sampleEngine sampleLedger (forkedSvm sampleFork) sampleFork rfl rfl (node_honest _ _ rfl rfl)
    [.touch [.fill 5]] orderly sampleMessage (by decide +kernel)
  have due : ∀ address account, sampleAccounts address = some account → account.owner ∉ sampleFork.excludePrograms →
      sampleFork.Due sampleLedger address := by
    intro address account found allowed
    refine ⟨account, found.symm, ?_, allowed⟩
    rintro (out | out) <;> cases out
  refine ⟨?_, ?_, ?_⟩
  · exact all.1 (.fill 1) (.static _ (by decide)) (due (.fill 1) sampleProgram (by decide) (by decide))
  · refine all.1 (.fill 3) ?_ (due (.fill 3) (wallet 9) (by decide) (by decide))
    exact .loaded ⟨.fill 2, [0], [7]⟩ (by decide) (wallet 9) (by decide +kernel) [.fill 3] rfl 0 (by decide) _ rfl
  · refine all.2.1 (.fill 1, sampleProgram) (by decide +kernel) (.fill 4) ⟨rfl, rfl, by decide⟩ ?_
    exact due (.fill 4) (wallet 9) (by decide) (by decide)

end WakeSol.Forking
