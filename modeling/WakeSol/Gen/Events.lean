import WakeSol.Gen.RoundTrip
import WakeSol.Interface.Events

/- Event dispatch of a generated program. -/
set_option autoImplicit false

namespace WakeSol.Gen

open TextLib RadixLib DictLib FallibleLib Codec WireLib Interface

theorem table_event_meta (python : Python) (idl : Idl) (module : Module) (table : Table)
    (emits : emitModule python idl = .ok module) (loads : loadModule python module = .ok table) (cls : Name)
    (hints : Except Raised AnnFields) (borshMeta : BorshMeta)
    (found : table.lookup cls = some (.dataclass hints (some borshMeta))) (isEvent : borshMeta.kind = .event) :
    EventMeta borshMeta := by
  refine ⟨isEvent, ?_⟩
  obtain ⟨⟨name, body⟩, isEmitted, _, loadsClass⟩ := table_class python module table loads cls _ found
  cases body with
  | struct lines given =>
    simp only [loadClass] at loadsClass
    split_ifs at loadsClass
    cases loadsClass
    rcases module_class_source python idl module emits _ isEmitted with ⟨tdef, ran⟩ | ⟨root, ran⟩ | ⟨root, ran⟩
    · cases typedef_meta python tdef none _ name lines ran
    · rw [emitRoot] at ran
      split at ran
      · cases ran
      · cases typedef_meta python _ _ _ name lines ran
        cases isEvent
    · rw [emitRoot] at ran
      split at ran
      · cases ran
      · cases typedef_meta python _ _ _ name lines ran
        rfl
  | intEnum members =>
    simp only [loadClass] at loadsClass
    split_ifs at loadsClass
    all_goals cases loadsClass
  | borshEnum variants =>
    simp only [loadClass] at loadsClass
    split_ifs at loadsClass
    all_goals cases loadsClass

structure EventProgram (python : Python) where
  doc : Doc
  module : Module
  table : Table
  emits : emitModule python (loadIdl python doc) = .ok module
  loads : loadModule python module = .ok table
  methods : List BuilderMethod
  programId : Text
  programName : Text
  overrides : Overrides
  start : Env
  cache : Env
  iface : ProgramInterface
  built : buildInterface table methods programId programName overrides start = .ok (iface, cache)
  prefixFree : PrefixFree ((eventClasses table).map Prod.fst)

def EventProgram.eventTable {python : Python} (p : EventProgram python) : EventTable where
  table := p.table
  distinct := by
    obtain ⟨entries, _, same⟩ := map_ok _ _ _ p.loads
    rw [same]
    exact dict_distinct entries
  events := table_event_meta python _ p.module p.table p.emits p.loads
  lossless := env_lossless python p.doc p.module p.table p.emits p.loads
  prefixFree := p.prefixFree

theorem event_dispatch_iff (python : Python) (p : EventProgram python) (before : Env) (started : Grown p.table [] [] before) :
    (∀ discriminator cls env levels value body, (discriminator, cls) ∈ eventClasses p.table →
      compileRefs p.table cls before = .ok ((), env) → Wire env levels (.ref cls) value body →
      ((p.iface.decodeEvent p.table (discriminator ++ body) before).1 = some value ↔
        discriminator.length = 8 ∧ Admits env maxDecodeDepth 0 (.ref cls) value)) ∧
    (∀ registry payloads, (∀ iface, registry.lookup p.programId = some iface → iface = p.iface) →
      List.Forall₂ (FaithfulEvent p.table p.programId) payloads (decodeEvents registry p.table p.programId payloads before).1) := by
  have isEvents := build_events p.table p.methods p.programId p.programName p.overrides p.start p.cache p.iface p.prefixFree p.built
  constructor
  · intro discriminator cls env levels value body inside compiled wire
    exact decode_event_iff p.eventTable p.iface isEvents before env cls discriminator body levels value inside compiled wire
  · intro registry payloads registered
    refine decode_events_faithful p.eventTable registry p.programId (fun iface found => ?_) payloads before started
    rw [registered iface found]
    exact isEvents

def pingName : Name := ['P', 'i', 'n', 'g']

def pingDoc (discriminator : Bytes) : Doc where
  name := ['p', 'i', 'n', 'g']
  address := []
  types := [{ name := pingName, body := .struct [.named ['n'] (.scalar u8Name)] }]
  events := [{ name := pingName, discriminator := some discriminator }]

def pingMeta (discriminator : Bytes) : BorshMeta := ⟨.event, false, discriminator⟩

def pingHints : AnnFields := ⟨[(['n'], .intAlias 1 false)], by simp⟩

def pingFields : Fields := pingHints.compiled [.int 1 false]

def pingProgram (discriminator : Bytes) : EventProgram plainPython where
  doc := pingDoc discriminator
  module := ⟨[⟨pingName, .struct [(['n'], .name u8Name)] (some (pingMeta discriminator))⟩], [], []⟩
  table := [(pingName, .dataclass (.ok pingHints) (some (pingMeta discriminator)))]
  emits := rfl
  loads := rfl
  methods := []
  programId := ['p']
  programName := ['p']
  overrides := []
  start := []
  cache := []
  iface := ⟨['p'], ['p'], [], [(discriminator, pingName)]⟩
  built := rfl
  prefixFree := List.pairwise_singleton _ _

def pingEnv : Env := [(pingName, .struct pingFields)]

def pingValue (n : Int) : Value := .object (.plain pingName) [['n']] [.int n]

theorem event_dispatched : ((pingProgram [1, 2, 3, 4, 5, 6, 7, 8]).iface.decodeEvent
      (pingProgram [1, 2, 3, 4, 5, 6, 7, 8]).table ([1, 2, 3, 4, 5, 6, 7, 8] ++ [9]) []).1 = some (pingValue 9) := by
  refine ((event_dispatch_iff plainPython (pingProgram [1, 2, 3, 4, 5, 6, 7, 8]) [] (grown_refl _ [] [])).1 _ pingName pingEnv 1
    (pingValue 9) [9] (by simp [eventClasses, pingProgram, pingMeta]) rfl ?_).mpr ⟨rfl, ?_⟩
  · exact ⟨_, rfl, [.int 9], rfl, [(.int 9, [9])], rfl, rfl, .cons ⟨9, rfl, by decide, rfl⟩ .nil⟩
  · exact ⟨_, rfl, trivial, trivial⟩

theorem event_lost : Wire pingEnv 1 (.ref pingName) (pingValue 9) [9] ∧
    ([1, 2, 3, 4], pingName) ∈ eventClasses (pingProgram [1, 2, 3, 4]).table ∧
    (decodeEvents [(['p'], (pingProgram [1, 2, 3, 4]).iface)] (pingProgram [1, 2, 3, 4]).table ['p'] [[1, 2, 3, 4, 9]] []).1 =
      [.unknown ⟨['p'], [1, 2, 3, 4, 9], [1, 2, 3, 4, 9]⟩] := by
  refine ⟨?_, by simp [eventClasses, pingProgram, pingMeta], rfl⟩
  exact ⟨_, rfl, [.int 9], rfl, [(.int 9, [9])], rfl, rfl, .cons ⟨9, rfl, by decide, rfl⟩ .nil⟩

end WakeSol.Gen
