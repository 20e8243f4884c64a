import WakeSol.Gen.Modules

/- The files of a generated package and its import: when every program has a file of
   its own, and when the import registers every program. -/
set_option autoImplicit false

namespace WakeSol.Gen

open TextLib TallyLib FallibleLib Codec Interface

-- A module registers the program whose address stands in it when it is run.
inductive GenFile where
  | program (address source : Text)
  | init (modules : List Text)
  | manifest
deriving DecidableEq

structure Emitter where
  emitModule : Program → Text → Except Text Text
  refusingStub : Program → Text → Text → Text

def initFile : Text := ['_', '_', 'i', 'n', 'i', 't', '_', '_', '.', 'p', 'y']

def manifestFile : Text := ['_', 'm', 'a', 'n', 'i', 'f', 'e', 's', 't', '.', 'j', 's', 'o', 'n']

def pyFile (module : Text) : Text := module ++ ['.', 'p', 'y']

-- What cannot be generated is an error under --strict and a refusing stub otherwise.
def emitSource (emitter : Emitter) (strict : Bool) (program : Program) (module : Text) : Except Text Text :=
  match emitter.emitModule program module with
  | .ok source => .ok source
  | .error reason => if strict then .error reason else .ok (emitter.refusingStub program module reason)

structure Written where
  module : Text
  address : Text
  source : Text

def writeProgram (emitter : Emitter) (strict : Bool) (modules : Dict Text Text) (program : Program) : Except Text Written :=
  let module := (modules.get program.address).getD []
  (emitSource emitter strict program module).map fun source => ⟨module, program.address, source⟩

def programFiles (written : List Written) : Dict Text GenFile :=
  .of (written.map fun file => (pyFile file.module, .program file.address file.source))

def buildFiles (emitter : Emitter) (strict : Bool) (programs : List Program) (modules : Dict Text Text) :
    Except Text (Dict Text GenFile) := do
  let written ← programs.mapM (writeProgram emitter strict modules)
  pure (((programFiles written).set initFile (.init (written.map Written.module))).set manifestFile .manifest)

inductive ImportError where
  | syntaxError
  | missing
  | raised
deriving DecidableEq

-- One line of the package's __init__: the name is looked up in its normal form.
def importModule (strings : Strings) (runs : Text → Bool) (files : Dict Text GenFile) (module : Text) :
    Except ImportError Text :=
  match files.get (pyFile (strings.nfkc module)) with
  | some (.program address source) => if runs source then .ok address else .error .raised
  | _ => .error .missing

def parses (strings : Strings) (module : Text) : Bool := strings.isIdentifier module && decide (module ∉ keywords)

-- The addresses registered; a line that does not parse keeps all of them from being run.
def importPackage (strings : Strings) (runs : Text → Bool) (files : Dict Text GenFile) : Except ImportError (List Text) :=
  match files.get initFile with
  | some (.init modules) =>
    if modules.all (parses strings) then modules.mapM (importModule strings runs files) else .error .syntaxError
  | _ => .error .missing

section package

variable (strings : Strings) (emitter : Emitter) (strict : Bool) (runs : Text → Bool) (programs : List Program)
  (distinct : (programs.map Program.address).Nodup)

def sourceOf (program : Program) : Text :=
  match emitSource emitter strict program (moduleOf strings programs program) with
  | .ok source => source
  | .error _ => []

def writtenOf (program : Program) : Written :=
  ⟨moduleOf strings programs program, program.address, sourceOf strings emitter strict programs program⟩

def OneFileEach (files : Dict Text GenFile) : Prop :=
  ∀ program ∈ programs, ∃ module source, (assignModules strings programs).get program.address = some module ∧
    files.get (pyFile module) = some (.program program.address source)

def RegistersAll (files : Dict Text GenFile) : Prop :=
  ∃ registered, importPackage strings runs files = .ok registered ∧ ∀ program ∈ programs, program.address ∈ registered

def Importable (module : Text) : Prop :=
  strings.isIdentifier module = true ∧ module ∉ keywords ∧ strings.nfkc module = module

theorem parses_iff (module : Text) : parses strings module = true ↔ strings.isIdentifier module = true ∧ module ∉ keywords := by
  simp [parses]

theorem py_file_inj (left right : Text) (same : pyFile left = pyFile right) : left = right := List.append_cancel_right same

theorem py_file_manifest (module : Text) : pyFile module ≠ manifestFile := by
  intro same
  have last := congrArg List.getLast? same
  rw [pyFile, List.getLast?_append] at last
  cases last

theorem module_file_init (program : Program) : pyFile (moduleOf strings programs program) ≠ initFile := by
  intro same
  have bare := py_file_inj _ ['_', '_', 'i', 'n', 'i', 't', '_', '_'] same
  exact module_head strings programs program (by rw [bare]; rfl)

include distinct in
theorem write_program_ok (program : Program) (member : program ∈ programs) (file : Written)
    (ok : writeProgram emitter strict (assignModules strings programs) program = .ok file) :
    file = writtenOf strings emitter strict programs program := by
  rw [writeProgram, assign_get strings programs distinct program member] at ok
  obtain ⟨source, emitted, rfl⟩ := map_ok _ _ _ ok
  rw [Option.getD_some] at emitted
  rw [writtenOf, sourceOf, emitted]
  rfl

include distinct in
theorem build_files_ok (files : Dict Text GenFile)
    (built : buildFiles emitter strict programs (assignModules strings programs) = .ok files) :
    files = ((programFiles (programs.map (writtenOf strings emitter strict programs))).set initFile
      (.init (programs.map (moduleOf strings programs)))).set manifestFile .manifest := by
  obtain ⟨written, ran, done⟩ := bind_ok _ _ _ built
  have each := (List.forall₂_and_left programs written).mpr ⟨fun _ inside => inside, map_m_ok _ _ _ ran⟩
  have whole : written.map id = programs.map (writtenOf strings emitter strict programs) :=
    forall_maps _ _ _ _ (each.imp fun program file held =>
      write_program_ok strings emitter strict programs distinct program held.1 file held.2)
  rw [List.map_id] at whole
  subst whole
  rw [List.map_map] at done
  exact (Except.ok.inj done).symm

section files

variable (files : Dict Text GenFile) (built : buildFiles emitter strict programs (assignModules strings programs) = .ok files)

include distinct built

theorem init_found : files.get initFile = some (.init (programs.map (moduleOf strings programs))) := by
  rw [build_files_ok strings emitter strict programs distinct files built, get_set, if_neg (by decide), get_set, if_pos rfl]

theorem file_program (module address source : Text) (found : files.get (pyFile module) = some (.program address source)) :
    ∃ program ∈ programs, module = moduleOf strings programs program ∧ address = program.address ∧
      source = sourceOf strings emitter strict programs program := by
  rw [build_files_ok strings emitter strict programs distinct files built, get_set, if_neg (py_file_manifest module), get_set]
    at found
  split at found
  · cases found
  · obtain ⟨file, inside, same⟩ := List.mem_map.mp (mem_of_get _ _ _ found)
    obtain ⟨program, member, rfl⟩ := List.mem_map.mp inside
    obtain ⟨name, content⟩ := Prod.mk.inj same
    cases content
    exact ⟨program, member, (py_file_inj _ _ name).symm, rfl, rfl⟩

theorem distinct_found (clear : NoClash strings programs) (program : Program) (member : program ∈ programs) :
    files.get (pyFile (moduleOf strings programs program)) =
      some (.program program.address (sourceOf strings emitter strict programs program)) := by
  rw [build_files_ok strings emitter strict programs distinct files built, get_set, if_neg (py_file_manifest _), get_set,
    if_neg (module_file_init strings programs program)]
  refine get_of_agree _ _ _ ?_ fun pair inside same => ?_
  · rw [List.map_map, List.map_map]
    exact List.mem_map_of_mem member
  · obtain ⟨file, isFile, rfl⟩ := List.mem_map.mp inside
    obtain ⟨other, isProgram, rfl⟩ := List.mem_map.mp isFile
    have equal := (no_clash_iff strings programs).mp clear other isProgram program member (py_file_inj _ _ same)
    rw [equal]
    rfl

theorem one_file_each_iff : OneFileEach strings programs files ↔ NoClash strings programs := by
  constructor
  · intro each
    rw [no_clash_iff]
    intro left first right second same
    obtain ⟨leftModule, leftSource, leftName, leftFile⟩ := each left first
    obtain ⟨rightModule, rightSource, rightName, rightFile⟩ := each right second
    rw [assign_get strings programs distinct left first, Option.some.injEq] at leftName
    rw [assign_get strings programs distinct right second, Option.some.injEq] at rightName
    rw [← leftName, same, rightName, rightFile, Option.some.injEq, GenFile.program.injEq] at leftFile
    exact same_address programs distinct left right first second leftFile.1.symm
  · intro clear program member
    exact ⟨_, _, assign_get strings programs distinct program member,
      distinct_found strings emitter strict programs distinct files built clear program member⟩

theorem import_module_ok (module address : Text) (ok : importModule strings runs files module = .ok address) :
    ∃ program ∈ programs, address = program.address ∧ strings.nfkc module = moduleOf strings programs program ∧
      files.get (pyFile (moduleOf strings programs program)) =
        some (.program program.address (sourceOf strings emitter strict programs program)) ∧
      runs (sourceOf strings emitter strict programs program) = true := by
  rw [importModule] at ok
  split at ok
  · rename_i found registered source isFile
    split at ok
    · rename_i fine
      obtain rfl := Except.ok.inj ok
      obtain ⟨program, member, name, rfl, rfl⟩ := file_program strings emitter strict programs distinct files built _ _ _ isFile
      exact ⟨program, member, rfl, name, name ▸ isFile, fine⟩
    · cases ok
  · cases ok

theorem registers_all_iff :
    RegistersAll strings runs programs files ↔ NoClash strings programs ∧
      ∀ program ∈ programs, Importable strings (moduleOf strings programs program) ∧
        runs (sourceOf strings emitter strict programs program) = true := by
  have start := init_found strings emitter strict programs distinct files built
  rw [RegistersAll, importPackage, start]
  constructor
  · rintro ⟨registered, ok, all⟩
    dsimp only at ok
    split at ok
    · rename_i parsed
      rw [List.all_eq_true] at parsed
      have each := map_m_ok _ _ _ ok
      -- Every address was registered by some line, hence by the file of its program.
      have own : ∀ program ∈ programs, ∃ module ∈ programs.map (moduleOf strings programs),
          strings.nfkc module = moduleOf strings programs program ∧
          files.get (pyFile (moduleOf strings programs program)) =
            some (.program program.address (sourceOf strings emitter strict programs program)) ∧
          runs (sourceOf strings emitter strict programs program) = true := by
        intro program member
        obtain ⟨module, isLine, imported⟩ := forall_left _ _ _ each program.address (all program member)
        obtain ⟨other, isProgram, same, name, isFile, fine⟩ :=
          import_module_ok strings emitter strict runs programs distinct files built module program.address imported
        obtain rfl := same_address programs distinct program other member isProgram same
        exact ⟨module, isLine, name, isFile, fine⟩
      refine ⟨(one_file_each_iff strings emitter strict programs distinct files built).mp fun program member => ?_,
        fun program member => ?_⟩
      · obtain ⟨_, _, _, isFile, _⟩ := own program member
        exact ⟨_, _, assign_get strings programs distinct program member, isFile⟩
      · obtain ⟨module, _, name, _, fine⟩ := own program member
        have written := (parses_iff strings _).mp (parsed _ (List.mem_map_of_mem member))
        refine ⟨⟨written.1, written.2, ?_⟩, fine⟩
        rw [← name, strings.nfkcTwice]
    · cases ok
  · rintro ⟨clear, each⟩
    refine ⟨programs.map Program.address, ?_, fun program member => List.mem_map_of_mem member⟩
    have parsed : (programs.map (moduleOf strings programs)).all (parses strings) = true := by
      rw [List.all_eq_true]
      intro module isLine
      obtain ⟨program, member, rfl⟩ := List.mem_map.mp isLine
      exact (parses_iff strings _).mpr ⟨(each program member).1.1, (each program member).1.2.1⟩
    dsimp only
    rw [if_pos parsed]
    refine map_m_of _ _ _ ?_
    rw [List.forall₂_map_left_iff, List.forall₂_map_right_iff, List.forall₂_same]
    intro program member
    rw [importModule, (each program member).1.2.2,
      distinct_found strings emitter strict programs distinct files built clear program member]
    exact if_pos (each program member).2

end files

end package

theorem package_modules_iff (strings : Strings) (programs : List Program) (distinct : (programs.map Program.address).Nodup) :
    (((assignModules strings programs).entries.map Prod.snd).Nodup ↔ NoClash strings programs) ∧
      ∀ (emitter : Emitter) (strict : Bool) (files : Dict Text GenFile),
        buildFiles emitter strict programs (assignModules strings programs) = .ok files →
        (OneFileEach strings programs files ↔ NoClash strings programs) ∧
          ∀ runs : Text → Bool, RegistersAll strings runs programs files ↔ NoClash strings programs ∧
            ∀ program ∈ programs, Importable strings (moduleOf strings programs program) ∧
              runs (sourceOf strings emitter strict programs program) = true := by
  refine ⟨assigned_distinct_iff strings programs distinct, fun emitter strict files built => ?_⟩
  refine ⟨one_file_each_iff strings emitter strict programs distinct files built, fun runs => ?_⟩
  exact registers_all_iff strings emitter strict runs programs distinct files built

theorem lower_underscore (ch : Char) (lowered : ch.toLower = '_') : ch = '_' := by
  delta Char.toLower at lowered
  split at lowered
  · rename_i upper
    have least : 65 ≤ ch.val.toNat := UInt32.le_iff_toNat_le.mp upper.1
    have most : ch.val.toNat ≤ 90 := UInt32.le_iff_toNat_le.mp upper.2
    have value : (ch.val + ('a'.val - 'A'.val)).toNat = 95 := congrArg (fun ch : Char => ch.val.toNat) lowered
    have shift : ('a'.val - 'A'.val).toNat = 32 := rfl
    rw [UInt32.toNat_add, shift] at value
    omega
  · exact lowered

theorem lower_head (text : Text) (lowered : (text.map Char.toLower).head? = some '_') : text.head? = some '_' := by
  cases text with
  | nil => cases lowered
  | cons ch rest =>
    rw [List.map_cons, List.head?_cons, Option.some.injEq] at lowered
    rw [List.head?_cons, lower_underscore ch lowered]

def ascii : Strings where
  isAlnum := Char.isAlphanum
  isDigit := Char.isDigit
  lower := List.map Char.toLower
  isIdentifier text := text.all (fun ch => ch.isAlphanum || ch == '_') && (text.head?.map fun ch => !ch.isDigit).getD false
  nfkc text := text
  lowerHead := lower_head
  nfkcTwice _ := rfl

def plainEmitter : Emitter where
  emitModule program _ := .ok program.name
  refusingStub program _ _ := program.name

def poolName : Text := ['P', 'o', 'o', 'l']

def firstPool : Program := ⟨['w', 'h', 'i', 'r', 'L', 'b', 'A'], poolName⟩

def secondPool : Program := ⟨['w', 'h', 'i', 'r', 'L', 'b', 'B'], poolName⟩

def importProgram : Program := ⟨['B', 'P', 'F'], ['i', 'm', 'p', 'o', 'r', 't']⟩

def importOf (programs : List Program) : Except ImportError (List Text) :=
  match buildFiles plainEmitter true programs (assignModules ascii programs) with
  | .ok files => importPackage ascii (fun _ => true) files
  | .error _ => .error .missing

theorem package_modules_pools :
    ([firstPool, importProgram].map Program.address).Nodup ∧
      (((assignModules ascii [firstPool, importProgram]).entries.map Prod.snd).Nodup ↔
        NoClash ascii [firstPool, importProgram]) :=
  ⟨by decide, (package_modules_iff ascii [firstPool, importProgram] (by decide)).1⟩

theorem package_loses_programs :
    ([firstPool, secondPool].map Program.address).Nodup ∧
      ¬((assignModules ascii [firstPool, secondPool]).entries.map Prod.snd).Nodup ∧
      importOf [firstPool, secondPool] = .ok [secondPool.address, secondPool.address] ∧
      importOf [importProgram] = .error .syntaxError := by
  refine ⟨by decide, by decide, ?_, ?_⟩
  · rfl
  · rfl

end WakeSol.Gen
