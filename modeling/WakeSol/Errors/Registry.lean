import WakeSol.Lib.Dict
import WakeSol.Lib.Radix

/- Resolving the code of a failed transaction to an error class. Generated modules
   register their classes under the program they belong to. -/
set_option autoImplicit false

namespace WakeSol.Errors

open TextLib DictLib

-- A class object with its class attribute. The identity tells apart classes that
-- look the same.
structure ErrorClass where
  identity : Nat
  code : Option Int
deriving DecidableEq

inductive ErrorType where
  | transactionFailed
  | solanaError
  | unknownError
  | leaf (cls : ErrorClass)
deriving DecidableEq

def ErrorType.code : ErrorType → Option Int
  | .leaf cls => cls.code
  | _ => none

structure ErrorInstance where
  type : ErrorType
  code : Option Int
  instructionIndex : Option Nat
  accountIndex : Option Nat
deriving DecidableEq

structure Catalog where
  solana : List (Text × ErrorClass)
  anchor : List (Int × ErrorClass)
  system : List (Int × ErrorClass)
  token : List (Int × ErrorClass)

def systemProgramId : Text := List.replicate 32 '1'

def tokenProgramId : Text :=
  ['T', 'o', 'k', 'e', 'n', 'k', 'e', 'g', 'Q', 'f', 'e', 'Z', 'y', 'i', 'N', 'w', 'A', 'J', 'b', 'N', 'b', 'G', 'K', 'P', 'F', 'X',
   'C', 'W', 'u', 'B', 'v', 'f', '9', 'S', 's', '6', '2', '3', 'V', 'Q', '5', 'D', 'A']

def token2022ProgramId : Text :=
  ['T', 'o', 'k', 'e', 'n', 'z', 'Q', 'd', 'B', 'N', 'b', 'L', 'q', 'P', '5', 'V', 'E', 'h', 'd', 'k', 'A', 'S', '6', 'E', 'P', 'F',
   'L', 'C', '1', 'P', 'H', 'n', 'B', 'q', 'C', 'X', 'E', 'p', 'P', 'x', 'u', 'E', 'b']

-- Token-2022 shares the base variants with SPL Token.
def builtinByProgram (catalog : Catalog) : List (Text × List (Int × ErrorClass)) :=
  [(systemProgramId, catalog.system), (tokenProgramId, catalog.token), (token2022ProgramId, catalog.token)]

def anchorUserErrorOffset : Int := 6000

abbrev ProgramByCode := List ((Option Text × Int) × ErrorClass)

structure Registration where
  program : Option Text
  subclasses : List ErrorClass

def registerErrors (registry : ProgramByCode) (registration : Registration) : ProgramByCode :=
  registration.subclasses.foldl (fun registry sub =>
    match sub.code with
    | some code => dictSet registry (registration.program, code) sub
    | none => registry) registry

def instantiate (type : ErrorType) (code : Option Int) (instructionIndex accountIndex : Option Nat) : ErrorInstance :=
  ⟨type, code.or type.code, instructionIndex, accountIndex⟩

def resolveCode (catalog : Catalog) (registry : ProgramByCode) (code : Int) (programId : Option Text) : ErrorType :=
  match programId.bind fun program => (builtinByProgram catalog).lookup program with
  | some builtin =>
    match builtin.lookup code with
    | some cls => .leaf cls
    | none => .unknownError
  | none =>
    let own := registry.lookup (programId, code)
    let registered := own.or (registry.lookup (none, code))
    let known := if registered.isNone ∧ code < anchorUserErrorOffset then catalog.anchor.lookup code else registered
    match known with
    | some cls => .leaf cls
    | none => .unknownError

def build (catalog : Catalog) (registry : ProgramByCode) (code : Option Int) (native : Option Text)
    (instructionIndex accountIndex : Option Nat) (programId : Option Text) : ErrorInstance :=
  match native, code with
  | some name, _ =>
    instantiate (((catalog.solana.lookup name).map ErrorType.leaf).getD .solanaError) none instructionIndex accountIndex
  | none, some code => instantiate (resolveCode catalog registry code programId) (some code) instructionIndex accountIndex
  | none, none => instantiate .transactionFailed none instructionIndex accountIndex

def registered (history : List Registration) : ProgramByCode := history.foldl registerErrors []

def latest (history : List Registration) (program : Option Text) (code : Int) : Option ErrorClass :=
  (((history.filter fun registration => registration.program = program).flatMap Registration.subclasses).filter
    fun sub => sub.code = some code).getLast?

theorem latest_append (front back : List Registration) (program : Option Text) (code : Int) :
    latest (front ++ back) program code = (latest back program code).or (latest front program code) := by
  rw [latest, List.filter_append, List.flatMap_append, List.filter_append, List.getLast?_append]
  rfl

theorem latest_own (program : Option Text) (subclasses : List ErrorClass) (code : Int) :
    latest [⟨program, subclasses⟩] program code = (subclasses.filter fun sub => sub.code = some code).getLast? := by
  simp [latest]

theorem latest_foreign (registration : Registration) (program : Option Text) (code : Int)
    (foreign : registration.program ≠ program) : latest [registration] program code = none := by
  simp [latest, foreign]

theorem register_lookup (registry : ProgramByCode) (registration : Registration) (program : Option Text) (code : Int) :
    (registerErrors registry registration).lookup (program, code) =
      (latest [registration] program code).or (registry.lookup (program, code)) := by
  obtain ⟨key, subclasses⟩ := registration
  rw [registerErrors]
  by_cases same : key = program
  · subst same
    rw [latest_own]
    simp only
    induction subclasses generalizing registry with
    | nil => rfl
    | cons sub rest ih =>
      rw [List.foldl_cons, ih]
      by_cases matching : sub.code = some code
      · rw [List.filter_cons_of_pos (by simpa using matching), matching, dict_set_lookup, if_pos rfl, List.getLast?_cons]
        cases (rest.filter fun sub => decide (sub.code = some code)).getLast? <;> rfl
      · rw [List.filter_cons_of_neg (by simpa using matching)]
        cases found : sub.code with
        | none => rfl
        | some other =>
          have different : (key, code) ≠ (key, other) := by
            intro same
            exact matching (by rw [found, (Prod.mk.inj same).2])
          simp only [dict_set_lookup, if_neg different]
  · rw [latest_foreign ⟨key, subclasses⟩ program code same, Option.none_or]
    simp only
    induction subclasses generalizing registry with
    | nil => rfl
    | cons sub rest ih =>
      rw [List.foldl_cons, ih]
      cases sub.code with
      | none => rfl
      | some other =>
        have different : (program, code) ≠ (key, other) := fun equal => same (Prod.mk.inj equal).1.symm
        simp only [dict_set_lookup, if_neg different]

theorem registered_from (history : List Registration) (registry : ProgramByCode) (program : Option Text) (code : Int) :
    (history.foldl registerErrors registry).lookup (program, code) =
      (latest history program code).or (registry.lookup (program, code)) := by
  induction history generalizing registry with
  | nil => rfl
  | cons registration rest ih =>
    rw [List.foldl_cons, ih, register_lookup, ← Option.or_assoc, ← latest_append, List.singleton_append]

theorem registered_latest (history : List Registration) (program : Option Text) (code : Int) :
    (registered history).lookup (program, code) = latest history program code := by
  rw [registered, registered_from]
  simp

theorem latest_registered (history : List Registration) (program : Option Text) (code : Int) (cls : ErrorClass)
    (found : latest history program code = some cls) :
    ∃ registration ∈ history, registration.program = program ∧ cls ∈ registration.subclasses := by
  have inside := List.mem_of_mem_filter (List.mem_of_getLast? found)
  obtain ⟨registration, isRegistration, isSub⟩ := List.mem_flatMap.mp inside
  obtain ⟨member, same⟩ := List.mem_filter.mp isRegistration
  exact ⟨registration, member, by simpa using same, isSub⟩

theorem latest_swap (front back : List Registration) (first second : Registration) (apart : first.program ≠ second.program)
    (program : Option Text) (code : Int) :
    latest (front ++ first :: second :: back) program code = latest (front ++ second :: first :: back) program code := by
  have pair : ∀ one other : Registration, latest (one :: other :: back) program code =
      (latest back program code).or ((latest [other] program code).or (latest [one] program code)) := by
    intro one other
    rw [← Option.or_assoc, ← latest_append, ← latest_append]
    rfl
  rw [latest_append, latest_append, pair, pair]
  -- At most one of the two is about the program.
  by_cases isFirst : first.program = program
  · have notSecond : second.program ≠ program := fun isSecond => apart (isFirst.trans isSecond.symm)
    rw [latest_foreign second program code notSecond, Option.none_or, Option.or_none]
  · rw [latest_foreign first program code isFirst, Option.none_or, Option.or_none]

def expectedType (catalog : Catalog) (history : List Registration) (code : Int) (program : Text) : ErrorType :=
  match (builtinByProgram catalog).lookup program with
  | some builtin => ((builtin.lookup code).map ErrorType.leaf).getD .unknownError
  | none =>
    match latest history (some program) code, latest history none code with
    | some cls, _ => .leaf cls
    | none, some cls => .leaf cls
    | none, none =>
      if code < anchorUserErrorOffset then ((catalog.anchor.lookup code).map ErrorType.leaf).getD .unknownError
      else .unknownError

theorem resolve_expected (catalog : Catalog) (history : List Registration) (code : Int) (program : Text) :
    resolveCode catalog (registered history) code (some program) = expectedType catalog history code program := by
  rw [resolveCode, expectedType, Option.bind_some]
  cases (builtinByProgram catalog).lookup program with
  | some builtin => cases found : builtin.lookup code <;> simp [found]
  | none =>
    simp only [registered_latest]
    cases latest history (some program) code with
    | some cls => simp
    | none =>
      cases latest history none code with
      | some cls => simp
      | none =>
        by_cases framework : code < anchorUserErrorOffset
        · cases catalog.anchor.lookup code <;> simp [framework]
        · simp [framework]

theorem expected_own (catalog : Catalog) (history : List Registration) (code : Int) (program : Text) (cls : ErrorClass)
    (isType : expectedType catalog history code program = .leaf cls) :
    (∃ registration ∈ history, (registration.program = some program ∨ registration.program = none) ∧ cls ∈ registration.subclasses) ∨
    (∃ builtin, (builtinByProgram catalog).lookup program = some builtin ∧ builtin.lookup code = some cls) ∨
    catalog.anchor.lookup code = some cls := by
  unfold expectedType at isType
  cases isBuiltin : (builtinByProgram catalog).lookup program with
  | some builtin =>
    cases found : builtin.lookup code with
    | none => simp [isBuiltin, found] at isType
    | some other =>
      simp only [isBuiltin, found, Option.map_some, Option.getD_some, ErrorType.leaf.injEq] at isType
      exact .inr (.inl ⟨builtin, rfl, by rw [found, isType]⟩)
  | none =>
    rw [isBuiltin] at isType
    simp only at isType
    split at isType
    · rename_i own
      cases isType
      obtain ⟨registration, inside, same, isSub⟩ := latest_registered history _ code cls own
      exact .inl ⟨registration, inside, .inl same, isSub⟩
    · rename_i anyProgram
      cases isType
      obtain ⟨registration, inside, same, isSub⟩ := latest_registered history _ code cls anyProgram
      exact .inl ⟨registration, inside, .inr same, isSub⟩
    · split at isType
      · cases found : catalog.anchor.lookup code with
        | none => simp [found] at isType
        | some other =>
          simp only [found, Option.map_some, Option.getD_some, ErrorType.leaf.injEq] at isType
          exact .inr (.inr (by rw [isType]))
      · cases isType

theorem build_code (catalog : Catalog) (history : List Registration) (code : Int) (program : Text)
    (instructionIndex accountIndex : Option Nat) :
    build catalog (registered history) (some code) none instructionIndex accountIndex (some program) =
      ⟨expectedType catalog history code program, some code, instructionIndex, accountIndex⟩ := by
  rw [build, resolve_expected]
  rfl

end WakeSol.Errors
