import WakeSol.Errors.Registry
import WakeSol.Trace.Failing

/- The exception a failed transaction raises: the runtime's error is taken apart,
   the program of a custom code is found in the call tree, and the class is
   resolved from both. -/
set_option autoImplicit false

namespace WakeSol.Errors

open TextLib RadixLib RoseLib Trace

-- The variants without data are told apart by their names.
inductive InstructionError where
  | custom (code : Nat)
  | unit (name : Text)
deriving DecidableEq

inductive TransactionError where
  | instructionError (index : Nat) (error : InstructionError)
  | duplicateInstruction (index : Nat)
  | insufficientFundsForRent (accountIndex : Nat)
  | programExecutionTemporarilyRestricted (accountIndex : Nat)
  | unit (name : Text)
deriving DecidableEq

structure StructuredErr where
  code : Option Nat
  native : Option Text
  instructionIndex : Option Nat
  accountIndex : Option Nat
  programId : Option Text
deriving DecidableEq

def duplicateInstructionName : Text := "DuplicateInstruction".toList
def insufficientFundsForRentName : Text := "InsufficientFundsForRent".toList
def programExecutionTemporarilyRestrictedName : Text := "ProgramExecutionTemporarilyRestricted".toList

def extractError (err : TransactionError) (tree : List Traced) : StructuredErr :=
  match err with
  | .instructionError index (.custom code) => ⟨some code, none, some index, none, (failingProgram tree code).map Address.text⟩
  | .instructionError index (.unit name) => ⟨none, some name, some index, none, none⟩
  | .duplicateInstruction index => ⟨none, some duplicateInstructionName, some index, none, none⟩
  | .insufficientFundsForRent accountIndex => ⟨none, some insufficientFundsForRentName, none, some accountIndex, none⟩
  | .programExecutionTemporarilyRestricted accountIndex =>
    ⟨none, some programExecutionTemporarilyRestrictedName, none, some accountIndex, none⟩
  | .unit name => ⟨none, some name, none, none, none⟩

def buildException (catalog : Catalog) (registry : ProgramByCode) (e : StructuredErr) : ErrorInstance :=
  build catalog registry (e.code.map Int.ofNat) e.native e.instructionIndex e.accountIndex e.programId

theorem chain_raises (catalog : Catalog) (history : List Registration) (message : Message)
    (innerInstructions : List (List InnerInstruction)) (logs : List Text) (index : Nat) (first : Record × Nat)
    (deeper : List (Record × Nat))
    (isChain : FailedChain (attachLogs (callTree message innerInstructions) logs) (first :: deeper)) :
    buildException catalog (registered history)
        (extractError (.instructionError index (.custom first.2)) (buildCallTree message innerInstructions logs)) =
      ⟨expectedType catalog history first.2 (deepestReporting first deeper).programId.text, some first.2, some index, none⟩ := by
  rw [extractError, buildCallTree, failing_program_chain _ first deeper isChain, Option.map_some, buildException,
    Option.map_some]
  exact build_code catalog history first.2 _ (some index) none

-- Without event calls on the chain, and when the reported code does not come back below
-- the frame that produced it, the class is the one that frame's program has for the code.
theorem origin_raises (catalog : Catalog) (history : List Registration) (message : Message)
    (innerInstructions : List (List InnerInstruction)) (logs : List Text) (index : Nat) (first : Record × Nat)
    (deeper : List (Record × Nat))
    (isChain : FailedChain (attachLogs (callTree message innerInstructions) logs) (first :: deeper))
    (calls : List.IsChain (fun caller callee => isEventCall caller callee = false) (first.1 :: deeper.map Prod.fst))
    (remapped : ∀ frame ∈ deeper.dropWhile (fun frame => frame.2 = first.2), frame.2 ≠ first.2) :
    buildException catalog (registered history)
        (extractError (.instructionError index (.custom first.2)) (buildCallTree message innerInstructions logs)) =
      ⟨expectedType catalog history first.2 (origin first deeper).programId.text, some first.2, some index, none⟩ := by
  rw [chain_raises catalog history message innerInstructions logs index first deeper isChain,
    deepest_origin first deeper calls remapped]

theorem remapped_chain_raises :
    buildException ⟨[], [], [], []⟩ (registered [⟨some (Address.fill 2).text, [⟨1, some 5⟩]⟩, ⟨none, [⟨2, some 5⟩, ⟨3, some 7⟩]⟩])
        (extractError (.instructionError 0 (.custom 5)) (buildCallTree chainMessage chainInner (chainRun 5 5 7).lines)) =
      ⟨.leaf ⟨1, some 5⟩, some 5, some 0, none⟩ := by
  have valid : (chainRun 5 5 7).Valid := by decide +kernel
  have isChain := chain_run_failed 5 5 7 (by decide) (by decide) (by decide)
  rw [← attach_valid _ valid, ← show callTree chainMessage chainInner = (chainRun 5 5 7).bare from rfl] at isChain
  have raised := origin_raises ⟨[], [], [], []⟩ [⟨some (Address.fill 2).text, [⟨1, some 5⟩]⟩, ⟨none, [⟨2, some 5⟩, ⟨3, some 7⟩]⟩]
    chainMessage chainInner _ 0 _ _ isChain (by decide) (by decide)
  exact raised

end WakeSol.Errors
