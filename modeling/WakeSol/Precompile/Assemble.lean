import WakeSol.Interface.Builder
import WakeSol.Lib.Packed

/- The instructions of the signature-verification precompiles. A component of a claim
   stands in the instruction itself or in another instruction of the transaction; the
   index of the other instruction is known once the whole list is assembled. -/
set_option autoImplicit false

namespace WakeSol.Precompile

open TextLib RadixLib EndianLib PackedLib Interface

structure Instruction where
  programId : Address
  accounts : List AccountMeta
  data : Bytes

def currentInstruction : Nat := 0xFFFF

def signatureSize : Nat := 64

structure CurveSpec where
  name : Text
  programId : Address
  identitySize : Nat
  indexWidth : Nat
  hasRecovery : Bool
  inlineIx : Option Nat

def CurveSpec.offsetsSize (spec : CurveSpec) : Nat := if spec.indexWidth = 2 then 14 else 11

def CurveSpec.headerSize (spec : CurveSpec) : Nat := if spec.indexWidth = 2 then 2 else 1

inductive Curve where
  | ed25519
  | secp256k1
  | secp256r1
deriving DecidableEq

-- The program ids of the three precompiles, decoded from their base58 texts.
def ed25519Id : List UInt8 :=
  [3, 125, 70, 214, 124, 147, 251, 190, 18, 249, 66, 143, 131, 141, 64, 255, 5, 112, 116, 73, 39, 244, 138, 100, 252, 202, 112, 68,
    128, 0, 0, 0]

def secp256k1Id : List UInt8 :=
  [4, 198, 252, 32, 240, 80, 204, 240, 85, 132, 215, 33, 28, 159, 140, 245, 158, 193, 71, 133, 187, 22, 106, 30, 40, 48, 232, 18,
    32, 0, 0, 0]

def secp256r1Id : List UInt8 :=
  [6, 146, 13, 236, 47, 234, 113, 181, 183, 35, 129, 77, 116, 45, 169, 3, 28, 131, 231, 95, 219, 121, 93, 86, 142, 117, 71, 128,
    32, 0, 0, 0]

def Curve.spec : Curve → CurveSpec
  | .ed25519 => ⟨"ed25519".toList, ⟨ed25519Id, rfl⟩, 32, 2, false, some currentInstruction⟩
  | .secp256k1 => ⟨"secp256k1".toList, ⟨secp256k1Id, rfl⟩, 20, 1, true, none⟩
  | .secp256r1 => ⟨"secp256r1".toList, ⟨secp256r1Id, rfl⟩, 33, 2, false, some currentInstruction⟩

example : [Curve.ed25519, .secp256k1, .secp256r1].map (fun curve => curve.spec.programId.text) =
    ["Ed25519SigVerify111111111111111111111111111".toList, "KeccakSecp256k11111111111111111111111111111".toList,
      "Secp256r1SigVerify1111111111111111111111111".toList] := by decide +kernel

-- A target is a Python object, named by its identity.
structure Ref where
  target : Option Nat
  offset : Option Int
  size : Option Int
  index : Option Int

inductive Placement where
  | inline
  | ref (ref : Ref)

structure SignedMessage where
  curve : Text
  identity : Bytes
  signature : Bytes
  message : Bytes
  recoveryId : Option Int
  signatureAt : Placement
  identityAt : Placement
  messageAt : Placement

structure Offsets where
  signatureOffset : Int
  identityOffset : Int
  messageOffset : Int
  messageSize : Int
  signatureIx : Int
  identityIx : Int
  messageIx : Int

inductive PrecompileError where
  | signatureLength (name : Text) (got : Nat)
  | missingRecovery (name : Text)
  | byteRange
  | mixedCurves (name curve : Text)
  | identityLength (name : Text) (size got : Nat)
  | refNeedsOne
  | needsContext
  | notInTransaction
  | notConcrete
  | needsTarget
  | notFound
  | ambiguous
  | structError
  | notAnInstruction (typeName : Text)

def PrecompileError.text : PrecompileError → Text
  | .signatureLength name got => name ++ ": signature must be 64 bytes, got ".toList ++ decimal got
  | .missingRecovery name => name ++ ": claim is missing recovery_id".toList
  | .byteRange => "bytes must be in range(0, 256)".toList
  | .mixedCurves name curve =>
    name ++ ".verify got a '".toList ++ curve ++ "' claim; curves cannot be mixed in one precompile instruction".toList
  | .identityLength name size got => name ++ ": identity must be ".toList ++ decimal size ++ " bytes, got ".toList ++ decimal got
  | .refNeedsOne => "Ref needs exactly one of target= (an instruction) or index= (raw)".toList
  | .needsContext =>
    "Ref(target=...) needs transaction context; build the instruction via account.tx / account.simulate".toList
  | .notInTransaction => "Ref target is not an instruction in this transaction".toList
  | .notConcrete => "Ref target must be a concrete Instruction, not another precompile result".toList
  | .needsTarget => "Ref without offset= needs a resolvable Instruction target to search".toList
  | .notFound => "Ref: component bytes not found in the target instruction; pass offset=".toList
  | .ambiguous => "Ref: component bytes occur more than once in the target; pass offset=".toList
  | .structError => "struct.error".toList
  | .notAnInstruction typeName =>
    "tx()/simulate() got ".toList ++ typeName ++ "; expected an Instruction or a precompile verify(...) result".toList

def CurveSpec.indexBytes (spec : CurveSpec) : Nat := if spec.indexWidth = 2 then 2 else 1

def CurveSpec.widths (spec : CurveSpec) : List Nat :=
  [2, spec.indexBytes, 2, spec.indexBytes, 2, 2, spec.indexBytes]

def Offsets.fields (o : Offsets) : List Int :=
  [o.signatureOffset, o.signatureIx, o.identityOffset, o.identityIx, o.messageOffset, o.messageSize, o.messageIx]

def packOffsets (spec : CurveSpec) (o : Offsets) : Except PrecompileError Bytes :=
  match packFields (spec.widths.zip o.fields) with
  | some packed => .ok packed
  | none => .error .structError

def oneByte (n : Int) : Except PrecompileError Bytes :=
  if 0 ≤ n ∧ n < 256 then .ok [UInt8.ofNat n.toNat] else .error .byteRange

def signatureBlob (spec : CurveSpec) (sm : SignedMessage) : Except PrecompileError Bytes :=
  if sm.signature.length ≠ signatureSize then .error (.signatureLength spec.name sm.signature.length)
  else if spec.hasRecovery then
    match sm.recoveryId with
    | none => .error (.missingRecovery spec.name)
    | some id => (oneByte id).map fun byte => sm.signature ++ byte
  else .ok sm.signature

def checkClaim (spec : CurveSpec) (sm : SignedMessage) : Except PrecompileError Unit :=
  if sm.curve ≠ spec.name then .error (.mixedCurves spec.name sm.curve)
  else if sm.identity.length ≠ spec.identitySize then .error (.identityLength spec.name spec.identitySize sm.identity.length)
  else .ok ()

def Placement.isRef : Placement → Bool
  | .inline => false
  | .ref _ => true

def hasRefs (claims : List SignedMessage) : Bool :=
  claims.any fun sm => sm.identityAt.isRef || sm.signatureAt.isRef || sm.messageAt.isRef

structure PrecompileInstruction where
  spec : CurveSpec
  claims : List SignedMessage
  checked : ∀ sm ∈ claims, checkClaim spec sm = .ok () ∧ ∃ blob, signatureBlob spec sm = .ok blob

inductive Item where
  | instruction (ix : Instruction)
  | deferred (ix : PrecompileInstruction)
  | other (typeName : Text)

structure Listed where
  ident : Nat
  item : Item

def Item.data : Item → Option Bytes
  | .instruction ix => some ix.data
  | _ => none

-- bytes.find: the first position from start on where the value stands.
def findFrom (value data : Bytes) (start : Nat) : Option Nat :=
  (List.range (data.length + 1)).find? fun position => decide (start ≤ position) && value.isPrefixOf (data.drop position)

def searchTarget (ref : Ref) (value : Bytes) (idx : Int) (targetData : Option Bytes) : Except PrecompileError (Int × Int) :=
  match ref.offset with
  | some offset => .ok (idx, offset)
  | none =>
    match targetData with
    | none => .error .needsTarget
    | some data =>
      match findFrom value data 0 with
      | none => .error .notFound
      | some first => if (findFrom value data (first + 1)).isSome then .error .ambiguous else .ok (idx, first)

def itemAt (ixList : List Listed) (idx : Int) : Option Item :=
  if 0 ≤ idx then ixList[idx.toNat]?.map Listed.item else none

def resolveRef (ref : Ref) (value : Bytes) (ixList : Option (List Listed)) : Except PrecompileError (Int × Int) :=
  match ref.target, ref.index with
  | none, some idx => searchTarget ref value idx ((ixList.bind fun listed => itemAt listed idx).bind Item.data)
  | some target, none =>
    match ixList with
    | none => .error .needsContext
    | some listed =>
      match listed.findIdx? (fun entry => entry.ident = target) with
      | none => .error .notInTransaction
      | some position =>
        match (itemAt listed position).bind Item.data with
        | none => .error .notConcrete
        | some data => searchTarget ref value position (some data)
  | _, _ => .error .refNeedsOne

structure Placed where
  offset : Int
  ix : Int
  size : Int

structure Assembly where
  cursor : Nat
  body : Bytes
  offsetStructs : Bytes

def place (inlineIx : Int) (ixList : Option (List Listed)) (value : Bytes) (state : Assembly) :
    Placement → Except PrecompileError (Placed × Assembly)
  | .ref ref => (resolveRef ref value ixList).map fun found => (⟨found.2, found.1, ref.size.getD value.length⟩, state)
  | .inline =>
    .ok (⟨state.cursor, inlineIx, value.length⟩,
      { state with body := state.body ++ value, cursor := state.cursor + value.length })

def addClaim (spec : CurveSpec) (inlineIx : Int) (ixList : Option (List Listed)) (state : Assembly) (sm : SignedMessage) :
    Except PrecompileError Assembly := do
  checkClaim spec sm
  let blob ← signatureBlob spec sm
  let (identity, state) ← place inlineIx ixList sm.identity state sm.identityAt
  let (signature, state) ← place inlineIx ixList blob state sm.signatureAt
  let (message, state) ← place inlineIx ixList sm.message state sm.messageAt
  let packed ← packOffsets spec
    ⟨signature.offset, identity.offset, message.offset, message.size, signature.ix, identity.ix, message.ix⟩
  return { state with offsetStructs := state.offsetStructs ++ packed }

def dataStart (spec : CurveSpec) (count : Nat) : Nat := spec.headerSize + spec.offsetsSize * count

def buildInstructionData (spec : CurveSpec) (claims : List SignedMessage) (selfIndex : Nat) (ixList : Option (List Listed)) :
    Except PrecompileError Bytes := do
  let inlineIx := spec.inlineIx.getD selfIndex
  let state ← claims.foldlM (addClaim spec inlineIx ixList) ⟨dataStart spec claims.length, [], []⟩
  let count ← oneByte claims.length
  return count ++ (if spec.headerSize = 2 then [0] else []) ++ state.offsetStructs ++ state.body

def PrecompileInstruction.resolve (ix : PrecompileInstruction) (selfIndex : Nat) (ixList : Option (List Listed)) :
    Except PrecompileError Instruction :=
  (buildInstructionData ix.spec ix.claims selfIndex ixList).map fun data => ⟨ix.spec.programId, [], data⟩

def checkAll (spec : CurveSpec) : List SignedMessage → Except PrecompileError Unit
  | [] => .ok ()
  | sm :: rest => do
      checkClaim spec sm
      let _ ← signatureBlob spec sm
      checkAll spec rest

theorem check_all_ok (spec : CurveSpec) (claims : List SignedMessage) (passed : checkAll spec claims = .ok ()) :
    ∀ sm ∈ claims, checkClaim spec sm = .ok () ∧ ∃ blob, signatureBlob spec sm = .ok blob := by
  induction claims with
  | nil => simp
  | cons sm rest ih =>
    rw [checkAll] at passed
    cases checked : checkClaim spec sm with
    | error e =>
      rw [checked] at passed
      cases passed
    | ok _ =>
      cases signed : signatureBlob spec sm with
      | error e =>
        rw [checked, signed] at passed
        cases passed
      | ok blob =>
        rw [checked, signed] at passed
        intro other inside
        rcases List.mem_cons.mp inside with rfl | later
        · exact ⟨checked, blob, signed⟩
        · exact ih passed other later

def PrecompileInstruction.new (spec : CurveSpec) (claims : List SignedMessage) : Except PrecompileError PrecompileInstruction :=
  match passed : checkAll spec claims with
  | .error e => .error e
  | .ok () => .ok ⟨spec, claims, check_all_ok spec claims passed⟩

def buildVerify (spec : CurveSpec) (claims : List SignedMessage) : Except PrecompileError Item :=
  if spec.inlineIx = none ∨ hasRefs claims = true then (PrecompileInstruction.new spec claims).map Item.deferred
  else (buildInstructionData spec claims 0 none).map fun data => .instruction ⟨spec.programId, [], data⟩

def materializeItem (ixs : List Listed) (position : Nat) : Item → Except PrecompileError Instruction
  | .instruction ix => .ok ix
  | .deferred ix => ix.resolve position (some ixs)
  | .other typeName => .error (.notAnInstruction typeName)

def materialize (ixs : List Listed) : Except PrecompileError (List Instruction) :=
  ixs.zipIdx.mapM fun entry => materializeItem ixs entry.2 entry.1.item

end WakeSol.Precompile
