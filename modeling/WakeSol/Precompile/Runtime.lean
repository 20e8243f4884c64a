import WakeSol.Lib.Fallible
import WakeSol.Precompile.Assemble

/- The precompile instructions as the runtime reads them, and the table and regions that
   assembling an instruction lays out. -/
set_option autoImplicit false

namespace WakeSol.Precompile

open TextLib RadixLib EndianLib PackedLib FallibleLib Interface

structure Entry where
  signatureOffset : Nat
  signatureIx : Nat
  identityOffset : Nat
  identityIx : Nat
  messageOffset : Nat
  messageSize : Nat
  messageIx : Nat
deriving DecidableEq

def entryOf (fields : List Nat) : Entry :=
  ⟨fields.getD 0 0, fields.getD 1 0, fields.getD 2 0, fields.getD 3 0, fields.getD 4 0, fields.getD 5 0, fields.getD 6 0⟩

def readEntries (spec : CurveSpec) : Bytes → Option (List Entry)
  | [] => none
  | count :: rest =>
    if rest.length + 1 < dataStart spec count.toNat then none
    else some ((unpackTable spec.widths count.toNat ((count :: rest).drop spec.headerSize)).map entryOf)

def slice (data : Bytes) (offset size : Nat) : Option Bytes :=
  if offset + size ≤ data.length then some ((data.drop offset).take size) else none

-- The sentinel of a curve that has one means the instruction itself.
def instructionData (spec : CurveSpec) (own : Bytes) (datas : List Bytes) (ix : Nat) : Option Bytes :=
  if spec.inlineIx = some ix then some own else datas[ix]?

def readComponent (spec : CurveSpec) (own : Bytes) (datas : List Bytes) (ix offset size : Nat) : Option Bytes :=
  (instructionData spec own datas ix).bind fun data => slice data offset size

structure Reading where
  identity : Option Bytes
  signature : Option Bytes
  message : Option Bytes

def storedSize (spec : CurveSpec) : Nat := signatureSize + if spec.hasRecovery then 1 else 0

def readEntry (spec : CurveSpec) (own : Bytes) (datas : List Bytes) (entry : Entry) : Reading where
  identity := readComponent spec own datas entry.identityIx entry.identityOffset spec.identitySize
  signature := readComponent spec own datas entry.signatureIx entry.signatureOffset (storedSize spec)
  message := readComponent spec own datas entry.messageIx entry.messageOffset entry.messageSize

def SignedMessage.stored (spec : CurveSpec) (sm : SignedMessage) : Bytes :=
  sm.signature ++ match spec.hasRecovery, sm.recoveryId with
    | true, some id => [UInt8.ofNat id.toNat]
    | _, _ => []

def Placement.Automatic : Placement → Prop
  | .inline => True
  | .ref given => given.offset = none ∧ given.size = none

structure ClaimRead (spec : CurveSpec) (sm : SignedMessage) (reading : Reading) : Prop where
  identity : sm.identityAt.Automatic → reading.identity = some sm.identity
  signature : sm.signatureAt.Automatic → reading.signature = some (sm.stored spec)
  message : sm.messageAt.Automatic → reading.message = some sm.message

def inlineRegion (placement : Placement) (offset size : Nat) : List (Nat × Nat) :=
  match placement with
  | .inline => [(offset, size)]
  | .ref _ => []

def inlineRegions (spec : CurveSpec) (sm : SignedMessage) (entry : Entry) : List (Nat × Nat) :=
  inlineRegion sm.identityAt entry.identityOffset sm.identity.length ++
    inlineRegion sm.signatureAt entry.signatureOffset (sm.stored spec).length ++
    inlineRegion sm.messageAt entry.messageOffset sm.message.length

-- An automatic Ref that lands on the sentinel is read from the instruction itself.
def Unaliased (spec : CurveSpec) (own : Bytes) (ixList : Option (List Listed)) (value : Bytes) : Placement → Prop
  | .inline => True
  | .ref ref => ref.offset = none ∧ ref.size = none → ∀ ix offset, resolveRef ref value ixList = .ok (ix, offset) →
      spec.inlineIx = some ix.toNat → slice own offset.toNat value.length = some value

structure ClaimUnaliased (spec : CurveSpec) (own : Bytes) (ixList : Option (List Listed)) (sm : SignedMessage) : Prop where
  identity : Unaliased spec own ixList sm.identity sm.identityAt
  signature : Unaliased spec own ixList (sm.stored spec) sm.signatureAt
  message : Unaliased spec own ixList sm.message sm.messageAt

theorem blob_stored (spec : CurveSpec) (sm : SignedMessage) (blob : Bytes) (signed : signatureBlob spec sm = .ok blob) :
    blob = sm.stored spec ∧ blob.length = storedSize spec := by
  rw [signatureBlob] at signed
  split at signed
  · cases signed
  · rename_i size
    rw [not_not] at size
    rw [SignedMessage.stored, storedSize]
    cases recovery : spec.hasRecovery with
    | false =>
      rw [recovery] at signed
      cases signed
      simp [size]
    | true =>
      rw [recovery] at signed
      cases id : sm.recoveryId with
      | none =>
        rw [id] at signed
        cases signed
      | some n =>
        rw [id] at signed
        obtain ⟨byte, one, rfl⟩ := map_ok _ _ _ signed
        rw [oneByte] at one
        split at one
        · cases one
          simp [size]
        · cases one

def Located (start : Nat) (body : Bytes) (inlineIx : Nat) (ixList : Option (List Listed)) (value : Bytes) (offset ix : Int) :
    Placement → Prop
  | .inline => ix = inlineIx ∧ ∃ front back, body = front ++ value ++ back ∧ offset = (start + front.length : Nat)
  | .ref ref => resolveRef ref value ixList = .ok (ix, offset)

theorem located_grows (start : Nat) (body more : Bytes) (inlineIx : Nat) (ixList : Option (List Listed)) (value : Bytes)
    (offset ix : Int) (placement : Placement) (located : Located start body inlineIx ixList value offset ix placement) :
    Located start (body ++ more) inlineIx ixList value offset ix placement := by
  cases placement with
  | inline =>
    obtain ⟨same, front, back, rfl, isOffset⟩ := located
    exact ⟨same, front, back ++ more, by simp, isOffset⟩
  | ref ref => exact located

structure Assembly.At (start : Nat) (state : Assembly) : Prop where
  cursor : state.cursor = start + state.body.length

theorem place_located (start inlineIx : Nat) (ixList : Option (List Listed)) (value : Bytes) (state next : Assembly)
    (placement : Placement) (placed : Placed) (aligned : state.At start)
    (done : place inlineIx ixList value state placement = .ok (placed, next)) :
    next.At start ∧ next.offsetStructs = state.offsetStructs ∧
      Located start next.body inlineIx ixList value placed.offset placed.ix placement ∧
      (placement.Automatic → placed.size = value.length) ∧
      ∃ more, next.body = state.body ++ more ∧ Tiles (start + state.body.length)
        (inlineRegion placement placed.offset.toNat value.length) (start + next.body.length) := by
  cases placement with
  | inline =>
    cases done
    refine ⟨⟨?_⟩, rfl, ⟨rfl, state.body, [], by simp, ?_⟩, fun _ => rfl, value, rfl, ?_⟩
    · simp only [aligned.cursor, List.length_append]
      omega
    · simp only [aligned.cursor]
    · simp only [inlineRegion, Tiles, Int.toNat_natCast, List.length_append]
      exact ⟨aligned.cursor, by omega⟩
  | ref ref =>
    obtain ⟨found, resolved, same⟩ := map_ok _ _ _ done
    cases same
    refine ⟨aligned, rfl, resolved, fun automatic => ?_, [], by simp, ?_⟩
    · simp [automatic.2]
    · simp only [inlineRegion, Tiles]

def Offsets.entry (o : Offsets) : Entry := entryOf (o.fields.map Int.toNat)

structure Described (spec : CurveSpec) (start : Nat) (body : Bytes) (inlineIx : Nat) (ixList : Option (List Listed))
    (sm : SignedMessage) (o : Offsets) : Prop where
  identitySize : sm.identity.length = spec.identitySize
  storedLength : (sm.stored spec).length = storedSize spec
  identity : Located start body inlineIx ixList sm.identity o.identityOffset o.identityIx sm.identityAt
  signature : Located start body inlineIx ixList (sm.stored spec) o.signatureOffset o.signatureIx sm.signatureAt
  message : Located start body inlineIx ixList sm.message o.messageOffset o.messageIx sm.messageAt
  messageSize : sm.messageAt.Automatic → o.messageSize = sm.message.length

theorem described_grows (spec : CurveSpec) (start : Nat) (body more : Bytes) (inlineIx : Nat) (ixList : Option (List Listed))
    (sm : SignedMessage) (o : Offsets) (described : Described spec start body inlineIx ixList sm o) :
    Described spec start (body ++ more) inlineIx ixList sm o :=
  ⟨described.identitySize, described.storedLength, located_grows _ _ _ _ _ _ _ _ _ described.identity,
    located_grows _ _ _ _ _ _ _ _ _ described.signature, located_grows _ _ _ _ _ _ _ _ _ described.message,
    described.messageSize⟩

theorem check_claim_size (spec : CurveSpec) (sm : SignedMessage) (checked : checkClaim spec sm = .ok ()) :
    sm.identity.length = spec.identitySize := by
  rw [checkClaim] at checked
  split at checked
  · cases checked
  · split at checked
    · cases checked
    · rename_i size
      exact not_not.mp size

theorem claim_described (spec : CurveSpec) (start inlineIx : Nat) (ixList : Option (List Listed)) (state next : Assembly)
    (sm : SignedMessage) (aligned : state.At start) (done : addClaim spec inlineIx ixList state sm = .ok next) :
    next.At start ∧ ∃ o packed more, packOffsets spec o = .ok packed ∧
      next.offsetStructs = state.offsetStructs ++ packed ∧ next.body = state.body ++ more ∧
      Described spec start next.body inlineIx ixList sm o ∧
      Tiles (start + state.body.length) (inlineRegions spec sm o.entry) (start + next.body.length) := by
  obtain ⟨_, checked, done⟩ := bind_ok _ _ _ done
  obtain ⟨blob, signed, done⟩ := bind_ok _ _ _ done
  obtain ⟨⟨identity, first⟩, putIdentity, done⟩ := bind_ok _ _ _ done
  obtain ⟨⟨signature, second⟩, putSignature, done⟩ := bind_ok _ _ _ done
  obtain ⟨⟨message, third⟩, putMessage, done⟩ := bind_ok _ _ _ done
  obtain ⟨packed, isPacked, done⟩ := bind_ok _ _ _ done
  cases done
  obtain ⟨rfl, length⟩ := blob_stored spec sm blob signed
  obtain ⟨atFirst, kept, identityAt, _, moreFirst, isFirst, tilesFirst⟩ :=
    place_located start inlineIx ixList _ state first _ identity aligned putIdentity
  obtain ⟨atSecond, keptToo, signatureAt, _, moreSecond, isSecond, tilesSecond⟩ :=
    place_located start inlineIx ixList _ first second _ signature atFirst putSignature
  obtain ⟨atThird, keptLast, messageAt, size, moreThird, isThird, tilesThird⟩ :=
    place_located start inlineIx ixList _ second third _ message atSecond putMessage
  refine ⟨⟨atThird.cursor⟩, _, packed, moreFirst ++ moreSecond ++ moreThird, isPacked, ?_, ?_, ?_, ?_⟩
  · simp only [keptLast, keptToo, kept]
  · simp only [isThird, isSecond, isFirst, List.append_assoc]
  · refine ⟨check_claim_size spec sm checked, length, ?_, ?_, messageAt, size⟩
    · simp only [isThird, isSecond]
      exact located_grows _ _ _ _ _ _ _ _ _ (located_grows _ _ _ _ _ _ _ _ _ identityAt)
    · simp only [isThird]
      exact located_grows _ _ _ _ _ _ _ _ _ signatureAt
  · exact tiles_append _ _ _ _ _ (tiles_append _ _ _ _ _ tilesFirst tilesSecond) tilesThird

theorem claims_described (spec : CurveSpec) (start inlineIx : Nat) (ixList : Option (List Listed)) (claims : List SignedMessage)
    (state final : Assembly) (aligned : state.At start)
    (done : claims.foldlM (addClaim spec inlineIx ixList) state = .ok final) :
    ∃ os packed more, List.Forall₂ (fun o bytes => packOffsets spec o = .ok bytes) os packed ∧
      final.offsetStructs = state.offsetStructs ++ packed.flatten ∧ final.body = state.body ++ more ∧
      List.Forall₂ (Described spec start final.body inlineIx ixList) claims os ∧
      Tiles (start + state.body.length) ((claims.zip os).flatMap fun pair => inlineRegions spec pair.1 pair.2.entry)
        (start + final.body.length) := by
  induction claims generalizing state with
  | nil =>
    cases done
    exact ⟨[], [], [], .nil, by simp, by simp, .nil, by simp [Tiles]⟩
  | cons sm rest ih =>
    rw [List.foldlM_cons] at done
    obtain ⟨next, added, done⟩ := bind_ok _ _ _ done
    obtain ⟨atNext, o, bytes, grown, isPacked, structs, isNext, described, tiles⟩ :=
      claim_described spec start inlineIx ixList state next sm aligned added
    obtain ⟨os, packed, more, each, allStructs, isFinal, others, laterTiles⟩ := ih next atNext done
    refine ⟨o :: os, bytes :: packed, grown ++ more, .cons isPacked each, ?_, ?_, .cons ?_ others, ?_⟩
    · rw [allStructs, structs, List.flatten_cons, List.append_assoc]
    · rw [isFinal, isNext, List.append_assoc]
    · rw [isFinal]
      exact described_grows _ _ _ _ _ _ _ _ described
    · rw [List.zip_cons_cons, List.flatMap_cons]
      exact tiles_append _ _ _ _ _ tiles laterTiles

theorem widths_sum (spec : CurveSpec) : spec.widths.sum = spec.offsetsSize := by
  rw [CurveSpec.widths, CurveSpec.offsetsSize, CurveSpec.indexBytes]
  split <;> rfl

theorem pack_record (spec : CurveSpec) (o : Offsets) (packed : Bytes) (done : packOffsets spec o = .ok packed) :
    packFields (spec.widths.zip o.fields) = some packed := by
  rw [packOffsets] at done
  split at done
  · cases done
    assumption
  · cases done

theorem fields_shape (spec : CurveSpec) (o : Offsets) : (spec.widths.zip o.fields).map Prod.fst = spec.widths := rfl

theorem fields_values (spec : CurveSpec) (o : Offsets) :
    (spec.widths.zip o.fields).map (fun field => field.2.toNat) = o.fields.map Int.toNat := rfl

structure Built (spec : CurveSpec) (claims : List SignedMessage) (inlineIx : Nat) (ixList : Option (List Listed)) (data : Bytes)
    (os : List Offsets) : Prop where
  entries : readEntries spec data = some (os.map Offsets.entry)
  described : List.Forall₂ (Described spec (dataStart spec claims.length) (data.drop (dataStart spec claims.length)) inlineIx ixList)
    claims os
  tiles : Tiles (dataStart spec claims.length) ((claims.zip os).flatMap fun pair => inlineRegions spec pair.1 pair.2.entry)
    data.length

theorem header_length (spec : CurveSpec) (count : UInt8) :
    (count :: if spec.headerSize = 2 then [0] else [] : Bytes).length = spec.headerSize := by
  rw [CurveSpec.headerSize]
  split <;> simp

theorem data_built (spec : CurveSpec) (claims : List SignedMessage) (selfIndex : Nat) (ixList : Option (List Listed)) (data : Bytes)
    (done : buildInstructionData spec claims selfIndex ixList = .ok data) :
    ∃ os, Built spec claims (spec.inlineIx.getD selfIndex) ixList data os := by
  obtain ⟨final, folded, done⟩ := bind_ok _ _ _ done
  obtain ⟨count, counted, done⟩ := bind_ok _ _ _ done
  obtain ⟨os, packed, more, each, structs, isFinal, described, tiles⟩ :=
    claims_described spec (dataStart spec claims.length) _ ixList claims _ final ⟨by simp⟩ folded
  rw [oneByte] at counted
  split at counted
  · rename_i range
    cases counted
    have size : (UInt8.ofNat (claims.length : Int).toNat).toNat = claims.length := by
      have small : claims.length < 256 := by omega
      simp [Nat.mod_eq_of_lt small]
    have records : List.Forall₂ (fun record bytes => packFields record = some bytes)
        (os.map fun o => spec.widths.zip o.fields) packed := by
      rw [List.forall₂_map_left_iff]
      exact each.imp fun o bytes => pack_record spec o bytes
    obtain ⟨tableLength, table⟩ := unpack_table spec.widths _ packed final.body (by simp [fields_shape]) records
    have lengths : os.length = claims.length := described.length_eq.symm
    have header := header_length spec (UInt8.ofNat (claims.length : Int).toNat)
    have whole : data = (UInt8.ofNat (claims.length : Int).toNat :: if spec.headerSize = 2 then [0] else []) ++
        (packed.flatten ++ final.body) := by
      cases done
      simp only [structs, List.nil_append, List.append_assoc, List.cons_append]
    have start : dataStart spec claims.length = spec.headerSize + packed.flatten.length := by
      rw [tableLength, widths_sum, List.length_map, lengths, dataStart]
    have body : data.drop (dataStart spec claims.length) = final.body := by
      rw [whole, start, ← List.append_assoc, List.drop_left' (by rw [List.length_append, header])]
    refine ⟨os, ?_, ?_, ?_⟩
    · rw [whole, List.cons_append, readEntries, size, if_neg ?_]
      · rw [← List.cons_append, List.drop_left' header, ← lengths, ← List.length_map (f := fun o : Offsets => spec.widths.zip o.fields),
          table]
        simp [Offsets.entry, fields_values]
      · simp only [List.length_append, List.length_cons] at header ⊢
        omega
    · rw [body]
      exact described
    · have length : data.length = dataStart spec claims.length + final.body.length := by
        rw [whole, List.length_append, List.length_append, header, start]
        omega
      rw [length]
      exact tiles
  · cases counted

end WakeSol.Precompile
