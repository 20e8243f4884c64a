import WakeSol.Precompile.Runtime

/- Every claim is read back from the assembled list. The index of a Ref stands where
   the sentinel for the instruction itself can stand too. -/
set_option autoImplicit false

namespace WakeSol.Precompile

open TextLib RadixLib EndianLib PackedLib FallibleLib Interface

theorem find_from_found (value data : Bytes) (start first : Nat) (found : findFrom value data start = some first) :
    slice data first value.length = some value := by
  have here := List.find?_some found
  have fits : value <+: data.drop first := by
    rw [Bool.and_eq_true] at here
    exact List.isPrefixOf_iff_prefix.mp here.2
  have bound := List.mem_range.mp (List.mem_of_find?_eq_some found)
  have length := fits.length_le
  rw [List.length_drop] at length
  rw [slice, if_pos (by omega), List.prefix_iff_eq_take.mp fits |>.symm]

theorem search_automatic (ref : Ref) (value : Bytes) (idx : Int) (targetData : Option Bytes) (ix offset : Int)
    (automatic : ref.offset = none) (done : searchTarget ref value idx targetData = .ok (ix, offset)) :
    ix = idx ∧ ∃ data, targetData = some data ∧ slice data offset.toNat value.length = some value := by
  simp only [searchTarget, automatic] at done
  cases targetData with
  | none => cases done
  | some data =>
    cases found : findFrom value data 0 with
    | none => simp [found] at done
    | some first =>
      simp only [found] at done
      split at done
      · cases done
      · cases done
        exact ⟨rfl, data, rfl, find_from_found value data 0 first found⟩

theorem resolve_automatic (ref : Ref) (value : Bytes) (ixList : List Listed) (ix offset : Int) (automatic : ref.offset = none)
    (resolved : resolveRef ref value (some ixList) = .ok (ix, offset)) :
    ∃ data, (itemAt ixList ix).bind Item.data = some data ∧ slice data offset.toNat value.length = some value := by
  rw [resolveRef] at resolved
  split at resolved
  · rename_i idx _ _
    obtain ⟨rfl, data, isData, held⟩ := search_automatic ref value idx _ ix offset automatic resolved
    exact ⟨data, isData, held⟩
  · split at resolved
    · cases resolved
    · rename_i listed isList
      cases isList
      split at resolved
      · cases resolved
      · rename_i position _
        split at resolved
        · cases resolved
        · rename_i data isData
          obtain ⟨rfl, _, same, held⟩ := search_automatic ref value position _ ix offset automatic resolved
          cases same
          exact ⟨data, isData, held⟩
  · cases resolved

structure Final (ixList : List Listed) (datas : List Bytes) : Prop where
  plain : ∀ ix data, (itemAt ixList ix).bind Item.data = some data → datas[ix.toNat]? = some data

theorem inline_slice (start : Nat) (own front value back : Bytes) (body : own.drop start = front ++ value ++ back)
    (inside : start ≤ own.length) : slice own (start + front.length) value.length = some value := by
  have length : own.length - start = front.length + value.length + back.length := by
    rw [← List.length_drop, body]
    simp only [List.length_append]
  rw [slice, if_pos (by omega), ← List.drop_drop, body, List.append_assoc, List.drop_left, List.take_left]

theorem component_iff (spec : CurveSpec) (start selfIndex : Nat) (own : Bytes) (ixList : List Listed) (datas : List Bytes)
    (value : Bytes) (offset ix : Int) (placement : Placement) (size : Nat) (inside : start ≤ own.length)
    (final : Final ixList datas) (self : spec.inlineIx = none → datas[selfIndex]? = some own)
    (isSize : placement.Automatic → size = value.length)
    (located : Located start (own.drop start) (spec.inlineIx.getD selfIndex) (some ixList) value offset ix placement) :
    (placement.Automatic → readComponent spec own datas ix.toNat offset.toNat size = some value) ↔
      Unaliased spec own (some ixList) value placement := by
  cases placement with
  | inline =>
    obtain ⟨rfl, front, back, body, rfl⟩ := located
    have held := inline_slice start own front value back body inside
    have itself : instructionData spec own datas (spec.inlineIx.getD selfIndex) = some own := by
      rw [instructionData]
      cases sentinel : spec.inlineIx with
      | some ix => simp
      | none => simpa using self sentinel
    refine iff_of_true (fun automatic => ?_) trivial
    rw [readComponent, Int.toNat_natCast, Int.toNat_natCast, itself, Option.bind_some, isSize automatic, held]
  | ref ref =>
    refine forall_congr' fun automatic => ?_
    obtain ⟨data, isData, held⟩ := resolve_automatic ref value ixList ix offset automatic.1 located
    rw [isSize automatic, readComponent, instructionData]
    constructor
    · intro read other place resolved sentinel
      rw [located] at resolved
      cases resolved
      rwa [if_pos sentinel, Option.bind_some] at read
    · intro unaliased
      by_cases sentinel : spec.inlineIx = some ix.toNat
      · rw [if_pos sentinel, Option.bind_some]
        exact unaliased ix offset located sentinel
      · rw [if_neg sentinel, final.plain ix data isData, Option.bind_some, held]

theorem claim_iff (spec : CurveSpec) (start selfIndex : Nat) (own : Bytes) (ixList : List Listed) (datas : List Bytes)
    (sm : SignedMessage) (o : Offsets) (inside : start ≤ own.length)
    (final : Final ixList datas) (self : spec.inlineIx = none → datas[selfIndex]? = some own)
    (described : Described spec start (own.drop start) (spec.inlineIx.getD selfIndex) (some ixList) sm o) :
    ClaimRead spec sm (readEntry spec own datas o.entry) ↔ ClaimUnaliased spec own (some ixList) sm := by
  have identity := component_iff spec start selfIndex own ixList datas _ _ _ sm.identityAt spec.identitySize inside final self
    (fun _ => described.identitySize.symm) described.identity
  have signature := component_iff spec start selfIndex own ixList datas _ _ _ sm.signatureAt (storedSize spec) inside final self
    (fun _ => described.storedLength.symm) described.signature
  have message := component_iff spec start selfIndex own ixList datas _ _ _ sm.messageAt o.messageSize.toNat inside final self
    (fun automatic => by rw [described.messageSize automatic, Int.toNat_natCast]) described.message
  constructor
  · rintro ⟨first, second, third⟩
    exact ⟨identity.mp first, signature.mp second, message.mp third⟩
  · rintro ⟨first, second, third⟩
    exact ⟨identity.mpr first, signature.mpr second, message.mpr third⟩

theorem materialize_at (ixs : List Listed) (out : List Instruction) (done : materialize ixs = .ok out) :
    out.length = ixs.length ∧ ∀ position entry, ixs[position]? = some entry →
      ∃ ix, out[position]? = some ix ∧ materializeItem ixs position entry.item = .ok ix := by
  have each := map_m_ok _ _ _ done
  have length : out.length = ixs.length := by
    rw [← each.length_eq, List.length_zipIdx]
  refine ⟨length, fun position entry found => ?_⟩
  obtain ⟨bound, isEntry⟩ := List.getElem?_eq_some_iff.mp found
  have here := (List.forall₂_iff_get.mp each).2 position (by simpa using bound) (by omega)
  refine ⟨out[position], List.getElem?_eq_getElem (by omega), ?_⟩
  simpa [isEntry] using here

theorem materialize_final (ixs : List Listed) (out : List Instruction) (done : materialize ixs = .ok out) :
    Final ixs (out.map Instruction.data) := by
  constructor
  intro ix data isData
  obtain ⟨item, isItem, held⟩ := Option.bind_eq_some_iff.mp isData
  rw [itemAt] at isItem
  split at isItem
  · obtain ⟨entry, found, rfl⟩ := Option.map_eq_some_iff.mp isItem
    obtain ⟨result, isResult, materialized⟩ := (materialize_at ixs out done).2 ix.toNat entry found
    cases kind : entry.item with
    | instruction plain =>
      rw [kind] at held materialized
      cases held
      cases materialized
      simp [isResult]
    | deferred other =>
      rw [kind] at held
      cases held
    | other typeName =>
      rw [kind] at held
      cases held
  · cases isItem

inductive Source where
  | plain (ix : Instruction)
  | verified (curve : Curve) (claims : List SignedMessage) (item : Item) (built : buildVerify curve.spec claims = .ok item)

def Source.item : Source → Item
  | .plain ix => .instruction ix
  | .verified _ _ item _ => item

def listedOf (sources : List (Nat × Source)) : List Listed := sources.map fun source => ⟨source.1, source.2.item⟩

theorem inline_refs (claims : List SignedMessage) (none : hasRefs claims = false) (sm : SignedMessage) (inside : sm ∈ claims) :
    sm.identityAt = .inline ∧ sm.signatureAt = .inline ∧ sm.messageAt = .inline := by
  have here := List.any_eq_false.mp none sm inside
  cases identity : sm.identityAt with
  | ref ref => simp [identity, Placement.isRef] at here
  | inline =>
    cases signature : sm.signatureAt with
    | ref ref => simp [signature, Placement.isRef] at here
    | inline =>
      cases message : sm.messageAt with
      | ref ref => simp [message, Placement.isRef] at here
      | inline => exact ⟨rfl, rfl, rfl⟩

theorem located_inline (start : Nat) (body : Bytes) (inlineIx : Nat) (ixList other : Option (List Listed)) (value : Bytes)
    (offset ix : Int) (placement : Placement) (inline : placement = .inline)
    (located : Located start body inlineIx ixList value offset ix placement) :
    Located start body inlineIx other value offset ix placement := by
  subst inline
  exact located

theorem verified_built (curve : Curve) (claims : List SignedMessage) (item : Item) (built : buildVerify curve.spec claims = .ok item)
    (ixs : List Listed) (position : Nat) (ix : Instruction) (materialized : materializeItem ixs position item = .ok ix) :
    ix.programId = curve.spec.programId ∧
      ∃ os, Built curve.spec claims (curve.spec.inlineIx.getD position) (some ixs) ix.data os := by
  rw [buildVerify] at built
  split at built
  · obtain ⟨deferred, made, rfl⟩ := map_ok _ _ _ built
    obtain ⟨data, done, rfl⟩ := map_ok _ _ _ materialized
    rw [PrecompileInstruction.new] at made
    split at made
    · cases made
    · cases made
      exact ⟨rfl, data_built curve.spec claims position (some ixs) data done⟩
  · rename_i plain
    rw [not_or] at plain
    obtain ⟨data, done, rfl⟩ := map_ok _ _ _ built
    cases materialized
    obtain ⟨os, entries, described, tiles⟩ := data_built curve.spec claims 0 none data done
    have fixed : curve.spec.inlineIx.getD 0 = curve.spec.inlineIx.getD position := by
      cases sentinel : curve.spec.inlineIx with
      | none => exact absurd sentinel plain.1
      | some ix => rfl
    refine ⟨rfl, os, entries, ?_, tiles⟩
    rw [fixed] at described
    refine (List.forall₂_iff_zip.mpr ⟨described.length_eq, fun {sm o} inside => ?_⟩)
    have here := List.forall₂_iff_zip.mp described |>.2 inside
    obtain ⟨identity, signature, message⟩ := inline_refs claims (by simpa using plain.2) sm (List.of_mem_zip inside).1
    exact ⟨here.identitySize, here.storedLength, located_inline _ _ _ _ _ _ _ _ _ identity here.identity,
      located_inline _ _ _ _ _ _ _ _ _ signature here.signature, located_inline _ _ _ _ _ _ _ _ _ message here.message,
      here.messageSize⟩

theorem forall_pairs_iff {α β : Type} (relation : α → β → Prop) (holds : α → Prop) (items : List α) (others : List β)
    (each : List.Forall₂ (fun item other => relation item other ↔ holds item) items others) :
    List.Forall₂ relation items others ↔ ∀ item ∈ items, holds item := by
  induction each with
  | nil => simp
  | cons first _ ih => simp [first, ih]

def ReadsBack (listed : List Listed) (out : List Instruction) (position : Nat) (curve : Curve) (claims : List SignedMessage) : Prop :=
  ∃ ix entries, out[position]? = some ix ∧ ix.programId = curve.spec.programId ∧
    readEntries curve.spec ix.data = some entries ∧
    Fills (dataStart curve.spec claims.length)
      ((claims.zip entries).flatMap fun pair => inlineRegions curve.spec pair.1 pair.2) ix.data.length ∧
    (List.Forall₂ (fun sm entry =>
        ClaimRead curve.spec sm (readEntry curve.spec ix.data (out.map Instruction.data) entry)) claims entries ↔
      ∀ sm ∈ claims, ClaimUnaliased curve.spec ix.data (some listed) sm)

theorem verified_reads (listed : List Listed) (out : List Instruction) (done : materialize listed = .ok out) (position ident : Nat)
    (curve : Curve) (claims : List SignedMessage) (item : Item) (built : buildVerify curve.spec claims = .ok item)
    (found : listed[position]? = some ⟨ident, item⟩) : ReadsBack listed out position curve claims := by
  have final := materialize_final _ _ done
  obtain ⟨ix, isIx, materialized⟩ := (materialize_at _ _ done).2 position ⟨ident, item⟩ found
  obtain ⟨program, os, entries, described, tiles⟩ := verified_built curve claims item built _ position ix materialized
  have zipped : (claims.zip (os.map Offsets.entry)).flatMap (fun pair => inlineRegions curve.spec pair.1 pair.2) =
      (claims.zip os).flatMap fun pair => inlineRegions curve.spec pair.1 pair.2.entry := by
    rw [List.zip_map_right, List.flatMap_map]
    rfl
  refine ⟨ix, os.map Offsets.entry, isIx, program, entries, ?_, ?_⟩
  · rw [zipped]
    exact tiles_fill _ _ _ tiles
  · refine forall_pairs_iff _ _ _ _ (List.forall₂_map_right_iff.mpr (described.imp fun sm o here => ?_))
    refine claim_iff curve.spec _ position ix.data _ _ sm o (tiles_ordered _ _ _ tiles).1 final ?_ here
    intro _
    simp [isIx]

def filler : Instruction := ⟨.fill 1, [], []⟩

def sibling : Instruction := ⟨.fill 1, [], [5]⟩

def siblingRef : Ref := ⟨some 1, none, none, none⟩

def siblingClaim : SignedMessage :=
  ⟨"ed25519".toList, List.replicate 32 7, List.replicate 64 8, [5], none, .inline, .inline, .ref siblingRef⟩

def siblingVerify : PrecompileInstruction := ⟨Curve.ed25519.spec, [siblingClaim], by
  intro sm inside
  cases List.mem_singleton.mp inside
  exact ⟨rfl, _, rfl⟩⟩

theorem sibling_built : buildVerify Curve.ed25519.spec [siblingClaim] = .ok (.deferred siblingVerify) := rfl

def behind (count : Nat) : List (Nat × Source) :=
  List.replicate count (0, .plain filler) ++
    [(1, .plain sibling), (2, .verified .ed25519 [siblingClaim] (.deferred siblingVerify) sibling_built)]

theorem sibling_resolved (count : Nat) : resolveRef siblingRef [5] (some (listedOf (behind count))) = .ok ((count : Int), 0) := by
  have position : (listedOf (behind count)).findIdx? (fun entry => decide (entry.ident = 1)) = some count := by
    simp [listedOf, behind, List.findIdx?_append, List.findIdx?_replicate, List.findIdx?_cons]
  have item : itemAt (listedOf (behind count)) count = some (.instruction sibling) := by
    simp [itemAt, listedOf, behind, Source.item]
  simp only [resolveRef, siblingRef, position, item]
  rfl

theorem pack_wide (spec : CurveSpec) (wide : spec.indexBytes = 2) (o : Offsets)
    (fit : ∀ field ∈ o.fields, 0 ≤ field ∧ field < 256 ^ 2) : ∃ packed, packOffsets spec o = .ok packed := by
  obtain ⟨packed, done⟩ := pack_fits (spec.widths.zip o.fields) (by
    intro field inside
    obtain ⟨isWidth, isField⟩ := List.of_mem_zip inside
    have width : field.1 = 2 := by simpa [CurveSpec.widths, wide] using isWidth
    rw [width]
    exact fit field.2 isField)
  exact ⟨packed, by rw [packOffsets, done]⟩

theorem add_claim_of (spec : CurveSpec) (inlineIx : Int) (ixList : Option (List Listed)) (sm : SignedMessage) (blob packed : Bytes)
    (state first second third : Assembly) (identity signature message : Placed) (checked : checkClaim spec sm = .ok ())
    (signed : signatureBlob spec sm = .ok blob)
    (putIdentity : place inlineIx ixList sm.identity state sm.identityAt = .ok (identity, first))
    (putSignature : place inlineIx ixList blob first sm.signatureAt = .ok (signature, second))
    (putMessage : place inlineIx ixList sm.message second sm.messageAt = .ok (message, third))
    (isPacked : packOffsets spec
      ⟨signature.offset, identity.offset, message.offset, message.size, signature.ix, identity.ix, message.ix⟩ = .ok packed) :
    addClaim spec inlineIx ixList state sm = .ok { third with offsetStructs := third.offsetStructs ++ packed } := by
  simp only [addClaim, checked, signed, putIdentity, putSignature, putMessage, isPacked, bind, Except.bind, pure, Except.pure]

theorem build_of (spec : CurveSpec) (claims : List SignedMessage) (selfIndex : Nat) (ixList : Option (List Listed))
    (final : Assembly) (few : claims.length < 256)
    (folded : claims.foldlM (addClaim spec (spec.inlineIx.getD selfIndex : Nat) ixList) ⟨dataStart spec claims.length, [], []⟩ =
      .ok final) :
    ∃ data, buildInstructionData spec claims selfIndex ixList = .ok data ∧ data.head? = some (UInt8.ofNat claims.length) := by
  have counted : oneByte claims.length = .ok [UInt8.ofNat claims.length] := by
    rw [oneByte, if_pos (by omega), Int.toNat_natCast]
  refine ⟨[UInt8.ofNat claims.length] ++ (if spec.headerSize = 2 then [0] else []) ++ final.offsetStructs ++ final.body, ?_, rfl⟩
  simp only [buildInstructionData, folded, counted, bind, Except.bind, pure, Except.pure]

theorem sibling_assembled (count : Nat) (fits : count < 256 ^ 2) :
    ∃ data, siblingVerify.resolve (count + 1) (some (listedOf (behind count))) = .ok ⟨Curve.ed25519.spec.programId, [], data⟩ ∧
      data.head? = some 1 := by
  have placed : ∀ state, place currentInstruction (some (listedOf (behind count))) siblingClaim.message state siblingClaim.messageAt =
      .ok (⟨0, count, (1 : Nat)⟩, state) := by
    intro state
    change place currentInstruction (some (listedOf (behind count))) [5] state (.ref siblingRef) = _
    rw [place, sibling_resolved]
    rfl
  have sentinel : (currentInstruction : Int) < 256 ^ 2 := by decide
  have natural : 0 ≤ (currentInstruction : Int) := by decide
  obtain ⟨packed, isPacked⟩ := pack_wide Curve.ed25519.spec rfl
    ⟨(16 + 32 : Nat), (16 : Nat), 0, (1 : Nat), currentInstruction, currentInstruction, count⟩ (by
      intro field inside
      simp only [Offsets.fields, List.mem_cons, List.not_mem_nil, or_false] at inside
      omega)
  have added := add_claim_of Curve.ed25519.spec currentInstruction (some (listedOf (behind count))) siblingClaim
    (List.replicate 64 8) packed ⟨16, [], []⟩ _ _ _ _ _ _ rfl rfl rfl rfl (placed _) isPacked
  obtain ⟨data, built, first⟩ := build_of Curve.ed25519.spec [siblingClaim] (count + 1) (some (listedOf (behind count))) _
    (by decide) (by
      rw [List.foldlM_cons]
      exact bind_ok_iff _ _ _ |>.mpr ⟨_, added, rfl⟩)
  refine ⟨data, ?_, first⟩
  rw [PrecompileInstruction.resolve, siblingVerify, built]
  rfl

theorem behind_last (count : Nat) : (listedOf (behind count))[count + 1]? = some ⟨2, .deferred siblingVerify⟩ := by
  simp [listedOf, behind, Source.item]

theorem behind_materialized (count : Nat) (fits : count < 256 ^ 2) :
    ∃ out ix, materialize (listedOf (behind count)) = .ok out ∧ out[count + 1]? = some ix ∧ ix.data.head? = some 1 := by
  obtain ⟨data, assembled, first⟩ := sibling_assembled count fits
  have each : ∀ entry ∈ (listedOf (behind count)).zipIdx,
      ∃ ix, materializeItem (listedOf (behind count)) entry.2 entry.1.item = .ok ix := by
    rintro ⟨entry, position⟩ inside
    have found := List.mk_mem_zipIdx_iff_getElem?.mp inside
    by_cases early : position < count
    · have plain : entry = ⟨0, .instruction filler⟩ := by
        simpa [listedOf, behind, List.getElem?_append, early, Source.item, eq_comm] using found
      exact ⟨filler, by rw [plain]; rfl⟩
    · obtain ⟨beyond, rfl⟩ := Nat.exists_eq_add_of_le (not_lt.mp early)
      have last : [(⟨1, .instruction sibling⟩ : Listed), ⟨2, .deferred siblingVerify⟩][beyond]? = some entry := by
        simpa [listedOf, behind, List.getElem?_append, Source.item] using found
      match beyond, last with
      | 0, last =>
        cases last
        exact ⟨sibling, rfl⟩
      | 1, last =>
        cases last
        exact ⟨_, assembled⟩
  obtain ⟨out, done⟩ := map_m_total _ _ each
  obtain ⟨ix, isIx, materialized⟩ := (materialize_at _ out done).2 (count + 1) ⟨2, .deferred siblingVerify⟩
    (behind_last count)
  refine ⟨out, ix, done, isIx, ?_⟩
  have same : Except.ok ix = (.ok ⟨Curve.ed25519.spec.programId, [], data⟩ : Except PrecompileError Instruction) :=
    materialized.symm.trans assembled
  cases same
  exact first

end WakeSol.Precompile
