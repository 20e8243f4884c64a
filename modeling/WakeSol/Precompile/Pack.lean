import WakeSol.Precompile.RoundTrip

/- The raw form of a precompile instruction, and what verify returns against it. -/
set_option autoImplicit false

namespace WakeSol.Precompile

open RadixLib EndianLib PackedLib FallibleLib

-- The count is written as it is given, whatever the number of entries.
def pack (spec : CurveSpec) (count : Int) (entries : List Offsets) (data : Bytes) : Except PrecompileError Instruction := do
  let packed ← entries.mapM (packOffsets spec)
  let header := UInt8.ofNat (count % 256).toNat :: if spec.headerSize = 2 then [0] else []
  return ⟨spec.programId, [], header ++ packed.flatten ++ data⟩

variable (spec : CurveSpec) (claims : List SignedMessage)

theorem new_holds (deferred : PrecompileInstruction) (made : PrecompileInstruction.new spec claims = .ok deferred) :
    deferred.spec = spec ∧ deferred.claims = claims := by
  rw [PrecompileInstruction.new] at made
  split at made
  · cases made
  · cases made
    exact ⟨rfl, rfl⟩

theorem new_passes (passed : checkAll spec claims = .ok ()) : ∃ deferred, PrecompileInstruction.new spec claims = .ok deferred := by
  rw [PrecompileInstruction.new]
  split
  · rename_i failed
    rw [passed] at failed
    cases failed
  · exact ⟨_, rfl⟩

theorem add_claim_inline (inlineIx : Int) (left right : Option (List Listed)) (state : Assembly) (sm : SignedMessage)
    (inline : sm.identityAt = .inline ∧ sm.signatureAt = .inline ∧ sm.messageAt = .inline) :
    addClaim spec inlineIx left state sm = addClaim spec inlineIx right state sm := by
  rw [addClaim, addClaim, inline.1, inline.2.1, inline.2.2]
  rfl

theorem fold_inline (inlineIx : Int) (left right : Option (List Listed)) (state : Assembly) (none : hasRefs claims = false) :
    claims.foldlM (addClaim spec inlineIx left) state = claims.foldlM (addClaim spec inlineIx right) state := by
  have inline := inline_refs claims none
  clear none
  induction claims generalizing state with
  | nil => rfl
  | cons sm rest ih =>
    rw [List.foldlM_cons, List.foldlM_cons, add_claim_inline spec inlineIx left right state sm (inline sm (by simp))]
    congr 1
    funext next
    exact ih next fun other inside => inline other (by simp [inside])

theorem inline_data (sentinel : spec.inlineIx.isSome = true) (none : hasRefs claims = false) (position : Nat) (ixs : List Listed) :
    buildInstructionData spec claims 0 .none = buildInstructionData spec claims position (some ixs) := by
  obtain ⟨inlineIx, isInline⟩ := Option.isSome_iff_exists.mp sentinel
  rw [buildInstructionData, buildInstructionData, isInline, Option.getD_some, Option.getD_some,
    fold_inline spec claims inlineIx .none (some ixs) _ none]

theorem data_packed (selfIndex : Nat) (ixList : Option (List Listed)) (data : Bytes)
    (done : buildInstructionData spec claims selfIndex ixList = .ok data) :
    ∃ entries body,
      List.Forall₂ (Described spec (dataStart spec claims.length) body (spec.inlineIx.getD selfIndex) ixList) claims entries ∧
      pack spec claims.length entries body = .ok ⟨spec.programId, [], data⟩ := by
  obtain ⟨final, folded, done⟩ := bind_ok _ _ _ done
  obtain ⟨count, counted, done⟩ := bind_ok _ _ _ done
  obtain ⟨entries, packed, _, each, structs, _, described, _⟩ :=
    claims_described spec (dataStart spec claims.length) _ ixList claims _ final ⟨by simp⟩ folded
  refine ⟨entries, final.body, described, ?_⟩
  rw [oneByte] at counted
  split at counted
  · rename_i range
    cases counted
    cases done
    rw [pack, map_m_of _ _ _ each, structs, Int.emod_eq_of_lt range.1 range.2]
    rfl
  · cases counted

-- Every result of verify could have been written by hand.
theorem verified_packed (item : Item) (built : buildVerify spec claims = .ok item) (ixs : List Listed) (position : Nat)
    (ix : Instruction) (materialized : materializeItem ixs position item = .ok ix) :
    ∃ entries body,
      List.Forall₂ (Described spec (dataStart spec claims.length) body (spec.inlineIx.getD position) (some ixs)) claims entries ∧
      pack spec claims.length entries body = .ok ix := by
  rw [buildVerify] at built
  split at built
  · obtain ⟨deferred, made, rfl⟩ := map_ok _ _ _ built
    obtain ⟨rfl, rfl⟩ := new_holds spec claims deferred made
    obtain ⟨data, done, rfl⟩ := map_ok _ _ _ materialized
    exact data_packed _ _ position (some ixs) data done
  · rename_i plain
    rw [not_or] at plain
    obtain ⟨data, done, rfl⟩ := map_ok _ _ _ built
    cases materialized
    rw [inline_data spec claims (Option.isSome_iff_ne_none.mpr plain.1) (by simpa using plain.2) position ixs] at done
    exact data_packed spec claims position (some ixs) data done

theorem sibling_packed : ∃ ix entries body, siblingVerify.resolve 1 (some (listedOf (behind 0))) = .ok ix ∧
    List.Forall₂ (Described Curve.ed25519.spec 16 body 65535 (some (listedOf (behind 0)))) [siblingClaim] entries ∧
    pack Curve.ed25519.spec 1 entries body = .ok ix := by
  obtain ⟨data, assembled, _⟩ := sibling_assembled 0 (by decide)
  obtain ⟨entries, body, described, packed⟩ := verified_packed Curve.ed25519.spec [siblingClaim] _ sibling_built _ 1 _ assembled
  exact ⟨_, entries, body, assembled, described, packed⟩

theorem fold_checked (inlineIx : Int) (ixList : Option (List Listed)) (state final : Assembly)
    (done : claims.foldlM (addClaim spec inlineIx ixList) state = .ok final) : checkAll spec claims = .ok () := by
  induction claims generalizing state with
  | nil => rfl
  | cons sm rest ih =>
    rw [List.foldlM_cons] at done
    obtain ⟨next, added, later⟩ := bind_ok _ _ _ done
    obtain ⟨_, checked, added⟩ := bind_ok _ _ _ added
    obtain ⟨blob, signed, _⟩ := bind_ok _ _ _ added
    rw [checkAll, checked, signed]
    exact ih next later

-- What verify returns at once is what it would become at any place of any list.
theorem verify_at_once_iff (sentinel : spec.inlineIx.isSome = true) (none : hasRefs claims = false) (ix : Instruction)
    (position : Nat) (ixs : List Listed) :
    buildVerify spec claims = .ok (.instruction ix) ↔
      ∃ deferred, PrecompileInstruction.new spec claims = .ok deferred ∧ deferred.resolve position (some ixs) = .ok ix := by
  obtain ⟨inlineIx, isInline⟩ := Option.isSome_iff_exists.mp sentinel
  rw [buildVerify, if_neg (by simp [isInline, none]), inline_data spec claims sentinel none position ixs]
  constructor
  · intro built
    obtain ⟨data, done, isIx⟩ := map_ok _ _ _ built
    obtain ⟨final, folded, _⟩ := bind_ok _ _ _ done
    obtain ⟨deferred, made⟩ := new_passes spec claims (fold_checked spec claims _ _ _ final folded)
    obtain ⟨rfl, rfl⟩ := new_holds spec claims deferred made
    refine ⟨deferred, made, ?_⟩
    rw [PrecompileInstruction.resolve, done, Item.instruction.inj isIx]
    rfl
  · rintro ⟨deferred, made, resolved⟩
    obtain ⟨rfl, rfl⟩ := new_holds spec claims deferred made
    obtain ⟨data, done, rfl⟩ := map_ok _ _ _ resolved
    rw [done]
    rfl

def inlineClaim : SignedMessage := { siblingClaim with messageAt := .inline }

theorem inline_verify_anywhere : ∃ ix deferred, buildVerify Curve.ed25519.spec [inlineClaim] = .ok (.instruction ix) ∧
    PrecompileInstruction.new Curve.ed25519.spec [inlineClaim] = .ok deferred ∧ deferred.resolve 3 (some []) = .ok ix := by
  have built : ∃ ix, buildVerify Curve.ed25519.spec [inlineClaim] = .ok (.instruction ix) := ⟨_, rfl⟩
  obtain ⟨ix, built⟩ := built
  obtain ⟨deferred, made, resolved⟩ := (verify_at_once_iff Curve.ed25519.spec [inlineClaim] rfl rfl ix 3 []).mp built
  exact ⟨ix, deferred, built, made, resolved⟩

end WakeSol.Precompile
