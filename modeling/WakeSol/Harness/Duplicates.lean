import WakeSol.Harness.Signing

/- The history of processed transactions is keyed by their first signatures. Two
   transactions of payers without a key carry the same placeholder there. -/
set_option autoImplicit false

namespace WakeSol.Harness

open TextLib TallyLib RadixLib FallibleLib Forking

section Transactions

variable {R ι M : Type} (platform : Platform R) (sdk : Sdk ι M) (engine : Engine) (sign : Keypair → Bytes → Bytes)

-- Signatures over different messages differ, whoever signs, and none is all zero.
structure DistinctSignatures : Prop where
  differ : ∀ left right (first second : M), first ≠ second → sign left (sdk.serialize first) ≠ sign right (sdk.serialize second)
  nonzero : ∀ keypair bytes, sign keypair bytes ≠ placeholder

theorem compiled_payer (svm after : Svm) (payer : Address) (ixs : List ι) (tables : List Address) (message : M)
    (compiled : compileMessage sdk engine svm payer ixs tables = (after, .ok message)) :
    ∃ others, required sdk message = payer :: others := by
  have first : (required sdk message).head? = some payer := by
    rw [compileMessage] at compiled
    split at compiled
    · cases compiled
      exact sdk.legacyPayer ixs payer svm.latestBlockhash
    · dsimp only at compiled
      split at compiled
      · cases compiled
      · split at compiled
        · cases compiled
        · split at compiled
          · cases compiled
          · rename_i done
            cases compiled
            exact sdk.tablesPayer payer ixs _ svm.latestBlockhash message done
  exact ⟨_, List.eq_cons_of_mem_head? (by simpa using first)⟩

-- The first slot is the fee payer's, and no other account's key is tried for it.
theorem first_slot (state : State R) (svm after : Svm) (payer : Handle) (ixs : List ι) (signers : List Handle)
    (tables : List Address) (sigverify history : Bool) (tx : VersionedTransaction M) (signing : sigverify ∨ history)
    (built : buildSignedTx platform sdk engine sign state svm payer ixs signers tables sigverify history = (after, .ok tx)) :
    ∃ signature, tx.signatures.head? = some signature ∧
      ((payer.keypair = none ∧ signature = placeholder) ∨
        payer.keypair ≠ none ∧ ∃ keypair, signature = sign keypair (sdk.serialize tx.message)) := by
  obtain ⟨compiled, signed⟩ := built_signed platform sdk engine sign state svm after payer ixs signers tables sigverify history tx
    signing built
  obtain ⟨others, slots⟩ := compiled_payer sdk engine svm after payer.address ixs tables tx.message compiled
  have each := map_m_ok _ _ _ signed
  rw [slots] at each
  cases signatures : tx.signatures with
  | nil =>
    rw [signatures] at each
    cases each
  | cons signature rest =>
    rw [signatures] at each
    obtain ⟨slot, _⟩ := List.forall₂_cons.mp each
    rw [signingSecret, if_pos rfl] at slot
    refine ⟨signature, rfl, ?_⟩
    cases held : payer.keypair with
    | none =>
      rw [held, signSlot] at slot
      split at slot
      · cases slot
      · cases slot
        exact .inl ⟨rfl, rfl⟩
    | some secret =>
      refine .inr ⟨by simp, ?_⟩
      cases accepted : platform.readKeypair secret with
      | error text => simp [held, signSlot, accepted] at slot
      | ok keypair =>
        have same : sign keypair (sdk.serialize tx.message) = signature := by simpa [held, signSlot, accepted] using slot
        exact ⟨keypair, same.symm⟩

def processed (history : List Bytes) (tx : VersionedTransaction M) : List Bytes := history ++ tx.signatures.head?.toList

def alreadyProcessed (history : List Bytes) (tx : VersionedTransaction M) : Prop :=
  ∃ signature, tx.signatures.head? = some signature ∧ signature ∈ history

theorem false_duplicate_iff (distinct : DistinctSignatures sdk sign) (state other : State R) (svm after otherSvm otherAfter : Svm)
    (payer otherPayer : Handle) (ixs otherIxs : List ι) (signers otherSigners : List Handle) (tables otherTables : List Address)
    (sigverify otherVerify : Bool) (tx otherTx : VersionedTransaction M)
    (built : buildSignedTx platform sdk engine sign state svm payer ixs signers tables sigverify true = (after, .ok tx))
    (otherBuilt : buildSignedTx platform sdk engine sign other otherSvm otherPayer otherIxs otherSigners otherTables otherVerify true =
      (otherAfter, .ok otherTx)) (different : tx.message ≠ otherTx.message) (history : List Bytes) :
    (tx.signatures.head? = otherTx.signatures.head? ↔ payer.keypair = none ∧ otherPayer.keypair = none) ∧
      (alreadyProcessed (processed history tx) otherTx ↔
        alreadyProcessed history otherTx ∨ payer.keypair = none ∧ otherPayer.keypair = none) := by
  obtain ⟨first, isFirst, firstKind⟩ := first_slot platform sdk engine sign state svm after payer ixs signers tables sigverify true
    tx (.inr rfl) built
  obtain ⟨second, isSecond, secondKind⟩ := first_slot platform sdk engine sign other otherSvm otherAfter otherPayer otherIxs
    otherSigners otherTables otherVerify true otherTx (.inr rfl) otherBuilt
  have same : first = second ↔ payer.keypair = none ∧ otherPayer.keypair = none := by
    rcases firstKind with ⟨keyless, rfl⟩ | ⟨held, keypair, rfl⟩
    · rcases secondKind with ⟨otherKeyless, rfl⟩ | ⟨otherHeld, otherKey, rfl⟩
      · simp [keyless, otherKeyless]
      · simp only [otherHeld, and_false, iff_false]
        exact fun zero => distinct.nonzero _ _ zero.symm
    · simp only [held, false_and, iff_false]
      rcases secondKind with ⟨otherKeyless, rfl⟩ | ⟨otherHeld, otherKey, rfl⟩
      · exact distinct.nonzero _ _
      · exact distinct.differ keypair otherKey _ _ different
  rw [← same]
  constructor
  · rw [isFirst, isSecond, Option.some.injEq]
  · simp only [alreadyProcessed, processed, isFirst, isSecond, Option.toList_some, List.mem_append, List.mem_singleton,
      Option.some.injEq, exists_eq_left']
    rw [eq_comm]

end Transactions

theorem plain_distinct : DistinctSignatures payerSdk fun _ bytes => 1 :: bytes := by
  constructor
  · intro _ _ first second different same
    obtain ⟨payers, data⟩ := List.append_inj (List.cons.inj same).2 (first.1.size.trans second.1.size.symm)
    cases first with
    | mk payer content =>
      cases second with
      | mk otherPayer otherContent =>
        cases payer
        cases otherPayer
        cases payers
        cases data
        exact different rfl
  · intro _ _ zero
    cases zero

theorem false_duplicate_keyless :
    (buildSignedTx copyPlatform payerSdk blankEngine (fun _ bytes => 1 :: bytes) (.start plainSvm 0) blankSvm ⟨.fill 9, none⟩ [[1]] []
        [] false true = (blankSvm, .ok ⟨[placeholder], (.fill 9, [1])⟩)) ∧
      (alreadyProcessed (processed [] ⟨[placeholder], (Address.fill 9, ([1] : Bytes))⟩)
          (⟨[placeholder], (Address.fill 9, [2])⟩ : VersionedTransaction (Address × Bytes)) ↔
        alreadyProcessed [] (⟨[placeholder], (Address.fill 9, [2])⟩ : VersionedTransaction (Address × Bytes)) ∨
          (none : Option Bytes) = none ∧ (none : Option Bytes) = none) :=
  ⟨rfl, (false_duplicate_iff copyPlatform payerSdk blankEngine (fun _ bytes => 1 :: bytes) plain_distinct (.start plainSvm 0)
    (.start plainSvm 0) blankSvm blankSvm blankSvm blankSvm ⟨.fill 9, none⟩ ⟨.fill 9, none⟩ [[1]] [[2]] [] [] [] [] false false
    ⟨[placeholder], (.fill 9, [1])⟩ ⟨[placeholder], (.fill 9, [2])⟩ rfl rfl (by simp) []).2⟩

-- A keyless payer with signature verification off: both transactions carry the
-- placeholder first, and the second is taken for the first.
theorem keyless_duplicate :
    ∃ first second : VersionedTransaction (Address × Bytes),
      buildSignedTx copyPlatform payerSdk blankEngine plainSign (.start plainSvm 0) blankSvm ⟨.fill 9, none⟩ [[1]] [] [] false true =
          (blankSvm, .ok first) ∧
        buildSignedTx copyPlatform payerSdk blankEngine plainSign (.start plainSvm 0) blankSvm ⟨.fill 9, none⟩ [[2]] [] [] false
          true = (blankSvm, .ok second) ∧
        first.message ≠ second.message ∧ first.signatures.head? = second.signatures.head? ∧
        alreadyProcessed (processed [] first) second := by
  refine ⟨⟨[placeholder], (.fill 9, [1])⟩, ⟨[placeholder], (.fill 9, [2])⟩, rfl, rfl, by simp, rfl, placeholder, rfl, ?_⟩
  exact List.mem_singleton_self placeholder

end WakeSol.Harness
