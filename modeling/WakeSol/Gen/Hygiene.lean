import WakeSol.Gen.Body
import WakeSol.Gen.Canonical

/- When the names of arguments and accounts leave the body of a builder method
   alone. -/
set_option autoImplicit false

namespace WakeSol.Gen

open TextLib RadixLib DictLib FallibleLib Codec WireLib Interface

section Contract

variable {python : Python} (b : EmittedBuilder python)

def slotOf (a : IxAccount) (given : MetaLike) : Slot := ⟨given, a.isSigner, a.isWritable, a.isOptional⟩

def EmittedBuilder.accountMetas (accounts remaining : List MetaLike) : Except Raised (List AccountMeta) := do
  let own ← buildMetas b.programId (List.zipWith slotOf b.ix.accounts accounts)
  let rest ← remaining.mapM asMeta
  return own ++ rest

def EmittedBuilder.Builds (values : List Value) : Prop :=
  ∀ accounts remaining metas, accounts.length = b.ix.accounts.length → b.accountMetas accounts remaining = .ok metas →
    ∃ raws, List.Forall₂ (fun (entry : Node × Value) raw => encode b.cache entry.2 entry.1 = .ok raw) (b.nodes.zip values) raws ∧
      b.call values accounts remaining = .ok (.instruction ⟨b.programId, metas, b.ix.discriminator ++ raws.flatten⟩)

structure CleanCall (values : List Value) : Prop where
  distinct : b.keys.Nodup
  debug : debugName ∉ b.keys
  functions : ∀ name ∈ [encodeIxLayoutName, buildMetasName, asMetaName, instructionClassName], name ∉ b.keys
  slot : b.ix.accounts ≠ [] → slotName ∉ b.keys
  layout : b.ix.args ≠ [] → python.spelled b.owner (layoutName b.ix) ∉ b.keys
  accounts : ∀ name ∈ [dataName, programIdName], name ∉ b.accountKeys
  program : ∀ value, (programIdName, value) ∈ b.argKeys.zip values → pubkeyOf value = .ok b.programId
  fits : ∀ value ∈ values, value.tagsFit = true

theorem slot_meta_from (programId : Address) (program : Obj) (isProgram : objPubkey program = .ok programId) (a : IxAccount)
    (given : MetaLike) :
    slotMetaFrom program (.slot (metaLikeObj given) a.isSigner a.isWritable a.isOptional) = slotMeta programId (slotOf a given) := by
  cases given with
  | accountMeta found => rfl
  | value found =>
    cases found with
    | none =>
      cases optional : a.isOptional with
      | false => simp [metaLikeObj, slotMetaFrom, slotMeta, slotOf, optional]
      | true =>
        simp only [metaLikeObj, slotMetaFrom, slotMeta, slotOf, optional, if_true, accountMetaFrom, isProgram]
        rfl
    | _ => rfl

theorem slots_metas (values : List Value) (accounts remaining : List MetaLike) (raw : Bytes) (free : dataName ∉ b.accountKeys)
    (isProgram : objPubkey (b.program values accounts remaining) = .ok b.programId) :
    (b.slots raw accounts).mapM (slotMetaFrom (b.program values accounts remaining)) =
      buildMetas b.programId (List.zipWith slotOf b.ix.accounts accounts) := by
  have plain : b.slots raw accounts = (b.ix.accounts.zip accounts).map fun pair =>
      .slot (metaLikeObj pair.2) pair.1.isSigner pair.1.isWritable pair.1.isOptional := by
    rw [EmittedBuilder.slots, ← List.map_uncurry_zip_eq_zipWith]
    refine List.map_congr_left fun pair inside => ?_
    have other : python.spelled b.owner (mangle pair.1.name) ≠ dataName := by
      intro same
      exact free (same ▸ List.mem_map_of_mem (f := fun a : IxAccount => python.spelled b.owner (mangle a.name))
        (List.of_mem_zip inside).1)
    simp [Function.uncurry, other]
  rw [plain, buildMetas, ← List.map_uncurry_zip_eq_zipWith, List.mapM_map, List.mapM_map]
  exact map_m_congr _ _ _ fun pair _ => slot_meta_from b.programId _ isProgram pair.1 pair.2

theorem parts_encode (env : Env) (levels : Nat) (nodes : List Node) (parts : List (Value × Bytes))
    (readable : List.Forall₂ (fun node part => Readable env levels node part.1 part.2) nodes parts) :
    List.Forall₂ (fun (entry : Node × Value) raw => encode env entry.2 entry.1 = .ok raw) (nodes.zip (parts.map Prod.fst))
      (parts.map Prod.snd) := by
  induction readable with
  | nil => exact .nil
  | @cons node part nodes parts first _ ih =>
    have emitted := wire_emits env levels node part.1 part.2 (part.1.height + 1) [] first.1 (Nat.lt_succ_self _) []
    refine .cons ?_ ih
    simp only [encode, emitted]
    rfl

section Call

variable (spelling : Spelling python) (values : List Value) (accounts remaining : List MetaLike)
  (valued : values.length = b.ix.args.length) (paired : accounts.length = b.ix.accounts.length)

include spelling valued paired

theorem program_cases :
    (∃ value, (programIdName, value) ∈ b.argKeys.zip values ∧ b.program values accounts remaining = .value value) ∨
    (∃ given, (programIdName, given) ∈ b.accountKeys.zip accounts ∧ b.program values accounts remaining = metaLikeObj given) ∨
    b.program values accounts remaining = .value (.pubkey b.programId) := by
  rw [EmittedBuilder.program]
  cases found : (b.locals values accounts remaining).lookup programIdName with
  | none => exact .inr (.inr rfl)
  | some obj =>
    have inside := lookup_mem _ _ _ found
    rw [locals_parts b values accounts remaining valued paired, spelled_plain python spelling b.owner clsName (by decide) (by decide),
      spelled_plain python spelling b.owner remainingName (by decide) (by decide), List.zip_map_right, List.zip_map_right] at inside
    rcases List.mem_cons.mp inside with isClass | later
    · cases isClass
    · rcases List.mem_append.mp later with isArg | later
      · obtain ⟨⟨key, value⟩, isPair, same⟩ := List.mem_map.mp isArg
        obtain ⟨isKey, isValue⟩ := Prod.mk.inj same
        exact .inl ⟨value, isKey ▸ isPair, isValue.symm⟩
      · rcases List.mem_append.mp later with isAccount | isLast
        · obtain ⟨⟨key, given⟩, isPair, same⟩ := List.mem_map.mp isAccount
          obtain ⟨isKey, isGiven⟩ := Prod.mk.inj same
          exact .inr (.inl ⟨given, isKey ▸ isPair, isGiven.symm⟩)
        · cases List.mem_singleton.mp isLast

theorem clean_program (clean : CleanCall b values) : objPubkey (b.program values accounts remaining) = .ok b.programId := by
  rcases program_cases b spelling values accounts remaining valued paired with ⟨value, isArg, same⟩ | ⟨given, isAccount, _⟩ | same
  · rw [same]
    exact clean.program value isArg
  · exact absurd (List.of_mem_zip isAccount).1 (clean.accounts programIdName (by simp))
  · rw [same]
    rfl

end Call

theorem clean_builds (spelling : Spelling python) (levels : Nat) (values : List Value)
    (typed : List.Forall₂ (Typed b.cache levels) b.nodes values) (clean : CleanCall b values) : b.Builds values := by
  intro accounts remaining metas paired isMetas
  have valued : values.length = b.ix.args.length := by rw [← typed.length_eq, (builder_sizes b).2.2]
  have isProgram := clean_program b spelling values accounts remaining valued paired clean
  obtain ⟨parts, rfl, readable, encoded⟩ := (layout_emits b.cache levels b.nodes values typed b.ix.discriminator).1
    ((all_tags_fit_iff values).mpr clean.fits)
  obtain ⟨own, isOwn, isMetas⟩ := bind_ok _ _ _ isMetas
  obtain ⟨rest, isRest, isMetas⟩ := bind_ok _ _ _ isMetas
  cases isMetas
  refine ⟨parts.map Prod.snd, parts_encode b.cache levels b.nodes parts readable, ?_⟩
  have allowed : ¬ (¬ b.keys.Nodup ∨ debugName ∈ b.keys) := by simp [clean.distinct, clean.debug]
  rw [call_runs b _ accounts remaining valued paired, if_neg allowed,
    run_iff b _ accounts remaining valued paired spelling clean.distinct]
  have free : FreeNames b remaining := ⟨clean.functions _ (by simp), clean.layout, clean.functions _ (by simp), clean.slot,
    fun _ => clean.functions _ (by simp), clean.functions _ (by simp)⟩
  refine ⟨free, _, own, rest, b.programId, encoded, ?_, isRest, isProgram, rfl⟩
  rw [slots_metas b _ accounts remaining _ (clean.accounts dataName (by simp)) isProgram]
  exact isOwn

theorem zip_with_replicate {α β γ : Type} (join : α → β → γ) (items : List α) (same : β) :
    List.zipWith join items (List.replicate items.length same) = items.map fun item => join item same := by
  induction items with
  | nil => rfl
  | cons item rest ih => rw [List.length_cons, List.replicate_succ, List.zipWith_cons_cons, ih, List.map_cons]

def everyAccount (key : Address) : List MetaLike := List.replicate b.ix.accounts.length (.value (.pubkey key))

theorem every_account_metas (key : Address) :
    b.accountMetas (everyAccount b key) [.value (.pubkey key)] =
      .ok (b.ix.accounts.map (fun a => ⟨key, a.isSigner, a.isWritable⟩) ++ [⟨key, false, false⟩]) := by
  have slots : List.zipWith slotOf b.ix.accounts (everyAccount b key) = b.ix.accounts.map fun a => slotOf a (.value (.pubkey key)) :=
    zip_with_replicate slotOf b.ix.accounts _
  have own : buildMetas b.programId (List.zipWith slotOf b.ix.accounts (everyAccount b key)) =
      .ok (b.ix.accounts.map fun a => ⟨key, a.isSigner, a.isWritable⟩) := by
    rw [slots, buildMetas]
    refine map_m_of _ _ _ ?_
    rw [List.forall₂_map_left_iff, List.forall₂_map_right_iff]
    exact List.forall₂_same.mpr fun a _ => rfl
  rw [EmittedBuilder.accountMetas, own]
  rfl

structure Shown (values : List Value) (key : Address) : Prop where
  distinct : b.keys.Nodup
  debug : debugName ∉ b.keys
  free : FreeNames b [.value (.pubkey key)]
  program : objPubkey (b.program values (everyAccount b key) [.value (.pubkey key)]) = .ok b.programId
  metas : ∃ raw, encodeIxLayout b.cache b.ix.discriminator b.nodes values = .ok raw ∧
    (b.slots raw (everyAccount b key)).mapM (slotMetaFrom (b.program values (everyAccount b key) [.value (.pubkey key)])) =
      .ok (b.ix.accounts.map fun a => ⟨key, a.isSigner, a.isWritable⟩)

theorem every_account_paired (key : Address) : (everyAccount b key).length = b.ix.accounts.length := List.length_replicate

section Shown

variable (spelling : Spelling python) (values : List Value) (valued : values.length = b.ix.args.length)

include valued

include spelling in
theorem builds_shown (builds : b.Builds values) (key : Address) : Shown b values key := by
  have paired := every_account_paired b key
  obtain ⟨raws, _, called⟩ := builds (everyAccount b key) [.value (.pubkey key)] _ paired (every_account_metas b key)
  rw [call_runs b values _ _ valued paired] at called
  by_cases refused : ¬ b.keys.Nodup ∨ debugName ∈ b.keys
  · rw [if_pos refused] at called
    cases called
  · rw [if_neg refused] at called
    obtain ⟨repeated, debug⟩ := not_or.mp refused
    have distinct := not_not.mp repeated
    obtain ⟨free, raw, own, rest, other, encoded, isOwn, isRest, isKey, same⟩ :=
      (run_iff b values _ _ valued paired spelling distinct _).mp called
    cases isRest
    injection same with same
    injection same with isProgram isMetas isData
    refine ⟨distinct, debug, free, by rw [isProgram]; exact isKey, raw, encoded, ?_⟩
    rw [isOwn, List.append_inj_left' isMetas rfl]

-- An account called data is built from the data of the instruction.
omit valued in
theorem data_account (key : Address) (shown : Shown b values key) (isAccount : dataName ∈ b.accountKeys) :
    ∃ raw, encodeIxLayout b.cache b.ix.discriminator b.nodes values = .ok raw ∧ pubkeyOf (.bytes raw) = .ok key := by
  obtain ⟨raw, encoded, isMetas⟩ := shown.metas
  obtain ⟨a, inside, named⟩ := List.mem_map.mp isAccount
  rw [EmittedBuilder.slots, everyAccount, zip_with_replicate] at isMetas
  have each := map_m_ok _ _ _ isMetas
  rw [List.forall₂_map_left_iff, List.forall₂_map_right_iff, List.forall₂_same] at each
  have own := each a inside
  rw [if_pos named] at own
  obtain ⟨found, isFound, same⟩ := map_ok _ _ _ own
  cases same
  exact ⟨raw, encoded, isFound⟩

theorem program_account (key : Address) (shown : Shown b values key) (isAccount : programIdName ∈ b.accountKeys) :
    key = b.programId := by
  have paired := every_account_paired b key
  have inside : (programIdName, Obj.value (.pubkey key)) ∈ b.locals values (everyAccount b key) [.value (.pubkey key)] := by
    rw [locals_parts b values _ _ valued paired, everyAccount, List.map_replicate]
    refine List.mem_cons_of_mem _ (List.mem_append_right _ (List.mem_append_left _ ?_))
    have size : b.ix.accounts.length = b.accountKeys.length := by rw [EmittedBuilder.accountKeys, List.length_map]
    rw [size, List.zip, zip_with_replicate]
    exact List.mem_map.mpr ⟨programIdName, isAccount, rfl⟩
  have program := shown.program
  rw [EmittedBuilder.program, local_found b values _ _ valued paired shown.distinct _ _ inside] at program
  exact Except.ok.inj program

theorem program_argument (key : Address) (shown : Shown b values key) (value : Value)
    (isArg : (programIdName, value) ∈ b.argKeys.zip values) : pubkeyOf value = .ok b.programId := by
  have paired := every_account_paired b key
  have inside : (programIdName, Obj.value value) ∈ b.locals values (everyAccount b key) [.value (.pubkey key)] := by
    rw [locals_parts b values _ _ valued paired]
    refine List.mem_cons_of_mem _ (List.mem_append_left _ ?_)
    rw [List.zip_map_right]
    exact List.mem_map.mpr ⟨_, isArg, rfl⟩
  have program := shown.program
  rw [EmittedBuilder.program, local_found b values _ _ valued paired shown.distinct _ _ inside] at program
  exact program

end Shown

theorem builds_clean (spelling : Spelling python) (levels : Nat) (values : List Value)
    (typed : List.Forall₂ (Typed b.cache levels) b.nodes values) (builds : b.Builds values) : CleanCall b values := by
  have valued : values.length = b.ix.args.length := by rw [← typed.length_eq, (builder_sizes b).2.2]
  have shown := builds_shown b spelling values valued builds
  have first := shown (Address.fill 0)
  have second := shown (Address.fill 1)
  have different : Address.fill 0 ≠ Address.fill 1 := by decide
  have free := first.free
  refine ⟨first.distinct, first.debug, ?_, free.slot, free.layout, ?_, program_argument b values valued _ first, ?_⟩
  · simp only [List.forall_mem_cons, List.not_mem_nil, false_implies, implies_true, and_true]
    exact ⟨free.encode, free.metas, free.rest (by simp), free.instruction⟩
  · simp only [List.forall_mem_cons, List.not_mem_nil, false_implies, implies_true, and_true]
    constructor
    · intro isAccount
      obtain ⟨raw, encoded, isFirst⟩ := data_account b values _ first isAccount
      obtain ⟨other, encodedOther, isSecond⟩ := data_account b values _ second isAccount
      rw [encoded] at encodedOther
      cases encodedOther
      rw [isFirst] at isSecond
      exact different (Except.ok.inj isSecond)
    · intro isAccount
      exact different ((program_account b values valued _ first isAccount).trans (program_account b values valued _ second isAccount).symm)
  · obtain ⟨raw, encoded, _⟩ := first.metas
    cases fits : allTagsFit values with
    | true => exact (all_tags_fit_iff values).mp fits
    | false =>
      obtain ⟨e, failed⟩ := (layout_emits b.cache levels b.nodes values typed b.ix.discriminator).2 fits
      rw [encoded] at failed
      cases failed

theorem builder_hygienic (spelling : Spelling python) (levels : Nat) (values : List Value)
    (typed : List.Forall₂ (Typed b.cache levels) b.nodes values) : b.Builds values ↔ CleanCall b values :=
  ⟨builds_clean b spelling levels values typed, clean_builds b spelling levels values typed⟩

end Contract

theorem plain_spelling : Spelling plainPython := ⟨fun _ _ _ _ => rfl, fun _ _ starts => starts⟩

def amountParam : Name := ['a', 'm', 'o', 'u', 'n', 't']

def vaultParam : Name := ['v', 'a', 'u', 'l', 't']

def depositIx (account : Name) : Instruction where
  name := ['d', 'e', 'p', 'o', 's', 'i', 't']
  discriminator := [1, 2, 3, 4, 5, 6, 7, 8]
  args := [(amountParam, .scalar u8Name)]
  accounts := [⟨account, false, true, false, none⟩]
  returns := none

def depositMethod (account : Name) : Method :=
  ⟨(depositIx account).name, (depositIx account).name, (depositIx account).discriminator, [(amountParam, .name u8Name)],
    [mangle account, remainingName], none, methodBody (depositIx account)⟩

theorem deposit_grown : Grown [] [] [] [] := grown_refl [] [] []

def depositBuilder (account : Name) (emits : emitInstruction plainPython (depositIx account) = .ok (depositMethod account)) :
    EmittedBuilder plainPython where
  ix := depositIx account
  method := depositMethod account
  emits := emits
  owner := ['B', 'a', 'n', 'k']
  programId := Address.fill 9
  scope := moduleScope []
  anns := [.intAlias 1 false]
  evaluates := rfl
  table := []
  place := []
  before := []
  imported := []
  nodes := [.int 1 false]
  compiles := rfl
  cache := []
  grown := deposit_grown

theorem deposit_builds : (depositBuilder vaultParam rfl).Builds [.int 5] := by
  refine (builder_hygienic (depositBuilder vaultParam rfl) plain_spelling 1 [.int 5] (.cons ⟨5, rfl, by decide⟩ .nil)).mpr ?_
  exact ⟨by decide, by decide, by decide, fun _ => by decide, fun _ => by decide, by decide,
    fun value inside => absurd (List.of_mem_zip inside).1 (by decide), by decide⟩

theorem data_account_lost :
    (depositBuilder dataName rfl).accountMetas [.value (.pubkey (Address.fill 7))] [] = .ok [⟨Address.fill 7, false, true⟩] ∧
    (depositBuilder dataName rfl).call [.int 5] [.value (.pubkey (Address.fill 7))] [] = .error .valueError :=
  ⟨rfl, rfl⟩

end WakeSol.Gen
