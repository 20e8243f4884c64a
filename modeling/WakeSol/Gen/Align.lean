import Mathlib.Data.List.Lex
import Mathlib.Data.List.Sort
import WakeSol.Gen.Reflect

/- Where the accounts of an instruction stand: the leaves of the accounts tree in
   depth-first order, then the remaining accounts, and the names a decoder gives
   them. -/
set_option autoImplicit false

namespace WakeSol.Gen

open TextLib RadixLib DictLib FallibleLib Codec WireLib Interface

section Paths

mutual

def AccountItem.leafAt : AccountItem → List Nat → Option RawAccount
  | .leaf account, [] => some account
  | .leaf _, _ :: _ => none
  | .group _, [] => none
  | .group items, i :: path => leafIn items i path

def leafIn : List AccountItem → Nat → List Nat → Option RawAccount
  | [], _, _ => none
  | item :: _, 0, path => item.leafAt path
  | _ :: rest, i + 1, path => leafIn rest i path

end

def accountAt (tree : List AccountItem) : List Nat → Option RawAccount
  | [] => none
  | i :: path => leafIn tree i path

abbrev Earlier : List Nat → List Nat → Prop := List.Lex (· < ·)

structure DepthFirst (tree : List AccountItem) (paths : List (List Nat)) : Prop where
  ordered : paths.Pairwise Earlier
  complete : ∀ path, path ∈ paths ↔ (accountAt tree path).isSome = true

mutual

def AccountItem.paths : AccountItem → List (List Nat)
  | .leaf _ => [[]]
  | .group items => pathsFrom 0 items

def pathsFrom (i : Nat) : List AccountItem → List (List Nat)
  | [] => []
  | item :: rest => item.paths.map (i :: ·) ++ pathsFrom (i + 1) rest

end

theorem paths_from_above (items : List AccountItem) (i : Nat) (path : List Nat) (inside : path ∈ pathsFrom i items) :
    ∃ j rest, path = (i + j) :: rest := by
  induction items generalizing i with
  | nil => cases inside
  | cons item others ih =>
    rw [pathsFrom, List.mem_append] at inside
    rcases inside with here | later
    · obtain ⟨rest, _, same⟩ := List.mem_map.mp here
      exact ⟨0, rest, same.symm⟩
    · obtain ⟨j, rest, same⟩ := ih (i + 1) later
      exact ⟨j + 1, rest, by rw [same, Nat.add_assoc, Nat.add_comm 1 j]⟩

mutual

theorem paths_ordered : ∀ item : AccountItem, item.paths.Pairwise Earlier
  | .leaf _ => List.pairwise_singleton _ _
  | .group items => paths_from_ordered items 0

theorem paths_from_ordered : ∀ (items : List AccountItem) (i : Nat), (pathsFrom i items).Pairwise Earlier
  | [], _ => .nil
  | item :: rest, i => by
      rw [pathsFrom, List.pairwise_append]
      refine ⟨?_, paths_from_ordered rest (i + 1), ?_⟩
      · rw [List.pairwise_map]
        exact (paths_ordered item).imp fun earlier => .cons earlier
      · intro first inside second later
        obtain ⟨path, _, rfl⟩ := List.mem_map.mp inside
        obtain ⟨j, other, rfl⟩ := paths_from_above rest (i + 1) second later
        exact .rel (by omega)

end

mutual

theorem paths_complete : ∀ (item : AccountItem) (path : List Nat), path ∈ item.paths ↔ (item.leafAt path).isSome = true
  | .leaf account, [] => by simp [AccountItem.paths, AccountItem.leafAt]
  | .leaf account, i :: path => by simp [AccountItem.paths, AccountItem.leafAt]
  | .group items, [] => by
      simp only [AccountItem.paths, AccountItem.leafAt, Option.isSome_none, Bool.false_eq_true, iff_false]
      intro inside
      obtain ⟨j, rest, same⟩ := paths_from_above items 0 [] inside
      cases same
  | .group items, i :: path => by
      rw [AccountItem.paths, AccountItem.leafAt, ← paths_from_complete items 0 i path, Nat.zero_add]

theorem paths_from_complete : ∀ (items : List AccountItem) (i j : Nat) (path : List Nat),
    (i + j) :: path ∈ pathsFrom i items ↔ (leafIn items j path).isSome = true
  | [], i, j, path => by simp [pathsFrom, leafIn]
  | item :: rest, i, 0, path => by
      have later : i :: path ∉ pathsFrom (i + 1) rest := by
        intro inside
        obtain ⟨j, other, same⟩ := paths_from_above rest (i + 1) _ inside
        have := (List.cons.inj same).1
        omega
      rw [pathsFrom, leafIn, ← paths_complete item path]
      simp [later]
  | item :: rest, i, j + 1, path => by
      have shifted : i + (j + 1) = i + 1 + j := by omega
      rw [pathsFrom, leafIn, ← paths_from_complete rest (i + 1) j path, shifted, List.mem_append]
      refine or_iff_right ?_
      intro inside
      obtain ⟨other, _, same⟩ := List.mem_map.mp inside
      have := (List.cons.inj same).1
      omega

end

theorem paths_depth_first (tree : List AccountItem) : DepthFirst tree (pathsFrom 0 tree) := by
  refine ⟨paths_from_ordered tree 0, fun path => ?_⟩
  cases path with
  | nil =>
    simp only [accountAt, Option.isSome_none, Bool.false_eq_true, iff_false]
    intro inside
    obtain ⟨j, rest, same⟩ := paths_from_above tree 0 [] inside
    cases same
  | cons i path => rw [accountAt, ← paths_from_complete tree 0 i path, Nat.zero_add]

theorem depth_first_unique (tree : List AccountItem) (paths others : List (List Nat)) (first : DepthFirst tree paths)
    (second : DepthFirst tree others) : paths = others := by
  have apart : ∀ paths : List (List Nat), paths.Pairwise Earlier → paths.Nodup := by
    intro paths ordered
    refine List.Pairwise.imp (fun earlier same => ?_) ordered
    rw [same] at earlier
    exact asymm earlier earlier
  have members : paths.Perm others := by
    rw [List.perm_ext_iff_of_nodup (apart paths first.ordered) (apart others second.ordered)]
    intro path
    rw [first.complete, second.complete]
  exact members.eq_of_pairwise (fun _ _ _ _ before after => absurd after (asymm before)) first.ordered second.ordered

mutual

theorem flatten_paths : ∀ item : AccountItem,
    List.Forall₂ (fun path account => (item.leafAt path).map ixAccount = some account) item.paths (flattenAccount item)
  | .leaf account => .cons rfl .nil
  | .group items => by
      rw [AccountItem.paths, flattenAccount]
      refine (flatten_paths_from items 0).imp fun path account found => ?_
      obtain ⟨j, rest, rfl, there⟩ := found
      rw [Nat.zero_add, AccountItem.leafAt, there]

theorem flatten_paths_from : ∀ (items : List AccountItem) (i : Nat),
    List.Forall₂ (fun path account => ∃ j rest, path = (i + j) :: rest ∧ (leafIn items j rest).map ixAccount = some account)
      (pathsFrom i items) (flattenAccounts items)
  | [], _ => .nil
  | item :: others, i => by
      rw [pathsFrom, flattenAccounts]
      refine List.rel_append ?_ ?_
      · rw [List.forall₂_map_left_iff]
        exact (flatten_paths item).imp fun path account there => ⟨0, path, rfl, there⟩
      · refine (flatten_paths_from others (i + 1)).imp fun path account found => ?_
        obtain ⟨j, rest, rfl, there⟩ := found
        exact ⟨j + 1, rest, by rw [Nat.add_assoc, Nat.add_comm 1 j], there⟩

end

theorem flatten_depth_first (tree : List AccountItem) (paths : List (List Nat)) (order : DepthFirst tree paths) :
    List.Forall₂ (fun path account => (accountAt tree path).map ixAccount = some account) paths (flattenAccounts tree) := by
  rw [depth_first_unique tree paths _ order (paths_depth_first tree)]
  refine (flatten_paths_from tree 0).imp fun path account found => ?_
  obtain ⟨j, rest, rfl, there⟩ := found
  rw [Nat.zero_add]
  exact there

end Paths

inductive Fills (programId : Address) (account : IxAccount) : MetaLike → AccountMeta → Prop where
  | omitted (optional : account.isOptional = true) : Fills programId account (.value .none) ⟨programId, false, false⟩
  | address (given : Value) (key : Address) (coerced : pubkeyOf given = .ok key) :
      Fills programId account (.value given) ⟨key, account.isSigner, account.isWritable⟩
  | accountMeta (given : AccountMeta) : Fills programId account (.accountMeta given) given

inductive Passes : MetaLike → AccountMeta → Prop where
  | address (given : Value) (key : Address) (coerced : pubkeyOf given = .ok key) : Passes (.value given) ⟨key, false, false⟩
  | accountMeta (given : AccountMeta) : Passes (.accountMeta given) given

theorem slot_filled (programId : Address) (account : IxAccount) (given : MetaLike) (entry : AccountMeta)
    (fills : Fills programId account given entry) : slotMeta programId (slotOf account given) = .ok entry := by
  cases fills with
  | omitted optional => simp [slotMeta, slotOf, optional]
  | address given key coerced =>
    cases given with
    | none => cases coerced
    | _ =>
      simp only [slotMeta, slotOf, accountMetaOf, coerced]
      rfl
  | accountMeta given => rfl

theorem remaining_passed (given : MetaLike) (entry : AccountMeta) (passes : Passes given entry) : asMeta given = .ok entry := by
  cases passes with
  | address given key coerced =>
    rw [asMeta, accountMetaOf, coerced]
    rfl
  | accountMeta given => rfl

structure Assigned (programId : Address) (tree : List AccountItem) (paths : List (List Nat)) (assign : List Nat → MetaLike)
    (remaining : List MetaLike) (own rest : List AccountMeta) : Prop where
  leaves : List.Forall₂ (fun path entry => ∃ leaf, accountAt tree path = some leaf ∧
    Fills programId (ixAccount leaf) (assign path) entry) paths own
  others : List.Forall₂ Passes remaining rest

theorem slots_filled (programId : Address) (tree : List AccountItem) (assign : List Nat → MetaLike) (paths : List (List Nat))
    (accounts : List IxAccount) (own : List AccountMeta)
    (flattened : List.Forall₂ (fun path account => (accountAt tree path).map ixAccount = some account) paths accounts)
    (leaves : List.Forall₂ (fun path entry => ∃ leaf, accountAt tree path = some leaf ∧
      Fills programId (ixAccount leaf) (assign path) entry) paths own) :
    List.Forall₂ (fun slot entry => slotMeta programId slot = .ok entry) (List.zipWith slotOf accounts (paths.map assign)) own := by
  induction flattened generalizing own with
  | nil =>
    cases leaves
    exact .nil
  | @cons path account _ _ there _ ih =>
    cases leaves with
    | cons first others =>
      obtain ⟨leaf, found, fills⟩ := first
      rw [found, Option.map_some, Option.some.injEq] at there
      rw [there] at fills
      exact .cons (slot_filled programId account (assign path) _ fills) (ih _ others)

theorem assigned_metas {python : Python} (b : EmittedBuilder python) (tree : List AccountItem) (paths : List (List Nat))
    (flat : b.ix.accounts = flattenAccounts tree) (order : DepthFirst tree paths) (assign : List Nat → MetaLike)
    (remaining : List MetaLike) (own rest : List AccountMeta)
    (assigned : Assigned b.programId tree paths assign remaining own rest) :
    (paths.map assign).length = b.ix.accounts.length ∧ b.accountMetas (paths.map assign) remaining = .ok (own ++ rest) := by
  have flattened := flatten_depth_first tree paths order
  rw [← flat] at flattened
  refine ⟨by rw [List.length_map, flattened.length_eq], ?_⟩
  have slots : buildMetas b.programId (List.zipWith slotOf b.ix.accounts (paths.map assign)) = .ok own :=
    map_m_of _ _ _ (slots_filled b.programId tree assign paths b.ix.accounts own flattened assigned.leaves)
  have others : remaining.mapM asMeta = .ok rest :=
    map_m_of _ _ _ (assigned.others.imp fun given entry passes => remaining_passed given entry passes)
  rw [EmittedBuilder.accountMetas, slots, others]
  rfl

structure Unclashing {python : Python} (p : ReflectedBuilder python) (values : List Value) : Prop where
  clean : CleanCall p.b values
  arguments : selfName ∉ p.b.argKeys
  bound : p.Bound

def readBack (python : Python) (owner name : Name) : Name := mangleBack (python.spelled owner (mangle name))

theorem names_read_back {python : Python} (b : EmittedBuilder python) (tree : List AccountItem) (paths : List (List Nat))
    (flat : b.ix.accounts = flattenAccounts tree) (order : DepthFirst tree paths) :
    (b.accountKeys.map mangleBack).map some =
      paths.map fun path => (accountAt tree path).map fun leaf => readBack python b.owner leaf.name := by
  have flattened := flatten_depth_first tree paths order
  rw [← flat] at flattened
  rw [EmittedBuilder.accountKeys, List.map_map, List.map_map, ← List.forall₂_eq_eq_eq, List.forall₂_map_left_iff,
    List.forall₂_map_right_iff]
  refine flattened.flip.imp fun account path there => ?_
  obtain ⟨leaf, found, same⟩ := Option.map_eq_some_iff.mp there
  rw [found, ← same]
  rfl

theorem account_slots_align_iff {python : Python} (spelling : Spelling python) (p : ReflectedBuilder python) (tree : List AccountItem)
    (flat : p.b.ix.accounts = flattenAccounts tree) (paths : List (List Nat)) (order : DepthFirst tree paths)
    (values : List Value) (typed : List.Forall₂ (Typed p.b.cache maxDecodeDepth) p.b.nodes values)
    (unclashing : Unclashing p values) (assign : List Nat → MetaLike) (remaining : List MetaLike) (own rest : List AccountMeta)
    (assigned : Assigned p.b.programId tree paths assign remaining own rest) :
    ∃ data decoded, p.b.call values (paths.map assign) remaining = .ok (.instruction ⟨p.b.programId, own ++ rest, data⟩) ∧
      p.registration.iface.decode p.b.cache data (own ++ rest).length = .ok decoded ∧
      (decoded.accountNames = (paths.map fun path => (accountAt tree path).map RawAccount.name) ++ rest.map (fun _ => none) ↔
        ∀ path leaf, accountAt tree path = some leaf → readBack python p.b.owner leaf.name = leaf.name) := by
  obtain ⟨paired, metas⟩ := assigned_metas p.b tree paths flat order assign remaining own rest assigned
  have builds := clean_builds p.b spelling maxDecodeDepth values typed unclashing.clean
  obtain ⟨raws, encoded, called⟩ := builds (paths.map assign) remaining (own ++ rest) paired metas
  have decoded := bound_decodes p spelling unclashing.bound unclashing.arguments values typed unclashing.clean.fits raws encoded
    (own ++ rest).length
  refine ⟨_, _, called, decoded, ?_⟩
  have size : (own ++ rest).length = (p.b.accountKeys.map mangleBack).length + rest.length := by
    rw [List.length_append, ← assigned.leaves.length_eq, List.length_map, EmittedBuilder.accountKeys, List.length_map, ← paired,
      List.length_map]
  dsimp only
  rw [size, padded_names, List.map_const', List.append_left_inj, names_read_back p.b tree paths flat order, List.map_inj_left]
  refine ⟨fun same path leaf found => ?_, fun same path _ => ?_⟩
  · have inside : path ∈ paths := (order.complete path).mpr (by rw [found]; rfl)
    have equal := same path inside
    rw [found] at equal
    exact Option.some.inj equal
  · cases found : accountAt tree path with
    | none => rfl
    | some leaf => exact congrArg some (same path leaf found)

-- CPython's private names: two leading underscores and not two trailing ones take
-- the name of the class in front.
def privateName (owner name : Name) : Name :=
  if ['_', '_'] <+: name ∧ ¬ ['_', '_'] <:+ name ∧ owner.dropWhile (· = '_') ≠ [] then
    '_' :: (owner.dropWhile (· = '_') ++ name)
  else name

def classPython : Python := ⟨fun _ => true, privateName, fun _ => []⟩

theorem class_spelling : Spelling classPython := by
  constructor
  · intro owner name _ single
    exact if_neg fun both => single both.1
  · intro owner name layout
    have single : ¬ ['_', '_'] <+: name := by
      obtain ⟨rest, rfl⟩ := layout
      rw [List.cons_append, List.cons_append, List.cons_prefix_cons, List.cons_prefix_cons]
      exact fun starts => absurd starts.2.1 (by decide)
    have same : classPython.spelled owner name = name := if_neg fun both => single both.1
    rw [same]
    exact layout

def authorityParam : Name := ['a', 'u', 't', 'h', 'o', 'r', 'i', 't', 'y']

def vaultTree (account : Name) : List AccountItem :=
  [.group [.leaf { name := authorityParam, signer := some true }],
    .leaf { name := account, writable := some true, optional := some true }]

def vaultIx (account : Name) : Instruction where
  name := ['d', 'e', 'p', 'o', 's', 'i', 't']
  discriminator := [1, 2, 3, 4, 5, 6, 7, 8]
  args := [(amountParam, .scalar u8Name)]
  accounts := flattenAccounts (vaultTree account)
  returns := none

def vaultMethod (account : Name) : Method :=
  ⟨(vaultIx account).name, (vaultIx account).name, (vaultIx account).discriminator, [(amountParam, .name u8Name)],
    [authorityParam, mangle account, remainingName], none, methodBody (vaultIx account)⟩

def bankName : Name := ['B', 'a', 'n', 'k']

theorem amount_compiles : compileLayout [] [] [.intAlias 1 false] [] = .ok ([.int 1 false], []) := rfl

def vaultBuilder (python : Python) (account : Name) (emits : emitInstruction python (vaultIx account) = .ok (vaultMethod account)) :
    EmittedBuilder python where
  ix := vaultIx account
  method := vaultMethod account
  emits := emits
  owner := bankName
  programId := Address.fill 9
  scope := moduleScope []
  anns := [.intAlias 1 false]
  evaluates := rfl
  table := []
  place := []
  before := []
  imported := []
  nodes := [.int 1 false]
  compiles := amount_compiles
  cache := []
  grown := deposit_grown

def vaultSignature (account : Name) : Signature where
  positional := [(amountParam, .intAlias 1 false)]
  keywordOnly := [authorityParam, account, remainingName]
  distinct := by simp

def vaultBuilderMethod (account : Name) : BuilderMethod :=
  ⟨⟨(vaultIx account).name, (vaultIx account).discriminator, .borsh, none⟩, .ok (vaultSignature account)⟩

def vaultRegistration (account : Name) : Registration [] where
  methods := [vaultBuilderMethod account]
  programId := []
  programName := []
  overrides := []
  before := []
  after := []
  iface := ⟨[], [], [⟨(vaultIx account).name, (vaultIx account).discriminator, (vaultSignature account).accountNames,
    makeBorshDecoder [(amountParam, .int 1 false)], none⟩], []⟩
  built := rfl
  prefixFree := List.pairwise_singleton _ _

def vaultProgram : ReflectedBuilder plainPython where
  b := vaultBuilder plainPython vaultParam rfl
  parameters := by decide
  signature := vaultSignature vaultParam
  positional := rfl
  keywordOnly := rfl
  returns := none
  methods := [((vaultIx vaultParam).name, vaultBuilderMethod vaultParam)]
  index := 0
  listed := rfl
  ordinary := by decide
  prefixFree := List.pairwise_singleton _ _
  registration := vaultRegistration vaultParam
  bound := rfl
  derived := rfl
  grown := deposit_grown

def privateParam : Name := ['_', '_', 'v', 'a', 'u', 'l', 't']

def privateProgram : ReflectedBuilder classPython where
  b := vaultBuilder classPython privateParam rfl
  parameters := by decide
  signature := vaultSignature ('_' :: (bankName ++ privateParam))
  positional := rfl
  keywordOnly := by decide
  returns := none
  methods := [((vaultIx privateParam).name, vaultBuilderMethod ('_' :: (bankName ++ privateParam)))]
  index := 0
  listed := rfl
  ordinary := by decide
  prefixFree := List.pairwise_singleton _ _
  registration := vaultRegistration ('_' :: (bankName ++ privateParam))
  bound := rfl
  derived := rfl
  grown := deposit_grown

theorem vault_paths (account : Name) : DepthFirst (vaultTree account) [[0, 0], [1]] := paths_depth_first (vaultTree account)

def vaultAssign : List Nat → MetaLike
  | [0, 0] => .value (.pubkey (Address.fill 7))
  | _ => .value .none

theorem vault_assigned (account : Name) :
    Assigned (Address.fill 9) (vaultTree account) [[0, 0], [1]] vaultAssign [.accountMeta ⟨Address.fill 3, true, true⟩]
      [⟨Address.fill 7, true, false⟩, ⟨Address.fill 9, false, false⟩] [⟨Address.fill 3, true, true⟩] where
  leaves := .cons ⟨_, rfl, .address _ _ rfl⟩ (.cons ⟨_, rfl, .omitted rfl⟩ .nil)
  others := .cons (.accountMeta _) .nil

theorem vault_unclashing : Unclashing vaultProgram [.int 5] where
  clean := ⟨by decide, by decide, by decide, fun _ => by decide, fun _ => by decide, by decide,
    fun value inside => absurd (List.of_mem_zip inside).1 (by decide), by decide⟩
  arguments := by decide
  bound := List.not_mem_nil

theorem private_unclashing : Unclashing privateProgram [.int 5] where
  clean := ⟨by decide, by decide, by decide, fun _ => by decide, fun _ => by decide, by decide,
    fun value inside => absurd (List.of_mem_zip inside).1 (by decide), by decide⟩
  arguments := by decide
  bound := List.not_mem_nil

theorem vault_named (path : List Nat) (leaf : RawAccount) (found : accountAt (vaultTree vaultParam) path = some leaf) :
    readBack plainPython bankName leaf.name = leaf.name := by
  have inside := ((vault_paths vaultParam).complete path).mpr (by rw [found]; rfl)
  rcases List.mem_cons.mp inside with rfl | later
  · cases found
    rfl
  · cases List.mem_singleton.mp later
    cases found
    rfl

theorem account_slots_align_vault :
    ∃ data decoded, vaultProgram.b.call [.int 5] [.value (.pubkey (Address.fill 7)), .value .none]
        [.accountMeta ⟨Address.fill 3, true, true⟩] =
          .ok (.instruction ⟨Address.fill 9, [⟨Address.fill 7, true, false⟩, ⟨Address.fill 9, false, false⟩,
            ⟨Address.fill 3, true, true⟩], data⟩) ∧
      vaultProgram.registration.iface.decode [] data 3 = .ok decoded ∧
      decoded.accountNames = [some authorityParam, some vaultParam, none] := by
  obtain ⟨data, decoded, called, isDecoded, named⟩ := account_slots_align_iff plain_spelling vaultProgram (vaultTree vaultParam) rfl
    _ (vault_paths vaultParam) [.int 5] (.cons ⟨5, rfl, by decide⟩ .nil) vault_unclashing vaultAssign _ _ _ (vault_assigned vaultParam)
  exact ⟨data, decoded, called, isDecoded, named.mpr vault_named⟩

theorem private_account_misnamed : Unclashing privateProgram [.int 5] ∧
    (accountAt (vaultTree privateParam) [1]).map RawAccount.name = some privateParam ∧
    privateProgram.b.call [.int 5] [.value (.pubkey (Address.fill 7)), .value .none] [] =
      .ok (.instruction ⟨Address.fill 9, [⟨Address.fill 7, true, false⟩, ⟨Address.fill 9, false, false⟩],
        [1, 2, 3, 4, 5, 6, 7, 8, 5]⟩) ∧
    (privateProgram.registration.iface.decode [] [1, 2, 3, 4, 5, 6, 7, 8, 5] 2).map DecodedInstruction.accountNames =
      .ok [some authorityParam, some ('_' :: (bankName ++ privateParam))] :=
  ⟨private_unclashing, rfl, rfl, rfl⟩

end WakeSol.Gen
