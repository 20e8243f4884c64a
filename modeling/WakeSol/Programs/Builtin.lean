import WakeSol.Precompile.Assemble
import WakeSol.Lib.Fallible

/- The System Program and SPL Token: hand-written builders that pack their data, and
   hand-written decoders. The packed layouts and their inverse are stated once for both. -/
set_option autoImplicit false

namespace WakeSol.Programs

open TextLib RadixLib EndianLib PackedLib FallibleLib Codec Interface

-- A byte goes through bytes([...]) and data[i]; the other integers through struct.
inductive Param where
  | byte
  | int (width : Nat)
  | pubkey
  | optionalPubkey

def Param.ann : Param → Ann
  | .byte => .intAlias 1 false
  | .int width => .intAlias width false
  | .pubkey => .pubkey
  | .optionalPubkey => .optional .pubkey

def packInt (width : Nat) (notInt outOfRange : Raised) (value : Value) : Except Raised Bytes :=
  match value.asInt with
  | none => .error notInt
  | some n => (packField width n).elim (.error outOfRange) .ok

def packParam : Param → Value → Except Raised Bytes
  | .byte, value => packInt 1 .typeError .valueError value
  | .int width, value => packInt width .structError .structError value
  | .pubkey, value => Address.bytes <$> pubkeyOf value
  | .optionalPubkey, .none => .ok [0]
  | .optionalPubkey, value => (fun key => 1 :: key.bytes) <$> pubkeyOf value

def pubkeyAt (d : Bytes) (start : Nat) : Except Raised Value := Value.pubkey <$> pubkeyOf (.bytes ((d.drop start).take 32))

-- A value and the bytes it takes. Indexing past the end is the LookupError of a key here;
-- what an absent key takes does not matter, for no parameter follows it.
def readParam (d : Bytes) (start : Nat) : Param → Except Raised (Value × Nat)
  | .byte => (d[start]?).elim (.error .keyError) fun byte => .ok (.int byte.toNat, 1)
  | .int width =>
    if d.length < start + width then .error .structError
    else .ok (.int (leNat ((d.drop start).take width)), width)
  | .pubkey => (·, 32) <$> pubkeyAt d start
  | .optionalPubkey => if d[start]? = some 1 then (·, 33) <$> pubkeyAt d (start + 1) else .ok (.none, 1)

def readParams (d : Bytes) : Nat → List (String × Param) → Except Raised Args
  | _, [] => .ok []
  | start, (name, param) :: rest => do
      let (value, size) ← readParam d start param
      return (name.toList, value) :: (← readParams d (start + size) rest)

abbrev Decoder := Env → Bytes → Except Raised Args

def layout (params : List (String × Param)) : Decoder := fun _ d => readParams d 0 params

-- An account is its parameter with is_signer and is_writable.
structure Method where
  name : String
  tag : Bytes
  params : List (String × Param)
  accounts : List (String × Bool × Bool)
  distinct : (params.map fun param => param.1.toList).Nodup := by decide

-- The values and accounts are those after the defaults are filled in.
def Method.call (method : Method) (programId : Address) (values : List Value) (accounts remaining : List MetaLike) :
    Except Raised Precompile.Instruction :=
  if values.length ≠ method.params.length ∨ accounts.length ≠ method.accounts.length then .error .typeError
  else do
    let parts ← (method.params.zip values).mapM fun arg => packParam arg.1.2 arg.2
    let metas ← buildMetas programId
      (List.zipWith (fun slot account => ⟨account, slot.2.1, slot.2.2, false⟩) method.accounts accounts)
    let others ← remaining.mapM asMeta
    return ⟨programId, metas ++ others, method.tag ++ parts.flatten⟩

-- An instruction without a builder, and its decoder if it has one.
structure DecodeOnly where
  name : String
  tag : Bytes
  accounts : List String
  decode : Option Decoder := none

structure Program where
  programId : Text
  name : Text
  serialization : Serialization
  methods : List Method
  overrides : List (String × Decoder)
  others : List DecodeOnly

def Method.signature (method : Method) : Signature where
  positional := method.params.map fun param => (param.1.toList, param.2.ann)
  keywordOnly := method.accounts.map (fun account => account.1.toList) ++ [remainingName]
  distinct := by simpa [Function.comp_def] using method.distinct

def Method.builder (serialization : Serialization) (method : Method) : BuilderMethod :=
  ⟨⟨method.name.toList, method.tag, serialization, none⟩, .ok method.signature⟩

def Program.decoders (program : Program) : Overrides := program.overrides.map fun entry => (entry.1.toList, entry.2)

def Program.interface (program : Program) : Compile ProgramInterface := do
  let iface ← buildInterface [] (program.methods.map (Method.builder program.serialization)) program.programId
    program.name program.decoders
  return program.others.foldl
    (fun iface other => iface.add other.name.toList other.tag (other.accounts.map String.toList) other.decode none) iface

-- The value that a packed one is read back as.
def Param.seen : Param → Value → Option Value
  | .pubkey, value => (pubkeyOf value).toOption.map .pubkey
  | .optionalPubkey, .none => some .none
  | .optionalPubkey, value => (pubkeyOf value).toOption.map .pubkey
  | _, value => value.asInt.map .int

theorem int_packed (width : Nat) (notInt outOfRange : Raised) (value : Value) (raw : Bytes)
    (packed : packInt width notInt outOfRange value = .ok raw) :
    ∃ n : Nat, value.asInt = some (n : Int) ∧ n < 256 ^ width ∧ raw = leBytes width n := by
  rw [packInt] at packed
  cases isInt : value.asInt with
  | none => simp [isInt] at packed
  | some n =>
    by_cases fits : 0 ≤ n ∧ n < 256 ^ width
    · lift n to Nat using fits.1
      simp only [isInt, packField, if_pos fits, Option.elim_some, Except.ok.injEq] at packed
      exact ⟨n, rfl, by exact_mod_cast fits.2, packed.symm⟩
    · simp [isInt, packField, fits] at packed

theorem pubkey_at (front rest : Bytes) (key : Address) :
    pubkeyAt (front ++ (key.bytes ++ rest)) front.length = .ok (.pubkey key) := by
  rw [pubkeyAt, List.drop_left, List.take_left' key.size, pubkeyOf, addressOf, dif_pos key.size]
  rfl

theorem param_read (param : Param) (value : Value) (raw front rest : Bytes) (packed : packParam param value = .ok raw) :
    ∃ seen, param.seen value = some seen ∧
      readParam (front ++ (raw ++ rest)) front.length param = .ok (seen, raw.length) := by
  cases param with
  | byte =>
    obtain ⟨n, isInt, fits, rfl⟩ := int_packed 1 _ _ value raw packed
    have small : n < 256 := by simpa using fits
    exact ⟨.int n, by simp [Param.seen, isInt], by simp [readParam, leBytes, Nat.mod_eq_of_lt small]⟩
  | int width =>
    obtain ⟨n, isInt, fits, rfl⟩ := int_packed width _ _ value raw packed
    refine ⟨.int n, by simp [Param.seen, isInt], ?_⟩
    rw [readParam, if_neg (by simp [le_bytes_length]), List.drop_left, List.take_left' (le_bytes_length width n),
      le_nat_le_bytes width n fits, le_bytes_length]
  | pubkey =>
    obtain ⟨key, isKey, rfl⟩ := map_ok _ _ _ packed
    refine ⟨.pubkey key, by simp [Param.seen, isKey, Except.toOption], ?_⟩
    rw [readParam, pubkey_at front rest key, key.size]
    rfl
  | optionalPubkey =>
    by_cases absent : value = .none
    · subst absent
      cases packed
      exact ⟨.none, rfl, by simp [readParam]⟩
    · rw [packParam] at packed
      · obtain ⟨key, isKey, rfl⟩ := map_ok _ _ _ packed
        refine ⟨.pubkey key, ?_, ?_⟩
        · rw [Param.seen]
          · simp [isKey, Except.toOption]
          · exact absent
        · have here := pubkey_at (front ++ [1]) rest key
          rw [List.append_assoc, List.length_append] at here
          rw [readParam, if_pos (by simp), List.length_cons, key.size]
          exact congrArg (Functor.map (·, 33)) here
      · exact absent

theorem params_read (params : List (String × Param)) (values : List Value) (parts : List Bytes) (front : Bytes)
    (size : values.length = params.length)
    (packed : List.Forall₂ (fun arg raw => packParam arg.1.2 arg.2 = .ok raw) (params.zip values) parts) :
    ∃ seen, List.Forall₂ (fun arg value => arg.1.2.seen arg.2 = some value) (params.zip values) seen ∧
      readParams (front ++ parts.flatten) front.length params = .ok ((params.map fun param => param.1.toList).zip seen) := by
  induction params generalizing values parts front with
  | nil =>
    cases packed
    exact ⟨[], .nil, rfl⟩
  | cons param params ih =>
    cases values with
    | nil => cases size
    | cons value values =>
      cases packed with
      | @cons _ raw _ parts first later =>
        obtain ⟨seen, isSeen, read⟩ := param_read param.2 value raw front parts.flatten first
        obtain ⟨others, areSeen, readLater⟩ := ih values parts (front ++ raw) (by simpa using size) later
        rw [List.length_append, List.append_assoc] at readLater
        refine ⟨seen :: others, .cons isSeen areSeen, ?_⟩
        rw [readParams, List.flatten_cons, read]
        simp only [bind, Except.bind, readLater]
        rfl

-- The builders' data, read by the program's decoders: the one name, the values as they
-- were given, the declared accounts under their names and the remaining ones without.
def CallsDecoded (program : Program) (iface : ProgramInterface) : Prop :=
  ∀ method ∈ program.methods, ∀ programId values accounts remaining ix,
    method.call programId values accounts remaining = .ok ix →
      ∃ seen, List.Forall₂ (fun arg value => arg.1.2.seen arg.2 = some value) (method.params.zip values) seen ∧
        ∀ env, iface.decode env ix.data ix.accounts.length =
          .ok ⟨program.name, some method.name.toList, (method.params.map fun param => param.1.toList).zip seen,
            paddedNames method.signature.accountNames (method.accounts.length + remaining.length)⟩

def Method.registered (method : Method) : InstructionDef :=
  ⟨method.name.toList, method.tag, method.signature.accountNames, layout method.params, none⟩

def Registers (overrides : Overrides) (serialization : Serialization) (env : Env) (method : Method) : Prop :=
  ∀ iface, registerMethod [] overrides iface (method.builder serialization) env =
    .ok ({ iface with defs := iface.defs ++ [method.registered] }, env)

theorem methods_registered (overrides : Overrides) (serialization : Serialization) (env : Env) (methods : List Method)
    (each : ∀ method ∈ methods, Registers overrides serialization env method) (iface : ProgramInterface) :
    (methods.map (Method.builder serialization)).foldlM (registerMethod [] overrides) iface env =
      .ok ({ iface with defs := iface.defs ++ methods.map Method.registered }, env) := by
  induction methods generalizing iface with
  | nil =>
    rw [List.map_nil, List.map_nil, List.append_nil]
    rfl
  | cons method rest ih =>
    rw [List.map_cons, List.foldlM_cons, compile_bind, each method (by simp) iface]
    simp only
    rw [ih fun other inside => each other (by simp [inside])]
    simp

def DecodeOnly.registered (other : DecodeOnly) : InstructionDef :=
  ⟨other.name.toList, other.tag, other.accounts.map String.toList, other.decode.getD fun _ _ => .ok [], none⟩

theorem others_registered (others : List DecodeOnly) (iface : ProgramInterface) : others.foldl
    (fun iface other => iface.add other.name.toList other.tag (other.accounts.map String.toList) other.decode none) iface =
      { iface with defs := iface.defs ++ others.map DecodeOnly.registered } := by
  induction others generalizing iface with
  | nil => simp
  | cons other others ih =>
    rw [List.foldl_cons, ih, ProgramInterface.add]
    simp [DecodeOnly.registered]

def Program.defs (program : Program) : List InstructionDef :=
  program.methods.map Method.registered ++ program.others.map DecodeOnly.registered

theorem interface_registers (program : Program) (env : Env)
    (each : ∀ method ∈ program.methods, Registers program.decoders program.serialization env method) :
    program.interface env = .ok (⟨program.programId, program.name, program.defs, []⟩, env) := by
  rw [Program.interface, compile_bind, buildInterface, compile_bind, methods_registered _ _ env _ each]
  change Except.ok (program.others.foldl _ _, env) = _
  rw [List.foldl_nil, others_registered]
  rfl

theorem calls_decoded (program : Program) (free : PrefixFree (program.defs.map InstructionDef.discriminator)) :
    CallsDecoded program ⟨program.programId, program.name, program.defs, []⟩ := by
  intro method inside programId values accounts remaining ix called
  rw [Method.call] at called
  split at called
  · cases called
  · rename_i sizes
    rw [not_or, not_not, not_not] at sizes
    obtain ⟨parts, packed, called⟩ := bind_ok _ _ _ called
    obtain ⟨metas, built, called⟩ := bind_ok _ _ _ called
    obtain ⟨others, coerced, called⟩ := bind_ok _ _ _ called
    cases called
    obtain ⟨seen, isSeen, decoded⟩ := params_read method.params values parts [] sizes.1 (map_m_ok _ _ _ packed)
    rw [List.nil_append, List.length_nil] at decoded
    have slots := (map_m_ok _ _ _ built).length_eq
    have rest := (map_m_ok _ _ _ coerced).length_eq
    simp only [List.length_zipWith, sizes.2, Nat.min_self] at slots
    refine ⟨seen, isSeen, fun env => ?_⟩
    have chosen := match_prefix_free program.defs free method.registered
      (List.mem_append_left _ (List.mem_map_of_mem inside)) parts.flatten
    simp only [Method.registered] at chosen
    rw [ProgramInterface.decode, chosen]
    simp only [List.drop_left, layout, decoded, List.length_append, ← slots, ← rest]

namespace System

def tag (i : Nat) : Bytes := leBytes 4 i

def createAccountArgs : Decoder := layout [("lamports", .int 8), ("space", .int 8), ("owner", .pubkey)]

def assignArgs : Decoder := layout [("owner", .pubkey)]

def transferArgs : Decoder := layout [("lamports", .int 8)]

def allocateArgs : Decoder := layout [("space", .int 8)]

-- The seed is decoded with replacement characters.
def createAccountWithSeedArgs (replaced : Bytes → String) : Decoder := fun _ d => do
  let base ← pubkeyAt d 0
  let _ ← readParam d 32 (.int 8)
  let size := leNat ((d.drop 32).take 8)
  let rest ← readParams d (40 + size) [("lamports", .int 8), ("space", .int 8), ("owner", .pubkey)]
  return ("base".toList, base) :: ("seed".toList, .str (replaced ((d.drop 40).take size))) :: rest

def transfer : Method where
  name := "transfer"
  tag := tag 2
  params := [("lamports", .int 8)]
  accounts := [("from_", true, true), ("to", false, true)]

def createAccount : Method where
  name := "create_account"
  tag := tag 0
  params := [("lamports", .int 8), ("space", .int 8), ("owner", .pubkey)]
  accounts := [("from_", true, true), ("to", true, true)]

def assign : Method where
  name := "assign"
  tag := tag 1
  params := [("owner", .pubkey)]
  accounts := [("account", true, true)]

def allocate : Method where
  name := "allocate"
  tag := tag 8
  params := [("space", .int 8)]
  accounts := [("account", true, true)]

def program (replaced : Bytes → String) : Program where
  programId := List.replicate 32 '1'
  name := "System Program".toList
  serialization := .bincode
  methods := [transfer, createAccount, assign, allocate]
  overrides := [("transfer", transferArgs), ("create_account", createAccountArgs), ("assign", assignArgs),
    ("allocate", allocateArgs)]
  others := [
    { name := "create_account_with_seed", tag := tag 3, accounts := ["from", "to", "base"],
      decode := createAccountWithSeedArgs replaced },
    { name := "advance_nonce_account", tag := tag 4, accounts := ["nonce", "recent_blockhashes", "authority"] },
    { name := "withdraw_nonce_account", tag := tag 5,
      accounts := ["nonce", "to", "recent_blockhashes", "rent", "authority"] },
    { name := "initialize_nonce_account", tag := tag 6, accounts := ["nonce", "recent_blockhashes", "rent"] },
    { name := "authorize_nonce_account", tag := tag 7, accounts := ["nonce", "authority"] }]

theorem system_calls_decoded (replaced : Bytes → String) (env : Env) :
    ∃ iface, (program replaced).interface env = .ok (iface, env) ∧ CallsDecoded (program replaced) iface := by
  refine ⟨_, interface_registers (program replaced) env ?_, calls_decoded (program replaced) ?_⟩
  · simp only [program, List.forall_mem_cons, List.not_mem_nil, false_implies, implies_true, and_true]
    exact ⟨fun _ => rfl, fun _ => rfl, fun _ => rfl, fun _ => rfl⟩
  · change PrefixFree [tag 2, tag 0, tag 1, tag 8, tag 3, tag 4, tag 5, tag 6, tag 7]
    unfold PrefixFree
    decide

example : (transfer.call .zero [.int 5] [.value (.pubkey .zero), .value (.pubkey .zero)] []).toOption.map (·.data) =
    some [2, 0, 0, 0, 5, 0, 0, 0, 0, 0, 0, 0] := by decide

end System

namespace Token

def noneArgs : Decoder := layout []

def amountArgs : Decoder := layout [("amount", .int 8)]

def amountDecimalsArgs : Decoder := layout [("amount", .int 8), ("decimals", .int 1)]

def initializeMintArgs : Decoder :=
  layout [("decimals", .byte), ("mint_authority", .pubkey), ("freeze_authority", .optionalPubkey)]

def ownerArgs : Decoder := layout [("owner", .pubkey)]

def initializeMint2 : Method where
  name := "initialize_mint2"
  tag := [0x14]
  params := [("decimals", .byte), ("mint_authority", .pubkey), ("freeze_authority", .optionalPubkey)]
  accounts := [("mint", false, true)]

def initializeAccount3 : Method where
  name := "initialize_account3"
  tag := [0x12]
  params := [("owner", .pubkey)]
  accounts := [("account", false, true), ("mint", false, false)]

def transferChecked : Method where
  name := "transfer_checked"
  tag := [0x0c]
  params := [("amount", .int 8), ("decimals", .int 1)]
  accounts := [("source", false, true), ("mint", false, false), ("destination", false, true), ("authority", true, false)]

def transfer : Method where
  name := "transfer"
  tag := [0x03]
  params := [("amount", .int 8)]
  accounts := [("source", false, true), ("destination", false, true), ("authority", true, false)]

def mintToChecked : Method where
  name := "mint_to_checked"
  tag := [0x0e]
  params := [("amount", .int 8), ("decimals", .int 1)]
  accounts := [("mint", false, true), ("account", false, true), ("authority", true, false)]

def burnChecked : Method where
  name := "burn_checked"
  tag := [0x0f]
  params := [("amount", .int 8), ("decimals", .int 1)]
  accounts := [("account", false, true), ("mint", false, true), ("authority", true, false)]

def closeAccount : Method where
  name := "close_account"
  tag := [0x09]
  params := []
  accounts := [("account", false, true), ("destination", false, true), ("owner", true, false)]

def approve : Method where
  name := "approve"
  tag := [0x04]
  params := [("amount", .int 8)]
  accounts := [("source", false, true), ("delegate", false, false), ("authority", true, false)]

def revoke : Method where
  name := "revoke"
  tag := [0x05]
  params := []
  accounts := [("source", false, true), ("authority", true, false)]

-- Token-2022 registers the same instructions under its own id.
def program (programId name : Text) : Program where
  programId := programId
  name := name
  serialization := .pack
  methods := [initializeMint2, initializeAccount3, transferChecked, transfer, mintToChecked, burnChecked,
    closeAccount, approve, revoke]
  overrides := [("initialize_mint2", initializeMintArgs), ("initialize_account3", ownerArgs),
    ("transfer_checked", amountDecimalsArgs), ("transfer", amountArgs), ("mint_to_checked", amountDecimalsArgs),
    ("burn_checked", amountDecimalsArgs), ("close_account", noneArgs), ("approve", amountArgs), ("revoke", noneArgs)]
  others := [
    { name := "initialize_mint", tag := [0x00], accounts := ["mint", "rent"], decode := initializeMintArgs },
    { name := "initialize_account", tag := [0x01], accounts := ["account", "mint", "owner", "rent"] },
    { name := "initialize_multisig", tag := [0x02], accounts := ["multisig", "rent"] },
    { name := "set_authority", tag := [0x06], accounts := ["account", "authority"] },
    { name := "mint_to", tag := [0x07], accounts := ["mint", "account", "authority"], decode := amountArgs },
    { name := "burn", tag := [0x08], accounts := ["account", "mint", "authority"], decode := amountArgs },
    { name := "freeze_account", tag := [0x0a], accounts := ["account", "mint", "authority"] },
    { name := "thaw_account", tag := [0x0b], accounts := ["account", "mint", "authority"] },
    { name := "approve_checked", tag := [0x0d], accounts := ["source", "mint", "delegate", "authority"],
      decode := amountDecimalsArgs },
    { name := "initialize_account2", tag := [0x10], accounts := ["account", "mint", "rent"], decode := ownerArgs },
    { name := "sync_native", tag := [0x11], accounts := ["account"] },
    { name := "initialize_multisig2", tag := [0x13], accounts := ["multisig"] },
    { name := "get_account_data_size", tag := [0x15], accounts := ["mint"] },
    { name := "initialize_immutable_owner", tag := [0x16], accounts := ["account"] }]

theorem token_calls_decoded (programId name : Text) (env : Env) :
    ∃ iface, (program programId name).interface env = .ok (iface, env) ∧ CallsDecoded (program programId name) iface := by
  refine ⟨_, interface_registers (program programId name) env ?_, calls_decoded (program programId name) ?_⟩
  · simp only [program, List.forall_mem_cons, List.not_mem_nil, false_implies, implies_true, and_true]
    exact ⟨fun _ => rfl, fun _ => rfl, fun _ => rfl, fun _ => rfl, fun _ => rfl, fun _ => rfl, fun _ => rfl, fun _ => rfl,
      fun _ => rfl⟩
  · change PrefixFree [[0x14], [0x12], [0x0c], [0x03], [0x0e], [0x0f], [0x09], [0x04], [0x05], [0x00], [0x01], [0x02],
      [0x06], [0x07], [0x08], [0x0a], [0x0b], [0x0d], [0x10], [0x11], [0x13], [0x15], [0x16]]
    unfold PrefixFree
    decide

end Token

end WakeSol.Programs
