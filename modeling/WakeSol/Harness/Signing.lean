import WakeSol.Harness.Isolation
import WakeSol.Lib.Fallible

/- Building and signing a transaction. A required signer's secret is the fee payer's
   own, one of an account given with the transaction, or one the process remembers. -/
set_option autoImplicit false

namespace WakeSol.Harness

open TextLib TallyLib RadixLib FallibleLib Forking

structure LookupTable where
  key : Address
  addresses : List Address

-- The message library. Both compilers put the fee payer first among the signers,
-- and the signers first among the static keys.
structure Sdk (ι M : Type) where
  newWithBlockhash : List ι → Address → Text → M
  tryCompile : Address → List ι → List LookupTable → Text → Except Text M
  numRequiredSignatures : M → Nat
  staticAccountKeys : M → List Address
  serialize : M → Bytes
  signersStatic : ∀ message, numRequiredSignatures message ≤ (staticAccountKeys message).length
  legacyPayer : ∀ ixs payer blockhash,
    ((staticAccountKeys (newWithBlockhash ixs payer blockhash)).take
      (numRequiredSignatures (newWithBlockhash ixs payer blockhash))).head? = some payer
  tablesPayer : ∀ payer ixs tables blockhash message, tryCompile payer ixs tables blockhash = .ok message →
    ((staticAccountKeys message).take (numRequiredSignatures message)).head? = some payer

structure VersionedTransaction (M : Type) where
  signatures : List Bytes
  message : M

inductive SigningError where
  | payerKeyless
  | hydration (error : HarnessError)
  | tableMissing (table : Address)
  | tableInvalid (text : Text)
  | notCompiled (text : Text)
  | badSecret (text : Text)
  | unknownSigner (address : Address)

def SigningError.text : SigningError → Text
  | .payerKeyless => "fee payer account has no keypair and cannot sign".toList
  | .hydration error => error.text
  | .tableMissing table =>
    "lookup table ".toList ++ table.text ++
      " not found — create it (svm.create_lookup_table / svm.address_lookup_table.create) or fork it first".toList
  | .tableInvalid text => "invalid address lookup table: ".toList ++ text
  | .notCompiled text => text
  | .badSecret text => text
  | .unknownSigner address =>
    "no keypair known for required signer ".toList ++ address.text ++ "; pass it via signers=".toList

def placeholder : Bytes := List.replicate 64 0

def resolveAltAccounts (engine : Engine) (accounts : Accounts) (keys : List Address) : Except SigningError (List LookupTable) :=
  keys.mapM fun key =>
    match accounts key with
    | none => .error (.tableMissing key)
    | some account =>
      match engine.readTableAddresses account.data with
      | .error text => .error (.tableInvalid text)
      | .ok addresses => .ok ⟨key, addresses⟩

section Build

variable {R ι M : Type} (platform : Platform R) (sdk : Sdk ι M) (engine : Engine) (sign : Keypair → Bytes → Bytes)

def required (message : M) : List Address := (sdk.staticAccountKeys message).take (sdk.numRequiredSignatures message)

-- A legacy message without lookup tables, a v0 message with them.
def compileMessage (svm : Svm) (payer : Address) (ixs : List ι) (tables : List Address) : Svm × Except SigningError M :=
  if tables = [] then (svm, .ok (sdk.newWithBlockhash ixs payer svm.latestBlockhash))
  else
    let hydrated := ensurePresent engine svm tables
    match hydrated.error with
    | some error => (hydrated.svm, .error (.hydration error))
    | none =>
      match resolveAltAccounts engine hydrated.svm.accounts tables with
      | .error error => (hydrated.svm, .error error)
      | .ok alts =>
        match sdk.tryCompile payer ixs alts svm.latestBlockhash with
        | .error text => (hydrated.svm, .error (.notCompiled text))
        | .ok message => (hydrated.svm, .ok message)

def addExplicit (explicit : Dict Address Bytes) (signer : Handle) : Dict Address Bytes :=
  match signer.keypair with
  | none => explicit
  | some secret => explicit.set signer.address secret

def explicitKeys (signers : List Handle) : Dict Address Bytes := signers.foldl addExplicit .empty

def signSlot (sigverify : Bool) (bytes : Bytes) (address : Address) : Option Bytes → Except SigningError Bytes
  | some secret =>
    match platform.readKeypair secret with
    | .error text => .error (.badSecret text)
    | .ok keypair => .ok (sign keypair bytes)
  | none => if sigverify then .error (.unknownSigner address) else .ok placeholder

def signAll (state : State R) (payer : Handle) (signers : List Handle) (sigverify : Bool) (message : M) :
    Except SigningError (List Bytes) :=
  (required sdk message).mapM fun address =>
    signSlot platform sign sigverify (sdk.serialize message) address
      (signingSecret state payer (explicitKeys signers) address)

-- The svm is the one the payer is bound to, which need not be the global one.
def buildSignedTx (state : State R) (svm : Svm) (payer : Handle) (ixs : List ι) (signers : List Handle) (tables : List Address)
    (sigverify transactionHistory : Bool) : Svm × Except SigningError (VersionedTransaction M) :=
  if sigverify ∧ payer.keypair = none then (svm, .error .payerKeyless)
  else
    match compileMessage sdk engine svm payer.address ixs tables with
    | (svm, .error error) => (svm, .error error)
    | (svm, .ok message) =>
      if ¬ sigverify ∧ ¬ transactionHistory then
        (svm, .ok ⟨List.replicate (sdk.numRequiredSignatures message) placeholder, message⟩)
      else
        (svm, (signAll platform sdk sign state payer signers sigverify message).map fun signatures => ⟨signatures, message⟩)

end Build

section Keys

variable {R : Type} (platform : Platform R)

-- A keypair object comes from a seed or from secret bytes.
inductive Genuine : Keypair → Prop where
  | new (seed : Bytes) : Genuine (platform.newKeypair seed)
  | read (secret : Bytes) (keypair : Keypair) (accepted : platform.readKeypair secret = .ok keypair) : Genuine keypair

-- An address is the public key of its keypair and has one secret, and the bytes of
-- a keypair read back as that keypair.
structure LawfulKeys : Prop where
  bytes : ∀ secret keypair, platform.readKeypair secret = .ok keypair → keypair.bytes = secret
  address : ∀ left right, Genuine platform left → Genuine platform right → left.bytes = right.bytes → left.pubkey = right.pubkey
  secret : ∀ left right, Genuine platform left → Genuine platform right → left.pubkey = right.pubkey → left.bytes = right.bytes

def Belongs (address : Address) (secret : Bytes) : Prop :=
  ∃ keypair, Genuine platform keypair ∧ keypair.pubkey = address ∧ keypair.bytes = secret

-- An account object: a view of any address, or an address with its own keypair.
structure AccountHandle extends Handle where
  owned : ∀ secret, keypair = some secret → Belongs platform address secret

theorem belongs_unique (lawful : LawfulKeys platform) (address : Address) (first second : Bytes)
    (left : Belongs platform address first) (right : Belongs platform address second) : first = second := by
  obtain ⟨keypair, genuine, rfl, rfl⟩ := left
  obtain ⟨other, otherGenuine, same, rfl⟩ := right
  exact lawful.secret keypair other genuine otherGenuine same.symm

theorem created_genuine (state : State R) (action : Step R) (keypair : Keypair)
    (isCreated : created platform state action = some keypair) : Genuine platform keypair := by
  cases action with
  | newAccount =>
    cases isCreated
    exact .new _
  | fromSecret secret =>
    cases accepted : platform.readKeypair secret with
    | error text => simp [created, accepted, Except.toOption] at isCreated
    | ok read =>
      have same : read = keypair := by simpa [created, accepted, Except.toOption] using isCreated
      exact .read secret keypair (same ▸ accepted)
  | _ => cases isCreated

theorem created_keys_genuine (baseSeed : Bytes) (state : State R) (steps : List (Step R)) :
    ∀ keypair ∈ createdKeys platform baseSeed state steps, Genuine platform keypair := by
  induction steps generalizing state with
  | nil => simp [createdKeys]
  | cons action rest ih =>
    intro keypair inside
    rcases List.mem_append.mp inside with here | later
    · exact created_genuine platform state action keypair (Option.mem_toList.mp here)
    · exact ih (step platform baseSeed state action) keypair later

theorem last_key_belongs (keys : List Keypair) (genuine : ∀ keypair ∈ keys, Genuine platform keypair) (address : Address)
    (secret : Bytes) (last : lastKey keys address = some secret) : Belongs platform address secret := by
  obtain ⟨keypair, found, rfl⟩ := Option.map_eq_some_iff.mp last
  have inside := List.mem_reverse.mp (List.mem_of_find?_eq_some found)
  have same : keypair.pubkey = address := by simpa using List.find?_some found
  exact ⟨keypair, genuine keypair inside, same, rfl⟩

theorem keystore_belongs (baseSeed : Bytes) (svm : LiteSvm) (random : R) (steps : List (Step R)) (address : Address)
    (secret : Bytes) (filed : (run platform baseSeed (.start svm random) steps).keystore.get address = some secret) :
    Belongs platform address secret := by
  rw [run_keystore, State.start, get_empty, Option.or_none] at filed
  exact last_key_belongs platform _ (created_keys_genuine platform baseSeed _ steps) address secret filed

theorem add_explicit_get (explicit : Dict Address Bytes) (signer : Handle) (address : Address) :
    (addExplicit explicit signer).get address =
      if address = signer.address then signer.keypair.or (explicit.get address) else explicit.get address := by
  rw [addExplicit]
  cases signer.keypair with
  | none => simp
  | some secret =>
    rw [get_set]
    rfl

theorem explicit_source (signers : List Handle) (explicit : Dict Address Bytes) (address : Address) (secret : Bytes)
    (found : (signers.foldl addExplicit explicit).get address = some secret) :
    (∃ signer ∈ signers, signer.address = address ∧ signer.keypair = some secret) ∨ explicit.get address = some secret := by
  induction signers generalizing explicit with
  | nil => exact .inr found
  | cons signer rest ih =>
    rcases ih (addExplicit explicit signer) found with ⟨later, inside, held⟩ | before
    · exact .inl ⟨later, by simp [inside], held⟩
    · rw [add_explicit_get] at before
      by_cases same : address = signer.address
      · rw [if_pos same] at before
        cases held : signer.keypair with
        | none =>
          rw [held, Option.none_or] at before
          exact .inr before
        | some own =>
          rw [held, Option.some_or] at before
          exact .inl ⟨signer, by simp, same.symm, held.trans before⟩
      · rw [if_neg same] at before
        exact .inr before

theorem explicit_present (signers : List Handle) (explicit : Dict Address Bytes) (address : Address)
    (present : (explicit.get address).isSome = true ∨ ∃ signer ∈ signers, signer.address = address ∧ signer.keypair.isSome = true) :
    ((signers.foldl addExplicit explicit).get address).isSome = true := by
  induction signers generalizing explicit with
  | nil => simpa using present
  | cons signer rest ih =>
    refine ih (addExplicit explicit signer) ?_
    rw [add_explicit_get]
    rcases present with before | ⟨held, inside, same, some⟩
    · left
      split <;> simp [before]
    · rcases List.mem_cons.mp inside with rfl | later
      · left
        rw [if_pos same.symm]
        simp [some]
      · exact .inr ⟨held, later, same, some⟩

abbrev handles (signers : List (AccountHandle platform)) : List Handle := signers.map AccountHandle.toHandle

theorem explicit_belongs (signers : List (AccountHandle platform)) (address : Address) (secret : Bytes)
    (found : (explicitKeys (handles platform signers)).get address = some secret) : Belongs platform address secret := by
  rcases explicit_source _ .empty address secret found with ⟨signer, inside, rfl, held⟩ | before
  · obtain ⟨account, _, rfl⟩ := List.mem_map.mp inside
    exact account.owned secret held
  · cases before

theorem explicit_get_iff (lawful : LawfulKeys platform) (signers : List (AccountHandle platform)) (address : Address)
    (secret : Bytes) : (explicitKeys (handles platform signers)).get address = some secret ↔
      ∃ signer ∈ handles platform signers, signer.address = address ∧ signer.keypair = some secret := by
  constructor
  · intro found
    rcases explicit_source _ .empty address secret found with here | before
    · exact here
    · cases before
  · rintro ⟨signer, inside, rfl, held⟩
    have present := explicit_present (handles platform signers) .empty signer.address (.inr ⟨signer, inside, rfl, by simp [held]⟩)
    obtain ⟨other, found⟩ := Option.isSome_iff_exists.mp present
    have belongs := explicit_belongs platform signers signer.address other found
    obtain ⟨account, _, rfl⟩ := List.mem_map.mp inside
    rw [belongs_unique platform lawful _ secret other (account.owned secret held) belongs]
    exact found

theorem signing_secret_belongs (baseSeed : Bytes) (svm : LiteSvm) (random : R) (steps : List (Step R))
    (payer : AccountHandle platform) (signers : List (AccountHandle platform)) (address : Address) (secret : Bytes)
    (resolved : signingSecret (run platform baseSeed (.start svm random) steps) payer.toHandle
      (explicitKeys (handles platform signers)) address = some secret) : Belongs platform address secret := by
  rw [signingSecret] at resolved
  by_cases pays : address = payer.address
  · rw [if_pos pays] at resolved
    exact pays ▸ payer.owned secret resolved
  · rw [if_neg pays] at resolved
    cases given : (explicitKeys (handles platform signers)).get address with
    | none =>
      rw [given] at resolved
      exact keystore_belongs platform baseSeed svm random steps address secret resolved
    | some own =>
      rw [given] at resolved
      exact explicit_belongs platform signers address secret (given.trans resolved)

def Resolvable (state : State R) (payer : Handle) (signers : List Handle) (address : Address) : Prop :=
  (signingSecret state payer (explicitKeys signers) address).isSome = true

theorem extra_explicit (lawful : LawfulKeys platform) (front back : List (AccountHandle platform))
    (extra : AccountHandle platform) (address : Address) (secret : Bytes) :
    (explicitKeys (handles platform (front ++ extra :: back))).get address = some secret ↔
      extra.address = address ∧ extra.keypair = some secret ∨
        (explicitKeys (handles platform (front ++ back))).get address = some secret := by
  rw [explicit_get_iff platform lawful, explicit_get_iff platform lawful]
  simp only [handles, List.map_append, List.map_cons, List.mem_append, List.mem_cons, or_and_right, exists_or, exists_eq_left]
  exact or_left_comm

theorem other_secret (lawful : LawfulKeys platform) (state : State R) (payer : Handle) (front back : List (AccountHandle platform))
    (extra : AccountHandle platform) (address : Address) (other : extra.address ≠ address) :
    signingSecret state payer (explicitKeys (handles platform (front ++ extra :: back))) address =
      signingSecret state payer (explicitKeys (handles platform (front ++ back))) address := by
  have same : (explicitKeys (handles platform (front ++ extra :: back))).get address =
      (explicitKeys (handles platform (front ++ back))).get address := by
    refine Option.ext fun secret => ?_
    rw [extra_explicit platform lawful, or_iff_right fun held => other held.1]
  rw [signingSecret, signingSecret, same]

theorem known_secret (lawful : LawfulKeys platform) (baseSeed : Bytes) (svm : LiteSvm) (random : R) (steps : List (Step R))
    (payer : AccountHandle platform) (front back : List (AccountHandle platform)) (extra : AccountHandle platform)
    (known : Resolvable (run platform baseSeed (.start svm random) steps) payer.toHandle (handles platform (front ++ back))
      extra.address) :
    signingSecret (run platform baseSeed (.start svm random) steps) payer.toHandle
        (explicitKeys (handles platform (front ++ extra :: back))) extra.address =
      signingSecret (run platform baseSeed (.start svm random) steps) payer.toHandle
        (explicitKeys (handles platform (front ++ back))) extra.address := by
  obtain ⟨secret, resolved⟩ := Option.isSome_iff_exists.mp known
  have belongs := signing_secret_belongs platform baseSeed svm random steps payer (front ++ back) extra.address secret resolved
  rw [resolved]
  by_cases pays : extra.address = payer.address
  · rw [signingSecret, if_pos pays] at resolved ⊢
    exact resolved
  · rw [signingSecret, if_neg pays] at resolved ⊢
    cases given : (explicitKeys (handles platform (front ++ extra :: back))).get extra.address with
    | some own =>
      have ownBelongs := explicit_belongs platform _ extra.address own given
      rw [belongs_unique platform lawful extra.address own secret ownBelongs belongs]
    | none =>
      -- Then the shorter list gives no key either, and both fall back to the keystore.
      have without : (explicitKeys (handles platform (front ++ back))).get extra.address = none := by
        refine Option.eq_none_iff_forall_ne_some.mpr fun own found => ?_
        rw [(extra_explicit platform lawful front back extra extra.address own).mpr (.inr found)] at given
        cases given
      rw [without] at resolved
      exact resolved

end Keys

section Transactions

variable {R ι M : Type} (platform : Platform R) (sdk : Sdk ι M) (engine : Engine) (sign : Keypair → Bytes → Bytes)

def SignedBy (message : M) (address : Address) (signature : Bytes) : Prop :=
  ∃ keypair, Genuine platform keypair ∧ keypair.pubkey = address ∧ signature = sign keypair (sdk.serialize message)

theorem required_length (message : M) : (required sdk message).length = sdk.numRequiredSignatures message := by
  rw [required, List.length_take]
  exact Nat.min_eq_left (sdk.signersStatic message)

theorem slot_signed (lawful : LawfulKeys platform) (message : M) (address : Address) (resolved : Option Bytes)
    (belongs : ∀ secret, resolved = some secret → Belongs platform address secret) (signature : Bytes)
    (signed : signSlot platform sign true (sdk.serialize message) address resolved = .ok signature) :
    SignedBy platform sdk sign message address signature := by
  cases resolved with
  | none => cases signed
  | some secret =>
    obtain ⟨filed, genuine, rfl, rfl⟩ := belongs secret rfl
    cases accepted : platform.readKeypair filed.bytes with
    | error text => simp [signSlot, accepted] at signed
    | ok keypair =>
      have same : sign keypair (sdk.serialize message) = signature := by simpa [signSlot, accepted] using signed
      have isGenuine : Genuine platform keypair := .read filed.bytes keypair accepted
      refine ⟨keypair, isGenuine, ?_, same.symm⟩
      exact lawful.address keypair filed isGenuine genuine (lawful.bytes _ _ accepted)

theorem built_signed (state : State R) (svm after : Svm) (payer : Handle) (ixs : List ι) (signers : List Handle)
    (tables : List Address) (sigverify history : Bool) (tx : VersionedTransaction M) (signing : sigverify ∨ history)
    (built : buildSignedTx platform sdk engine sign state svm payer ixs signers tables sigverify history = (after, .ok tx)) :
    compileMessage sdk engine svm payer.address ixs tables = (after, .ok tx.message) ∧
      signAll platform sdk sign state payer signers sigverify tx.message = .ok tx.signatures := by
  rw [buildSignedTx] at built
  split at built
  · cases built
  · split at built
    · cases built
    · rename_i middle message compiled
      have full : ¬ (¬ sigverify = true ∧ ¬ history = true) := by tauto
      rw [if_neg full] at built
      cases signed : signAll platform sdk sign state payer signers sigverify message with
      | error e =>
        rw [signed] at built
        cases built
      | ok signatures =>
        rw [signed] at built
        cases built
        exact ⟨compiled, signed⟩

theorem signing_complete (lawful : LawfulKeys platform) (baseSeed : Bytes) (svm : LiteSvm) (random : R) (steps : List (Step R))
    (bound : Svm) (payer : AccountHandle platform) (ixs : List ι) (front back : List (AccountHandle platform))
    (tables : List Address) (history : Bool) :
    (∀ after tx, buildSignedTx platform sdk engine sign (run platform baseSeed (.start svm random) steps) bound payer.toHandle ixs
        (handles platform (front ++ back)) tables true history = (after, .ok tx) →
      tx.signatures.length = sdk.numRequiredSignatures tx.message ∧
        List.Forall₂ (SignedBy platform sdk sign tx.message) (required sdk tx.message) tx.signatures) ∧
    ∀ extra : AccountHandle platform,
      (∀ after message, compileMessage sdk engine bound payer.address ixs tables = (after, .ok message) →
          extra.address ∉ required sdk message) ∨
        Resolvable (run platform baseSeed (.start svm random) steps) payer.toHandle (handles platform (front ++ back)) extra.address →
      buildSignedTx platform sdk engine sign (run platform baseSeed (.start svm random) steps) bound payer.toHandle ixs
          (handles platform (front ++ extra :: back)) tables true history =
        buildSignedTx platform sdk engine sign (run platform baseSeed (.start svm random) steps) bound payer.toHandle ixs
          (handles platform (front ++ back)) tables true history := by
  constructor
  · intro after tx built
    obtain ⟨_, signed⟩ := built_signed platform sdk engine sign _ bound after payer.toHandle ixs _ tables true history tx
      (.inl rfl) built
    have each := map_m_ok _ _ _ signed
    refine ⟨each.length_eq.symm.trans (required_length sdk tx.message), each.imp fun address signature slot => ?_⟩
    exact slot_signed platform sdk sign lawful tx.message address _
      (signing_secret_belongs platform baseSeed svm random steps payer (front ++ back) address) signature slot
  · intro extra harmless
    rw [buildSignedTx, buildSignedTx]
    split
    · rfl
    · cases compiled : compileMessage sdk engine bound payer.address ixs tables with
      | mk after outcome =>
        cases outcome with
        | error e => rfl
        | ok message =>
          have same : signAll platform sdk sign (run platform baseSeed (.start svm random) steps) payer.toHandle
              (handles platform (front ++ extra :: back)) true message =
              signAll platform sdk sign (run platform baseSeed (.start svm random) steps) payer.toHandle
                (handles platform (front ++ back)) true message := by
            refine map_m_congr _ _ _ fun address isRequired => ?_
            by_cases here : extra.address = address
            · subst here
              rcases harmless with absent | known
              · exact absurd isRequired (absent after message compiled)
              · rw [known_secret platform lawful baseSeed svm random steps payer front back extra known]
            · rw [other_secret platform lawful _ _ front back extra address here]
          simp only [same]

end Transactions

def keyOf (seed : Bytes) : Address := ⟨(seed ++ List.replicate 32 0).take 32, by simp⟩

def copied (key : Address) : Keypair := ⟨key, key.bytes ++ key.bytes⟩

def copyPlatform : Platform Nat :=
  { countingPlatform with
    newKeypair := fun seed => copied (keyOf seed)
    readKeypair := fun secret => if (copied (keyOf secret)).bytes = secret then .ok (copied (keyOf secret)) else .error [] }

theorem copy_genuine (keypair : Keypair) (genuine : Genuine copyPlatform keypair) : keypair = copied keypair.pubkey := by
  cases genuine with
  | new seed => rfl
  | read secret _ accepted =>
    dsimp only [copyPlatform] at accepted
    split at accepted
    · cases accepted
      rfl
    · cases accepted

theorem copy_lawful : LawfulKeys copyPlatform := by
  constructor
  · intro secret keypair accepted
    dsimp only [copyPlatform] at accepted
    split at accepted
    · cases accepted
      assumption
    · cases accepted
  · intro left right leftGenuine rightGenuine same
    rw [copy_genuine left leftGenuine, copy_genuine right rightGenuine] at same
    have halves := congrArg (List.take 32) same
    have bytes : left.pubkey.bytes = right.pubkey.bytes := by
      simpa [copied, List.take_append_of_le_length, left.pubkey.size, right.pubkey.size] using halves
    cases first : left.pubkey with
    | mk leftBytes _ =>
      cases second : right.pubkey with
      | mk rightBytes _ =>
        rw [first, second] at bytes
        cases bytes
        rfl
  · intro left right leftGenuine rightGenuine same
    rw [copy_genuine left leftGenuine, copy_genuine right rightGenuine, same]

def payerSdk : Sdk Bytes (Address × Bytes) where
  newWithBlockhash ixs payer _ := (payer, ixs.flatten)
  tryCompile payer ixs _ _ := .ok (payer, ixs.flatten)
  numRequiredSignatures _ := 1
  staticAccountKeys message := [message.1]
  serialize message := message.1.bytes ++ message.2
  signersStatic _ := Nat.le_refl 1
  legacyPayer _ _ _ := rfl
  tablesPayer payer ixs tables blockhash message compiled := by
    cases compiled
    rfl

def plainSign (keypair : Keypair) (bytes : Bytes) : Bytes := 1 :: keypair.bytes ++ bytes

def blankEngine : Engine := ⟨fun _ _ _ => none, fun _ => .error [], fun _ => .error [], 0, id, fun _ => none, ⟨0, 0⟩, []⟩

def blankSvm : Svm := ⟨fun _ => none, ⟨0, 0⟩, [], none⟩

def ownAccount : AccountHandle copyPlatform where
  address := keyOf [7]
  keypair := some (copied (keyOf [7])).bytes
  owned secret held := by
    cases held
    exact ⟨copied (keyOf [7]), .new [7], rfl, rfl⟩

theorem signing_complete_own :
    (buildSignedTx copyPlatform payerSdk blankEngine plainSign (run copyPlatform [] (.start plainSvm 0) [.newAccount]) blankSvm
        ownAccount.toHandle [[5]] [] [] true true).2 = .ok ⟨[plainSign (copied (keyOf [7])) ((keyOf [7]).bytes ++ [5])], (keyOf [7], [5])⟩ ∧
      ∀ after tx, buildSignedTx copyPlatform payerSdk blankEngine plainSign
          (run copyPlatform [] (.start plainSvm 0) [.newAccount]) blankSvm ownAccount.toHandle [[5]] [] [] true true = (after, .ok tx) →
        tx.signatures.length = 1 ∧
          List.Forall₂ (SignedBy copyPlatform payerSdk plainSign tx.message) (required payerSdk tx.message) tx.signatures :=
  ⟨rfl, (signing_complete copyPlatform payerSdk blankEngine plainSign copy_lawful [] plainSvm 0 [.newAccount] blankSvm ownAccount
    [[5]] [] [] [] true).1⟩

end WakeSol.Harness
