import WakeSol.Gen.Align
import WakeSol.Gen.Attributes

/- What becomes of the names of a document: the fields of a struct or a variant as
   attributes, and the arguments and accounts a decoded instruction reports. -/
set_option autoImplicit false

namespace WakeSol.Gen

open TextLib RadixLib DictLib FallibleLib Codec WireLib Interface

section Reports

theorem decoder_names (names : List Name) (distinct : names.Nodup) (nodes : List Node) (size : nodes.length = names.length)
    (env : Env) (data : Bytes) (args : Args) (decoded : makeBorshDecoder (names.zip nodes) env data = .ok args) :
    args.map Prod.fst = names := by
  have keys : (names.zip nodes).map Prod.fst = names := List.map_fst_zip (Nat.le_of_eq size.symm)
  rw [makeBorshDecoder] at decoded
  split at decoded
  · cases decoded
  · rename_i values cur ran
    split at decoded
    · cases decoded
    · cases decoded
      have read := map_m_size _ _ _ _ _ ran
      have fronts : (names.zip values).map Prod.fst = names := by
        apply List.map_fst_zip
        rw [read, List.length_zip, size, Nat.min_self]
      rw [keys, dict_of_distinct _ (by rw [fronts]; exact distinct), fronts]

variable {python : Python} (p : ReflectedBuilder python)

def Reports (values : List Value) (raws : List Bytes) : Prop :=
  ∀ extra, p.registration.iface.decode p.b.cache (p.b.ix.discriminator ++ raws.flatten) (p.b.ix.accounts.length + extra) =
    .ok ⟨p.registration.programName, some p.b.ix.name, (p.b.ix.args.map Prod.fst).zip values,
      p.b.ix.accounts.map (fun account => some account.name) ++ List.replicate extra none⟩

structure OwnNames : Prop where
  bound : p.Bound
  arguments : ∀ arg ∈ p.b.ix.args, python.spelled p.b.owner (mangle arg.1) = arg.1
  accounts : ∀ account ∈ p.b.ix.accounts, readBack python p.b.owner account.name = account.name

theorem self_renamed (spelling : Spelling python) (own : OwnNames p) : selfName ∉ p.b.argKeys := by
  intro inside
  obtain ⟨arg, isArg, same⟩ := List.mem_map.mp inside
  have named := own.arguments arg isArg
  rw [same] at named
  rw [← named, show mangle selfName = ['s', 'e', 'l', 'f', '_'] from rfl,
    spelled_plain python spelling p.b.owner _ (by decide) (by decide)] at same
  exact absurd same (by decide)

theorem own_names_report (spelling : Spelling python) (values : List Value)
    (typed : List.Forall₂ (Typed p.b.cache maxDecodeDepth) p.b.nodes values) (fits : ∀ value ∈ values, value.tagsFit = true)
    (raws : List Bytes) (encoded : List.Forall₂ (fun (entry : Node × Value) raw => encode p.b.cache entry.2 entry.1 = .ok raw)
      (p.b.nodes.zip values) raws) (own : OwnNames p) : Reports p values raws := by
  intro extra
  have arguments : p.b.argKeys = p.b.ix.args.map Prod.fst := List.map_congr_left own.arguments
  have accounts : p.b.accountKeys.map mangleBack = p.b.ix.accounts.map IxAccount.name := by
    rw [EmittedBuilder.accountKeys, List.map_map]
    exact List.map_congr_left own.accounts
  rw [bound_decodes p spelling own.bound (self_renamed p spelling own) values typed fits raws encoded, arguments, accounts]
  have size : p.b.ix.accounts.length = (p.b.ix.accounts.map IxAccount.name).length := (List.length_map _).symm
  rw [size, padded_names, List.map_map]
  rfl

theorem report_own_names (spelling : Spelling python) (values : List Value) (sized : values.length = p.b.ix.args.length)
    (raws : List Bytes) (reports : Reports p values raws) : OwnNames p := by
  have decoded := reports 0
  by_cases bound : p.Bound
  · obtain ⟨d, nodes, selected, _, discriminator, names, size, decoder⟩ := bound_definition p bound raws.flatten
    rw [ProgramInterface.decode, selected] at decoded
    simp only [discriminator, List.drop_left, decoder] at decoded
    cases ran : makeBorshDecoder ((p.signature.dataParams.map Prod.fst).zip nodes) p.b.cache raws.flatten with
    | error e =>
      rw [ran] at decoded
      cases decoded
    | ok args =>
      rw [ran] at decoded
      simp only [Except.ok.injEq, DecodedInstruction.mk.injEq] at decoded
      obtain ⟨_, _, isArgs, isAccounts⟩ := decoded
      have read := decoder_names _ (data_params_distinct p.signature) nodes (by rw [List.length_map, size]) _ _ args ran
      refine ⟨bound, ?_, ?_⟩
      · -- Nothing is passed over, so every key is a name of the document.
        have whole : (p.b.ix.args.map Prod.fst).length ≤ values.length := by rw [List.length_map, sized]
        rw [isArgs, List.map_fst_zip whole, data_names] at read
        have kept : p.b.argKeys.filter (fun name => name ≠ selfName) = p.b.argKeys := by
          refine List.filter_sublist.eq_of_length ?_
          rw [← read, List.length_map, EmittedBuilder.argKeys, List.length_map]
        rw [kept, EmittedBuilder.argKeys, List.map_inj_left] at read
        exact fun arg inside => (read arg inside).symm
      · have size : p.b.ix.accounts.length = (p.b.accountKeys.map mangleBack).length := by
          rw [List.length_map, EmittedBuilder.accountKeys, List.length_map]
        rw [names, account_names p spelling, size, padded_names, List.append_left_inj, EmittedBuilder.accountKeys, List.map_map,
          List.map_map, List.map_inj_left] at isAccounts
        exact fun account inside => Option.some.inj (isAccounts account inside)
  · rw [ProgramInterface.decode, lost_definition p bound] at decoded
    simp only [Except.ok.injEq, DecodedInstruction.mk.injEq] at decoded
    cases decoded.2.1

end Reports

def classWord : Name := ['c', 'l', 'a', 's', 's']

def fromWord : Name := ['f', 'r', 'o', 'm']

def pairType (first second : Name) : TypeDef :=
  ⟨['P', 'a', 'i', 'r'], .struct [⟨some first, .scalar u8Name⟩, ⟨some second, .scalar u8Name⟩], borshName⟩

def pairClass (first second : Name) : EmittedClass :=
  ⟨['P', 'a', 'i', 'r'], .struct [(mangle first, .name u8Name), (mangle second, .name u8Name)] none⟩

def amountClass : NamedClass plainPython where
  tdef := pairType amountParam classWord
  borshMeta := none
  cls := pairClass amountParam classWord
  emits := rfl
  scope := moduleScope []
  ordinary := by
    change ∀ name ∈ [amountParam, classWord ++ ['_']], ¬ ['_', '_'] <+: name
    decide

def amountHints : AnnFields := ⟨[(amountParam, .intAlias 1 false), (classWord ++ ['_'], .intAlias 1 false)], by decide⟩

def swapIx : Instruction where
  name := ['s', 'w', 'a', 'p']
  discriminator := [9]
  args := [(classWord, .scalar u8Name)]
  accounts := [⟨fromWord ++ ['_'], false, false, false, none⟩]
  returns := none

def swapMethod : Method :=
  ⟨swapIx.name, swapIx.name, swapIx.discriminator, [(classWord ++ ['_'], .name u8Name)], [fromWord ++ ['_'], remainingName], none,
    methodBody swapIx⟩

def swapBuilder : EmittedBuilder plainPython where
  ix := swapIx
  method := swapMethod
  emits := rfl
  owner := bankName
  programId := Address.fill 9
  scope := moduleScope []
  anns := [.intAlias 1 false]
  evaluates := rfl
  table := []
  place := []
  before := []
  imported := []
  nodes := [.int 1 false]
  compiles := amount_compiles
  cache := []
  grown := deposit_grown

def swapSignature : Signature where
  positional := [(classWord ++ ['_'], .intAlias 1 false)]
  keywordOnly := [fromWord ++ ['_'], remainingName]
  distinct := by simp

def swapBuilderMethod : BuilderMethod := ⟨⟨swapIx.name, swapIx.discriminator, .borsh, none⟩, .ok swapSignature⟩

def swapProgram : ReflectedBuilder plainPython where
  b := swapBuilder
  parameters := by decide
  signature := swapSignature
  positional := rfl
  keywordOnly := rfl
  returns := none
  methods := [(swapIx.name, swapBuilderMethod)]
  index := 0
  listed := rfl
  ordinary := by decide
  prefixFree := List.pairwise_singleton _ _
  registration :=
    { methods := [swapBuilderMethod]
      programId := []
      programName := []
      overrides := []
      before := []
      after := []
      iface := ⟨[], [], [⟨swapIx.name, swapIx.discriminator, swapSignature.accountNames,
        makeBorshDecoder [(classWord ++ ['_'], .int 1 false)], none⟩], []⟩
      built := rfl
      prefixFree := List.pairwise_singleton _ _ }
  bound := rfl
  derived := rfl
  grown := deposit_grown

def lossyHints : AnnFields := ⟨[(classWord ++ ['_'], .intAlias 1 false)], by decide⟩

end WakeSol.Gen
