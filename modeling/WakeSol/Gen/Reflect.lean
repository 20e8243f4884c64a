import WakeSol.Gen.Hygiene

/- The interface a generated module registers for its builder class: methods are
   found by reflection, and the names of their parameters are what a decoded
   instruction reports. -/
set_option autoImplicit false

namespace WakeSol.Gen

open TextLib RadixLib DictLib FallibleLib Codec WireLib Interface

-- A builder method among the def statements of its class body, in their order. A
-- later statement of the same name replaces an earlier one, and the interface is
-- built from what the class holds at the end. Attributes with two leading
-- underscores are read by the class machinery itself and are left out.
structure ReflectedBuilder (python : Python) where
  b : EmittedBuilder python
  parameters : b.keys.Nodup
  signature : Signature
  positional : signature.positional = b.argKeys.zip b.anns
  keywordOnly : signature.keywordOnly = b.accountKeys ++ [python.spelled b.owner remainingName]
  returns : Option Ann
  methods : List (Name × BuilderMethod)
  index : Nat
  listed : methods[index]? = some (python.spelled b.owner b.method.name,
    ⟨⟨b.ix.name, b.ix.discriminator, .borsh, returns⟩, .ok signature⟩)
  ordinary : ∀ method ∈ methods, ¬ ['_', '_'] <+: method.1
  prefixFree : PrefixFree (methods.map fun method => method.2.ix.discriminator)
  registration : Registration b.table
  bound : registration.methods = (dictOf methods).map Prod.snd
  derived : registration.overrides = []
  grown : Grown b.table [] registration.after b.cache

theorem padded_names (names : List Name) (extra : Nat) :
    paddedNames names (names.length + extra) = names.map some ++ List.replicate extra none := by
  simp [paddedNames]

theorem others_apart (discriminators : List Bytes) (free : PrefixFree discriminators) (i j : Nat) (own other : Bytes)
    (isOwn : discriminators[i]? = some own) (isOther : discriminators[j]? = some other) (body : Bytes)
    (starts : other <+: own ++ body) : j = i := by
  by_contra different
  obtain ⟨ownBound, rfl⟩ := List.getElem?_eq_some_iff.mp isOwn
  obtain ⟨otherBound, rfl⟩ := List.getElem?_eq_some_iff.mp isOther
  have apart : ¬ discriminators[j] <+: discriminators[i] ∧ ¬ discriminators[i] <+: discriminators[j] := by
    rcases Nat.lt_or_gt_of_ne different with before | after
    · exact List.pairwise_iff_getElem.mp free j i otherBound ownBound before
    · exact (List.pairwise_iff_getElem.mp free i j ownBound otherBound after).symm
  rcases Nat.le_total discriminators[j].length discriminators[i].length with shorter | longer
  · exact apart.1 (List.prefix_of_prefix_length_le starts (List.prefix_append _ _) shorter)
  · exact apart.2 (List.prefix_of_prefix_length_le (List.prefix_append _ _) starts longer)

section Reflection

variable {python : Python} (p : ReflectedBuilder python)

def ReflectedBuilder.key : Name := python.spelled p.b.owner p.b.method.name

def ReflectedBuilder.method : BuilderMethod := ⟨⟨p.b.ix.name, p.b.ix.discriminator, .borsh, p.returns⟩, .ok p.signature⟩

def ReflectedBuilder.Bound : Prop := p.key ∉ (p.methods.drop (p.index + 1)).map Prod.fst

theorem methods_split : p.methods = p.methods.take p.index ++ (p.key, p.method) :: p.methods.drop (p.index + 1) := by
  obtain ⟨inside, same⟩ := List.getElem?_eq_some_iff.mp p.listed
  have isOwn : (p.key, p.method) = p.methods[p.index] := same.symm
  rw [isOwn, List.getElem_cons_drop, List.take_append_drop]

theorem bound_method (bound : p.Bound) : ∃ i : Nat, p.registration.methods[i]? = some p.method := by
  have found : (dictOf p.methods).lookup p.key = some p.method := by
    rw [methods_split p, dictOf, List.foldl_append, List.foldl_cons, dict_from_other _ _ _ bound, dict_set_lookup, if_pos rfl]
  have inside : p.method ∈ p.registration.methods := by
    rw [p.bound]
    exact List.mem_map.mpr ⟨_, lookup_mem _ _ _ found, rfl⟩
  exact List.getElem?_of_mem inside

theorem lost_method (lost : ¬ p.Bound) (body : Bytes) : ∀ method ∈ p.registration.methods,
    ¬ method.ix.discriminator <+: p.b.ix.discriminator ++ body := by
  intro method registered starts
  rw [p.bound] at registered
  obtain ⟨⟨key, _⟩, inside, rfl⟩ := List.mem_map.mp registered
  obtain ⟨j, isEntry⟩ := List.getElem?_of_mem (dict_mem p.methods _ inside)
  have own : (p.methods.map fun method => method.2.ix.discriminator)[p.index]? = some p.b.ix.discriminator := by
    rw [List.getElem?_map, p.listed]
    rfl
  have same : j = p.index := by
    refine others_apart _ p.prefixFree p.index j _ _ own ?_ body starts
    rw [List.getElem?_map, isEntry]
    rfl
  rw [same, p.listed] at isEntry
  obtain ⟨isKey, isMethod⟩ := Prod.mk.inj (Option.some.inj isEntry)
  -- The dictionary holds a later method under this name.
  obtain ⟨last, found, isLast⟩ := dict_from_last _ (dictSet (dictOf (p.methods.take p.index)) p.key p.method) p.key (not_not.mp lost)
  have held : (dictOf p.methods).lookup p.key = some last := by
    rw [methods_split p, dictOf, List.foldl_append, List.foldl_cons]
    exact found
  have kept := lookup_of_mem _ (dict_distinct p.methods) _ _ inside
  rw [← isKey] at kept
  rw [show python.spelled p.b.owner p.b.method.name = p.key from rfl, held, Option.some.injEq] at kept
  obtain ⟨k, isLater⟩ := List.getElem?_of_mem isLast
  rw [List.getElem?_drop] at isLater
  have again : p.index + 1 + k = p.index := by
    refine others_apart _ p.prefixFree p.index (p.index + 1 + k) _ last.ix.discriminator own ?_ body ?_
    · rw [List.getElem?_map, isLater]
      rfl
    · rw [kept]
      exact starts
  omega

theorem argument_sizes : p.b.argKeys.length = p.b.anns.length ∧ p.b.argKeys.length = p.b.nodes.length := by
  obtain ⟨positional, _, sized⟩ := builder_sizes p.b
  have evaluated := (map_m_ok _ _ _ p.b.evaluates).length_eq
  rw [List.length_map] at evaluated
  have keys : p.b.argKeys.length = p.b.ix.args.length := List.length_map _
  omega

theorem positional_names : p.signature.positional.map Prod.fst = p.b.argKeys := by
  rw [p.positional]
  exact List.map_fst_zip (Nat.le_of_eq (argument_sizes p).1)

-- Reflection passes over a parameter called self.
theorem data_names : p.signature.dataParams.map Prod.fst = p.b.argKeys.filter fun name => name ≠ selfName := by
  rw [← positional_names p, List.filter_map]
  rfl

theorem data_params (free : selfName ∉ p.b.argKeys) : p.signature.dataParams = p.b.argKeys.zip p.b.anns := by
  rw [← p.positional]
  refine List.filter_eq_self.mpr fun param inside => ?_
  refine decide_eq_true fun same => free ?_
  rw [← positional_names p, ← same]
  exact List.mem_map_of_mem inside

theorem account_names (spelling : Spelling python) : p.signature.accountNames = p.b.accountKeys.map mangleBack := by
  have last : python.spelled p.b.owner remainingName = remainingName :=
    spelled_plain python spelling p.b.owner remainingName (by decide) (by decide)
  have apart : remainingName ∉ p.b.accountKeys := by
    have distinct := p.parameters
    rw [EmittedBuilder.keys, List.nodup_cons] at distinct
    have accounts := (List.nodup_append.mp (List.nodup_append.mp distinct.2).2.1).2.2
    exact fun inside => accounts _ inside _ (List.mem_singleton.mpr last.symm) rfl
  rw [Signature.accountNames, p.keywordOnly, last, List.filter_append]
  have kept : p.b.accountKeys.filter (fun name => name ≠ remainingName) = p.b.accountKeys :=
    List.filter_eq_self.mpr fun name inside => decide_eq_true fun same => apart (same ▸ inside)
  rw [kept]
  simp

theorem bound_definition (bound : p.Bound) (body : Bytes) :
    ∃ d nodes, matchDef p.registration.iface.defs (p.b.ix.discriminator ++ body) = some d ∧ d.name = p.b.ix.name ∧
      d.discriminator = p.b.ix.discriminator ∧ d.accountNames = p.signature.accountNames ∧
      nodes.length = p.signature.dataParams.length ∧
      d.decodeArgs = makeBorshDecoder ((p.signature.dataParams.map Prod.fst).zip nodes) := by
  obtain ⟨i, isMethod⟩ := bound_method p bound
  obtain ⟨_, registered⟩ := build_registers p.b.table p.registration.methods p.registration.programId p.registration.programName
    p.registration.overrides p.registration.before p.registration.after p.registration.iface p.registration.built
  obtain ⟨d, found, kept⟩ := forall_at _ _ _ registered i p.method isMethod
  obtain ⟨signature, nodes, signed, lowered, names, decoder⟩ := kept.decodes rfl (by rw [p.derived]; rfl)
  cases signed
  have free : PrefixFree (p.registration.iface.defs.map InstructionDef.discriminator) := by
    rw [registered_discriminators _ _ _ _ registered]
    exact p.registration.prefixFree
  have selected := match_prefix_free _ free d (List.mem_of_getElem? found) body
  have isDiscriminator : d.discriminator = p.b.ix.discriminator := kept.discriminator
  rw [isDiscriminator] at selected
  exact ⟨d, nodes, selected, kept.name, isDiscriminator, names, lowered.length_eq.symm, decoder⟩

theorem lost_definition (lost : ¬ p.Bound) (body : Bytes) :
    matchDef p.registration.iface.defs (p.b.ix.discriminator ++ body) = none := by
  obtain ⟨_, registered⟩ := build_registers p.b.table p.registration.methods p.registration.programId p.registration.programName
    p.registration.overrides p.registration.before p.registration.after p.registration.iface p.registration.built
  rw [match_none]
  intro d inside starts
  have discriminator : d.discriminator ∈ p.registration.methods.map fun method => method.ix.discriminator := by
    rw [← registered_discriminators _ _ _ _ registered]
    exact List.mem_map_of_mem inside
  obtain ⟨method, isMethod, same⟩ := List.mem_map.mp discriminator
  rw [← same] at starts
  exact lost_method p lost body method isMethod starts

theorem bound_decodes (spelling : Spelling python) (bound : p.Bound) (free : selfName ∉ p.b.argKeys) (values : List Value)
    (typed : List.Forall₂ (Typed p.b.cache maxDecodeDepth) p.b.nodes values) (fits : ∀ value ∈ values, value.tagsFit = true)
    (raws : List Bytes) (encoded : List.Forall₂ (fun (entry : Node × Value) raw => encode p.b.cache entry.2 entry.1 = .ok raw)
      (p.b.nodes.zip values) raws) (nAccounts : Nat) :
    p.registration.iface.decode p.b.cache (p.b.ix.discriminator ++ raws.flatten) nAccounts =
      .ok ⟨p.registration.programName, some p.b.ix.name, p.b.argKeys.zip values,
        paddedNames (p.b.accountKeys.map mangleBack) nAccounts⟩ := by
  obtain ⟨i, isMethod⟩ := bound_method p bound
  have params := data_params p free
  have names : p.signature.dataParams.map Prod.fst = p.b.argKeys := by
    rw [params]
    exact List.map_fst_zip (Nat.le_of_eq (argument_sizes p).1)
  have anns : p.signature.dataParams.map Prod.snd = p.b.anns := by
    rw [params]
    exact List.map_snd_zip (Nat.le_of_eq (argument_sizes p).1.symm)
  have underived : p.registration.overrides.lookup p.method.ix.name = none := by
    rw [p.derived]
    rfl
  have compiled : compileLayout p.b.table p.b.place (p.signature.dataParams.map Prod.snd) p.b.before = .ok (p.b.nodes, p.b.imported) := by
    rw [anns]
    exact p.b.compiles
  obtain ⟨parts, rfl, readable, _⟩ := (layout_emits p.b.cache maxDecodeDepth p.b.nodes values typed p.b.ix.discriminator).1
    ((all_tags_fit_iff values).mpr fits)
  have same : raws = parts.map Prod.snd := by
    have one := map_m_of _ _ _ encoded
    rw [map_m_of _ _ _ (parts_encode p.b.cache maxDecodeDepth p.b.nodes parts readable)] at one
    exact (Except.ok.inj one).symm
  have decoded := (ix_decodes p.registration ⟨i, p.method, isMethod, rfl, underived, p.signature, rfl, p.b.place, p.b.before,
    p.b.imported, p.b.nodes, compiled⟩ p.b.cache p.grown parts readable nAccounts).2
  rw [same, ← names, ← account_names p spelling]
  exact decoded

end Reflection

end WakeSol.Gen
