import WakeSol.Gen.Load
import WakeSol.Lib.Fallible

/- Where the layouts of an emitted module come from: every annotation of every
   class is the mapped source of some type node. -/
set_option autoImplicit false

namespace WakeSol.Gen

open TextLib RadixLib DictLib FallibleLib Codec WireLib Interface

def Mapped (python : Python) (src : AnnSrc) : Prop := ∃ ty, mapType python ty = .ok src

def EmittedBody.sources : EmittedBody → List AnnSrc
  | .struct lines _ => lines.map Prod.snd
  | .intEnum _ => []
  | .borshEnum variants => variants.flatMap fun variant => variant.fields.map Prod.snd

variable (python : Python)

theorem lines_mapped (fields : List Field) (lines : List (Name × AnnSrc))
    (emitted : fieldLines python fields = .ok lines) : ∀ src ∈ lines.map Prod.snd, Mapped python src := by
  intro src inside
  obtain ⟨line, member, rfl⟩ := List.mem_map.mp inside
  obtain ⟨source, _, mapped⟩ := forall_left _ _ _ (map_m_ok _ _ _ emitted) line member
  obtain ⟨ann, isMapped, rfl⟩ := map_ok _ _ _ mapped
  exact ⟨_, isMapped⟩

theorem enum_mapped (variants : List (Name × List Field)) (body : EmittedBody)
    (emitted : emitEnum python variants = .ok body) : ∀ src ∈ body.sources, Mapped python src := by
  rw [emitEnum] at emitted
  split at emitted
  · cases emitted
    simp [EmittedBody.sources]
  · obtain ⟨emittedVariants, ran, rfl⟩ := map_ok _ _ _ emitted
    intro src inside
    obtain ⟨variant, member, isSource⟩ := List.mem_flatMap.mp inside
    obtain ⟨source, _, mapped⟩ := forall_left _ _ _ (map_m_ok _ _ _ ran) variant member
    obtain ⟨lines, isLines, rfl⟩ := map_ok _ _ _ mapped
    exact lines_mapped python _ lines isLines src isSource

theorem typedef_mapped (tdef : TypeDef) (borshMeta : Option BorshMeta) (cls : EmittedClass)
    (emitted : emitTypedef python tdef borshMeta = .ok cls) : ∀ src ∈ cls.body.sources, Mapped python src := by
  obtain ⟨name, tbody, serialization⟩ := tdef
  unfold emitTypedef at emitted
  by_cases foreign : serialization ≠ borshName
  · rw [if_pos foreign] at emitted
    cases emitted
  · rw [if_neg foreign] at emitted
    cases tbody with
    | struct fields =>
      obtain ⟨body, ran, rfl⟩ := map_ok _ _ _ emitted
      obtain ⟨lines, isLines, rfl⟩ := map_ok _ _ _ ran
      exact lines_mapped python _ lines isLines
    | enum variants =>
      cases borshMeta with
      | some found => cases emitted
      | none =>
        obtain ⟨body, ran, rfl⟩ := map_ok _ _ _ emitted
        exact enum_mapped python _ body ran

variable (idl : Idl)

theorem root_mapped (borshMeta : Root → BorshMeta) (root : Root) (cls : EmittedClass)
    (emitted : emitRoot python idl borshMeta root = .ok cls) : ∀ src ∈ cls.body.sources, Mapped python src := by
  rw [emitRoot] at emitted
  split at emitted
  · cases emitted
  · exact typedef_mapped python _ _ cls emitted

variable (module : Module)

theorem module_class_source (emitted : emitModule python idl = .ok module)
    (cls : EmittedClass) (inside : cls ∈ module.classes) :
    (∃ tdef, emitTypedef python tdef none = .ok cls) ∨ (∃ root, emitRoot python idl accountMeta root = .ok cls) ∨
      ∃ root, emitRoot python idl eventMeta root = .ok cls := by
  obtain ⟨types, isTypes, emitted⟩ := bind_ok _ _ _ emitted
  obtain ⟨accounts, isAccounts, emitted⟩ := bind_ok _ _ _ emitted
  obtain ⟨events, isEvents, emitted⟩ := bind_ok _ _ _ emitted
  obtain ⟨methods, isMethods, emitted⟩ := bind_ok _ _ _ emitted
  cases emitted
  rcases List.mem_append.mp inside with front | isEvent
  · rcases List.mem_append.mp front with isType | isAccount
    · obtain ⟨tdef, _, ran⟩ := forall_left _ _ _ (map_m_ok _ _ _ isTypes) cls isType
      exact .inl ⟨tdef, ran⟩
    · obtain ⟨root, _, ran⟩ := forall_left _ _ _ (map_m_ok _ _ _ isAccounts) cls isAccount
      exact .inr (.inl ⟨root, ran⟩)
  · obtain ⟨root, _, ran⟩ := forall_left _ _ _ (map_m_ok _ _ _ isEvents) cls isEvent
    exact .inr (.inr ⟨root, ran⟩)

theorem module_mapped (emitted : emitModule python idl = .ok module) :
    ∀ cls ∈ module.classes, ∀ src ∈ cls.body.sources, Mapped python src := by
  intro cls inside
  rcases module_class_source python idl module emitted cls inside with ⟨tdef, ran⟩ | ⟨root, ran⟩ | ⟨root, ran⟩
  · exact typedef_mapped python tdef none cls ran
  · exact root_mapped python idl accountMeta root cls ran
  · exact root_mapped python idl eventMeta root cls ran

theorem instruction_emitted (ix : Instruction) (method : Method) (emitted : emitInstruction python ix = .ok method) :
    collision [] (ix.args.map fun arg => mangle arg.1) = none ∧
    collision (ix.args.map fun arg => mangle arg.1) (ix.accounts.map fun a => mangle a.name) = none ∧
    ∃ anns returns, (ix.args.mapM fun arg => mapType python arg.2) = .ok anns ∧ ix.returns.mapM (mapType python) = .ok returns ∧
      method = ⟨mangle ix.name, ix.name, ix.discriminator, (ix.args.map fun arg => mangle arg.1).zip anns,
        (ix.accounts.map fun a => mangle a.name) ++ [remainingName], returns, methodBody ix⟩ := by
  unfold emitInstruction at emitted
  simp only at emitted
  split at emitted
  · cases emitted
  · rename_i freeArgs
    split at emitted
    · cases emitted
    · rename_i freeAccounts
      obtain ⟨anns, isAnns, emitted⟩ := bind_ok _ _ _ emitted
      obtain ⟨returns, isReturns, emitted⟩ := bind_ok _ _ _ emitted
      cases emitted
      refine ⟨Option.eq_none_iff_forall_ne_some.mpr freeArgs, Option.eq_none_iff_forall_ne_some.mpr freeAccounts, ?_⟩
      exact ⟨anns, returns, isAnns, isReturns, rfl⟩

def FromIdl (python : Python) (classes : List Name) (ann : Ann) : Prop :=
  ∃ src, Mapped python src ∧ evalAnn (moduleScope classes) src = .ok ann

def HintsFrom (python : Python) (classes : List Name) (hints : Except Raised AnnFields) : Prop :=
  ∀ anns, hints = .ok anns → ∀ entry ∈ anns.entries, FromIdl python classes entry.2

def ClassFrom (python : Python) (classes : List Name) : ClassDef → Prop
  | .dataclass hints _ => HintsFrom python classes hints
  | .intEnum _ => True
  | .borshEnum variants => ∀ variant ∈ variants.entries, HintsFrom python classes variant.hints

theorem zip_with_mem {α β γ : Type} (join : α → β → γ) (firsts : List α) (seconds : List β) :
    ∀ result ∈ List.zipWith join firsts seconds, ∃ first ∈ firsts, ∃ second ∈ seconds, result = join first second ∧
      (first, second) ∈ firsts.zip seconds := by
  intro result inside
  rw [← List.map_uncurry_zip_eq_zipWith] at inside
  obtain ⟨pair, member, same⟩ := List.mem_map.mp inside
  exact ⟨pair.1, (List.of_mem_zip member).1, pair.2, (List.of_mem_zip member).2, same.symm, member⟩

theorem hints_from (classes : List Name) (entries : List (Name × AnnSrc))
    (mapped : ∀ entry ∈ entries, Mapped python entry.2) : HintsFrom python classes (evalFields (moduleScope classes) entries) := by
  intro anns evaluated entry inside
  rw [evalFields] at evaluated
  split at evaluated
  · cases evaluated
  · rename_i results ran
    cases evaluated
    obtain ⟨source, isSource, result, _, rfl, paired⟩ := zip_with_mem _ _ _ entry inside
    have evaluated := (List.forall₂_iff_zip.mp (map_m_ok _ _ _ ran)).2 paired
    exact ⟨source.2, mapped source (dict_mem entries source isSource), evaluated⟩

theorem load_class_from (classes : List Name) (emitted : EmittedClass) (defined : ClassDef)
    (mapped : ∀ src ∈ emitted.body.sources, Mapped python src)
    (loaded : loadClass python (moduleScope classes) emitted = .ok defined) : ClassFrom python classes defined := by
  obtain ⟨name, body⟩ := emitted
  have spelled : ∀ (owner : Name) (lines : List (Name × AnnSrc)), (∀ src ∈ lines.map Prod.snd, Mapped python src) →
      HintsFrom python classes (evalFields (moduleScope classes) (spelledFields python owner lines)) := by
    intro owner lines isMapped
    refine hints_from python classes _ fun entry inside => ?_
    obtain ⟨line, member, rfl⟩ := List.mem_map.mp inside
    exact isMapped line.2 (List.mem_map_of_mem member)
  cases body with
  | struct lines borshMeta =>
    simp only [loadClass] at loaded
    split at loaded
    · cases loaded
      exact spelled name lines mapped
    · cases loaded
  | intEnum members =>
    simp only [loadClass] at loaded
    split at loaded
    · cases loaded
    · split at loaded
      · cases loaded
        trivial
      · cases loaded
  | borshEnum variants =>
    simp only [loadClass] at loaded
    split at loaded
    · cases loaded
    · split at loaded
      · cases loaded
        intro variant inside
        obtain ⟨entry, isEntry, rfl⟩ := List.mem_map.mp inside
        obtain ⟨source, isSource, rfl⟩ := List.mem_map.mp (dict_mem _ entry isEntry)
        exact spelled source.name source.fields fun src isSrc => mapped src (List.mem_flatMap.mpr ⟨source, isSource, isSrc⟩)
      · cases loaded

theorem table_class (table : Table) (loaded : loadModule python module = .ok table)
    (cls : Name) (defined : ClassDef) (found : table.lookup cls = some defined) :
    ∃ emitted ∈ module.classes, emitted.name = cls ∧ loadClass python module.scope emitted = .ok defined := by
  obtain ⟨entries, ran, rfl⟩ := map_ok _ _ _ loaded
  have inside := dict_mem entries _ (lookup_mem _ cls defined found)
  obtain ⟨emitted, isEmitted, loads⟩ := forall_left _ _ _ (map_m_ok _ _ _ ran) _ inside
  obtain ⟨result, loadsClass, same⟩ := map_ok _ _ _ loads
  cases same
  exact ⟨emitted, isEmitted, rfl, loadsClass⟩

theorem table_from (table : Table) (mapped : ∀ cls ∈ module.classes, ∀ src ∈ cls.body.sources, Mapped python src)
    (loaded : loadModule python module = .ok table) (cls : Name) (defined : ClassDef) (found : table.lookup cls = some defined) :
    ClassFrom python (module.classes.map EmittedClass.name) defined := by
  obtain ⟨emitted, isEmitted, _, loadsClass⟩ := table_class python module table loaded cls defined found
  exact load_class_from python _ emitted defined (mapped emitted isEmitted) loadsClass

end WakeSol.Gen
