import WakeSol.Codec.Compile

set_option autoImplicit false

namespace WakeSol.Codec

open TextLib RadixLib EndianLib WireLib

def Known (pending : List Name) (env : Env) (cls : Name) : Prop := (env.lookup cls).isSome = true ∨ cls ∈ pending

-- What a run of the compiler does to the cache: entries stay, and a new one is
-- a class of the table, not pending, lowered from its definition, whose
-- references are cached or pending.
structure Grown (table : Table) (pending : List Name) (before after : Env) : Prop where
  kept : ∀ cls compiled, before.lookup cls = some compiled → after.lookup cls = some compiled
  added : ∀ cls compiled, after.lookup cls = some compiled → before.lookup cls = some compiled ∨
    (cls ∉ pending ∧ before.lookup cls = none ∧ (∃ defined, table.lookup cls = some defined ∧ LoweredClass defined compiled) ∧
      ∀ ref ∈ compiled.refs, Known pending after ref)

variable (table : Table) (pending : List Name)

theorem known_grown (before after : Env) (grown : Grown table pending before after)
    (cls : Name) (known : Known pending before cls) : Known pending after cls := by
  rcases known with cached | waiting
  · obtain ⟨compiled, found⟩ := Option.isSome_iff_exists.mp cached
    exact .inl (by rw [grown.kept cls compiled found]; rfl)
  · exact .inr waiting

theorem grown_refl (env : Env) : Grown table pending env env :=
  ⟨fun _ _ found => found, fun _ _ found => .inl found⟩

theorem grown_trans (first second third : Env)
    (grownFirst : Grown table pending first second) (grownSecond : Grown table pending second third) :
    Grown table pending first third where
  kept cls compiled found := grownSecond.kept cls compiled (grownFirst.kept cls compiled found)
  added cls compiled found := by
    rcases grownSecond.added cls compiled found with earlier | ⟨free, absent, lowered, refs⟩
    · rcases grownFirst.added cls compiled earlier with start | ⟨free, absent, lowered, refs⟩
      · exact .inl start
      · exact .inr ⟨free, absent, lowered, fun ref inside => known_grown table pending second third grownSecond ref (refs ref inside)⟩
    · refine .inr ⟨free, ?_, lowered, refs⟩
      cases start : first.lookup cls with
      | none => rfl
      | some other =>
        rw [grownFirst.kept cls other start] at absent
        cases absent

def Runs {α : Type} (table : Table) (pending : List Name) (run : Compile α) (ends : α → Env → Prop) : Prop :=
  ∀ before result after, run before = .ok (result, after) → Grown table pending before after ∧ ends result after

section Rules

variable {α β ι : Type} (table : Table) (pending : List Name)

variable (first : Compile α)

theorem compile_bind (next : α → Compile β) (env : Env) : (first >>= next) env = match first env with
    | .ok (value, after) => next value after | .error e => .error e := by
  cases result : first env with
  | ok pair => simp [bind, StateT.bind, Except.bind, result]
  | error e => simp [bind, StateT.bind, Except.bind, result]

theorem runs_pure (value : α) (ends : α → Env → Prop) (holds : ∀ env, ends value env) :
    Runs table pending (pure value) ends := by
  intro before result after ran
  obtain ⟨rfl, rfl⟩ := Prod.mk.inj (Except.ok.inj ran)
  exact ⟨grown_refl table pending before, holds before⟩

theorem runs_throw (e : Raised) (ends : α → Env → Prop) : Runs table pending (throw e) ends := by
  intro before result after ran
  cases ran

theorem runs_bind (next : α → Compile β) (endsFirst : α → Env → Prop) (ends : β → Env → Prop)
    (runsFirst : Runs table pending first endsFirst) (runsNext : ∀ value middle, endsFirst value middle →
      Runs table pending (next value) fun result after => Grown table pending middle after → ends result after) :
    Runs table pending (first >>= next) ends := by
  intro before result after ran
  rw [compile_bind] at ran
  cases ranFirst : first before with
  | error e => simp [ranFirst] at ran
  | ok pair =>
    obtain ⟨value, middle⟩ := pair
    simp only [ranFirst] at ran
    obtain ⟨grownFirst, held⟩ := runsFirst before value middle ranFirst
    obtain ⟨grownNext, finish⟩ := runsNext value middle held middle result after ran
    exact ⟨grown_trans table pending before middle after grownFirst grownNext, finish grownNext⟩

theorem runs_return (final : α → β) (endsFirst : α → Env → Prop) (ends : β → Env → Prop)
    (runsFirst : Runs table pending first endsFirst) (holds : ∀ value env, endsFirst value env → ends (final value) env) :
    Runs table pending (first >>= fun value => pure (final value)) ends := by
  intro before result after ran
  rw [compile_bind] at ran
  cases ranFirst : first before with
  | error e => simp [ranFirst] at ran
  | ok pair =>
    obtain ⟨value, middle⟩ := pair
    simp only [ranFirst] at ran
    obtain ⟨rfl, rfl⟩ := Prod.mk.inj (Except.ok.inj ran)
    obtain ⟨grown, held⟩ := runsFirst before value middle ranFirst
    exact ⟨grown, holds value middle held⟩

theorem runs_map_m (run : ι → Compile α) (items : List ι) (ends : ι → α → Env → Prop)
    (stable : ∀ item value before after, Grown table pending before after → ends item value before → ends item value after)
    (each : ∀ item ∈ items, Runs table pending (run item) (ends item)) :
    Runs table pending (items.mapM run) fun values env => List.Forall₂ (fun item value => ends item value env) items values := by
  induction items with
  | nil =>
    rw [List.mapM_nil]
    exact runs_pure table pending [] _ fun _ => .nil
  | cons item rest ih =>
    rw [List.mapM_cons]
    refine runs_bind table pending _ _ _ _ (each item (by simp)) fun value middle held => ?_
    refine runs_return table pending _ _ _ _ (ih fun other inside => each other (by simp [inside])) ?_
    exact fun values env all grown => .cons (stable item value middle env grown held) all

theorem runs_lifted (result : Except Raised α) (ends : α → Env → Prop) (holds : ∀ value env, result = .ok value → ends value env) :
    Runs table pending (lifted result) ends := by
  intro before value after ran
  cases result with
  | error e => cases ran
  | ok found =>
    obtain ⟨rfl, rfl⟩ := Prod.mk.inj (Except.ok.inj ran)
    exact ⟨grown_refl table pending before, holds found before rfl⟩

theorem fold_m_grows (run : α → ι → Compile α) (holds : List ι → α → Env → Prop)
    (step : ∀ done value item before result after, run value item before = .ok (result, after) → holds done value before →
      Grown table pending before after ∧ holds (done ++ [item]) result after)
    (items done : List ι) (start result : α) (before after : Env) (ran : items.foldlM run start before = .ok (result, after))
    (started : holds done start before) : Grown table pending before after ∧ holds (done ++ items) result after := by
  induction items generalizing start done before with
  | nil =>
    obtain ⟨rfl, rfl⟩ := Prod.mk.inj (Except.ok.inj ran)
    exact ⟨grown_refl table pending before, by rwa [List.append_nil]⟩
  | cons item rest ih =>
    rw [List.foldlM_cons, compile_bind] at ran
    cases ranFirst : run start item before with
    | error e => simp [ranFirst] at ran
    | ok pair =>
      obtain ⟨next, middle⟩ := pair
      simp only [ranFirst] at ran
      obtain ⟨grownFirst, held⟩ := step done start item before next middle ranFirst started
      obtain ⟨grownRest, finish⟩ := ih (done ++ [item]) next middle ran held
      exact ⟨grown_trans table pending before middle after grownFirst grownRest, by simpa using finish⟩

end Rules

def KnownRefs (pending : List Name) (refs : List Name) (env : Env) : Prop := ∀ ref ∈ refs, Known pending env ref

theorem known_refs_grown (pending refs : List Name) (before after : Env)
    (grown : Grown table pending before after) (known : KnownRefs pending refs before) : KnownRefs pending refs after :=
  fun ref inside => known_grown table pending before after grown ref (known ref inside)

variable (compileRef : Name → Compile Unit)

theorem ann_runs (place : Text) (ann : Ann)
    (refs : ∀ cls, Runs table pending (compileRef cls) fun _ env => Known pending env cls) :
    Runs table pending (compileAnn compileRef place ann) fun node env =>
      lower ann = some node ∧ KnownRefs pending node.refs env := by
  fun_induction compileAnn compileRef place ann with
  | case1 => exact runs_throw table pending _ _
  | case2 => exact runs_throw table pending _ _
  | case3 => exact runs_throw table pending _ _
  | case5 elem n ih =>
    exact runs_return table pending _ _ _ _ ih fun node env held => ⟨by rw [lower, held.1]; rfl, held.2⟩
  | case6 => exact runs_throw table pending _ _
  | case7 => exact runs_throw table pending _ _
  | case8 inner ih =>
    exact runs_return table pending _ _ _ _ ih fun node env held => ⟨by rw [lower, held.1]; rfl, held.2⟩
  | case9 inner ih =>
    exact runs_return table pending _ _ _ _ ih fun node env held => ⟨by rw [lower, held.1]; rfl, held.2⟩
  | case10 => exact runs_throw table pending _ _
  | case11 elem ih =>
    exact runs_return table pending _ _ _ _ ih fun node env held => ⟨by rw [lower, held.1]; rfl, held.2⟩
  | case18 name =>
    refine runs_return table pending _ _ _ _ (refs name) fun _ env held => ⟨rfl, fun ref inside => ?_⟩
    rw [List.mem_singleton.mp inside]
    exact held
  | case19 => exact runs_throw table pending _ _
  | _ => exact runs_pure table pending _ _ fun _ => ⟨rfl, by simp [KnownRefs, Node.refs]⟩

theorem compiled_nodes (anns : AnnFields) (nodes : List Node) (size : anns.entries.length = nodes.length) :
    (anns.compiled nodes).nodes = nodes := by
  obtain ⟨entries, distinct⟩ := anns
  simp only [Fields.nodes, AnnFields.compiled] at size ⊢
  clear distinct
  induction entries generalizing nodes with
  | nil => simp [List.eq_nil_of_length_eq_zero size.symm]
  | cons entry rest ih =>
    cases nodes with
    | nil => simp at size
    | cons node others => simpa using ih others (by simpa using size)

theorem fields_run (owner : Text)
    (hints : Except Raised AnnFields) (refs : ∀ cls, Runs table pending (compileRef cls) fun _ env => Known pending env cls) :
    Runs table pending (compileFields compileRef owner hints) fun fields env =>
      LoweredFields hints fields ∧ KnownRefs pending (fields.nodes.flatMap Node.refs) env := by
  cases hints with
  | error e => exact runs_throw table pending e _
  | ok anns =>
    refine runs_return table pending _ _ _ _ (runs_map_m table pending _ anns.entries
      (fun entry node env => lower entry.2 = some node ∧ KnownRefs pending node.refs env)
      (fun entry node before after grown held => ⟨held.1, known_refs_grown table pending _ before after grown held.2⟩)
      fun entry _ => ann_runs table pending compileRef _ entry.2 refs) fun nodes env all => ?_
    refine ⟨⟨anns, nodes, rfl, all.imp fun _ _ held => held.1, rfl⟩, ?_⟩
    rw [compiled_nodes anns nodes all.length_eq]
    intro ref inside
    obtain ⟨node, member, mentioned⟩ := List.mem_flatMap.mp inside
    have known : ∀ node ∈ nodes, KnownRefs pending node.refs env :=
      forall_right anns.entries nodes _ (all.imp fun _ _ held => held.2)
    exact known node member ref mentioned

theorem compiled_variants (variants : VariantDefs) (fields : List Fields) (size : variants.entries.length = fields.length) :
    (variants.compiled fields).entries.map Variant.fields = fields := by
  obtain ⟨entries, distinct, bounded⟩ := variants
  simp only [VariantDefs.compiled] at size ⊢
  clear distinct bounded
  induction entries generalizing fields with
  | nil => simp [List.eq_nil_of_length_eq_zero size.symm]
  | cons entry rest ih =>
    cases fields with
    | nil => simp at size
    | cons first others => simpa using ih others (by simpa using size)

theorem class_runs (cls : Name) (defined : ClassDef)
    (refs : ∀ cls, Runs table pending (compileRef cls) fun _ env => Known pending env cls) :
    Runs table pending (compileClass compileRef cls defined) fun compiled env =>
      LoweredClass defined compiled ∧ KnownRefs pending compiled.refs env := by
  cases defined with
  | intEnum members => exact runs_pure table pending _ _ fun _ => ⟨rfl, by simp [KnownRefs, ClassNode.refs, ClassNode.nodes]⟩
  | dataclass hints borshMeta =>
    exact runs_return table pending _ _ _ _ (fields_run table pending compileRef cls hints refs)
      fun fields env held => ⟨⟨fields, held.1, rfl⟩, held.2⟩
  | borshEnum variants =>
    refine runs_return table pending _ _ _ _ (runs_map_m table pending _ variants.entries
      (fun variant fields env => LoweredFields variant.hints fields ∧
        KnownRefs pending (fields.nodes.flatMap Node.refs) env)
      (fun _ _ before after grown held => ⟨held.1, known_refs_grown table pending _ before after grown held.2⟩)
      fun variant _ => fields_run table pending compileRef _ variant.hints refs) fun fields env all => ?_
    refine ⟨⟨fields, all.imp fun _ _ held => held.1, rfl⟩, ?_⟩
    intro ref inside
    obtain ⟨node, member, mentioned⟩ := List.mem_flatMap.mp inside
    obtain ⟨variant, isVariant, isNode⟩ := List.mem_flatMap.mp member
    have known : ∀ compiled ∈ fields, KnownRefs pending (compiled.nodes.flatMap Node.refs) env :=
      forall_right variants.entries fields _ (all.imp fun _ _ held => held.2)
    have isFields : variant.fields ∈ fields := by
      rw [← compiled_variants variants fields all.length_eq]
      exact List.mem_map_of_mem isVariant
    exact known variant.fields isFields ref (List.mem_flatMap.mpr ⟨node, isNode, mentioned⟩)

theorem grown_finish (cls : Name) (defined : ClassDef) (compiled : ClassNode)
    (before middle : Env) (fresh : before.lookup cls = none) (free : cls ∉ pending)
    (grown : Grown table (cls :: pending) before middle) (isDefined : table.lookup cls = some defined)
    (lowered : LoweredClass defined compiled) (known : KnownRefs (cls :: pending) compiled.refs middle) :
    Grown table pending before (middle ++ [(cls, compiled)]) := by
  have absent : middle.lookup cls = none := by
    cases found : middle.lookup cls with
    | none => rfl
    | some other =>
      rcases grown.added cls other found with earlier | ⟨notPending, _⟩
      · rw [fresh] at earlier
        cases earlier
      · simp at notPending
  have found : ∀ other, (middle ++ [(cls, compiled)]).lookup other =
      if other = cls then some compiled else middle.lookup other := by
    intro other
    rw [List.lookup_append]
    by_cases same : other = cls
    · subst same
      simp [absent]
    · have different : (other == cls) = false := by simpa using same
      simp [List.lookup_cons, different, same]
  have settle : ∀ ref, Known (cls :: pending) middle ref → Known pending (middle ++ [(cls, compiled)]) ref := by
    intro ref isKnown
    rw [Known, found]
    by_cases same : ref = cls
    · simp [same]
    · rw [if_neg same]
      rcases isKnown with cached | waiting
      · exact .inl cached
      · exact .inr ((List.mem_cons.mp waiting).resolve_left same)
  constructor
  · intro other node earlier
    have different : other ≠ cls := by
      rintro rfl
      rw [fresh] at earlier
      cases earlier
    rw [found, if_neg different]
    exact grown.kept other node earlier
  · intro other node later
    rw [found] at later
    by_cases same : other = cls
    · subst same
      rw [if_pos rfl] at later
      cases later
      exact .inr ⟨free, fresh, ⟨defined, isDefined, lowered⟩, fun ref inside => settle ref (known ref inside)⟩
    · rw [if_neg same] at later
      rcases grown.added other node later with earlier | ⟨notPending, missing, lowering, refs⟩
      · exact .inl earlier
      · refine .inr ⟨fun inside => notPending (by simp [inside]), missing, lowering, ?_⟩
        exact fun ref inside => settle ref (refs ref inside)

theorem type_runs (fuel : Nat) (pending : List Name) (cls : Name) :
    Runs table pending (compileType table fuel pending cls) fun _ env => Known pending env cls := by
  induction fuel generalizing pending cls with
  | zero => exact runs_throw table pending _ _
  | succ fuel ih =>
    intro before result after ran
    rw [compileType, compile_bind] at ran
    simp only [get, getThe, MonadStateOf.get, StateT.get, pure, Except.pure] at ran
    by_cases known : Known pending before cls
    · rw [if_pos (by simpa [Known] using known)] at ran
      cases ran
      exact ⟨grown_refl table pending before, known⟩
    · rw [if_neg (by simpa [Known] using known)] at ran
      obtain ⟨uncached, free⟩ := not_or.mp known
      have fresh : before.lookup cls = none := Option.not_isSome_iff_eq_none.mp uncached
      cases isDefined : table.lookup cls with
      | none =>
        rw [isDefined] at ran
        cases ran
      | some defined =>
        rw [isDefined] at ran
        simp only [compile_bind] at ran
        cases ranClass : compileClass (compileType table fuel (cls :: pending)) cls defined before with
        | error e => simp [ranClass] at ran
        | ok pair =>
          obtain ⟨compiled, middle⟩ := pair
          simp only [ranClass] at ran
          obtain ⟨grown, lowered, refs⟩ := class_runs table (cls :: pending) _ cls defined (ih (cls :: pending))
            before compiled middle ranClass
          have finished := grown_finish table pending cls defined compiled before middle fresh free grown isDefined
            lowered refs
          cases ran
          refine ⟨finished, .inl ?_⟩
          simp [List.lookup_append]

theorem field_runs (place : Text) (ann : Ann) :
    Runs table [] (compileField table place ann) fun node env => lower ann = some node ∧ KnownRefs [] node.refs env :=
  ann_runs table [] (compileRefs table) place ann fun cls => type_runs table (table.length + 1) [] cls

theorem compile_cached (env : Env) (cls : Name) (cached : (env.lookup cls).isSome = true) :
    compileRefs table cls env = .ok ((), env) := by
  rw [compileRefs, compileType, compile_bind]
  simp only [get, getThe, MonadStateOf.get, StateT.get, pure, Except.pure]
  rw [if_pos (by rw [cached]; rfl)]
  rfl

theorem field_cached (env : Env) (place : Text) (ann : Ann) (node : Node) (lowered : lower ann = some node)
    (known : KnownRefs [] node.refs env) : compileField table place ann env = .ok (node, env) := by
  rw [compileField]
  fun_induction lower ann generalizing node with
  | case2 elem n ih =>
    obtain ⟨inner, isInner, rfl⟩ := Option.map_eq_some_iff.mp lowered
    rw [compileAnn, compile_bind, ih inner isInner known]
    rfl
  | case3 inner ih =>
    obtain ⟨held, isHeld, rfl⟩ := Option.map_eq_some_iff.mp lowered
    rw [compileAnn, compile_bind, ih held isHeld known]
    rfl
  | case4 inner ih =>
    obtain ⟨held, isHeld, rfl⟩ := Option.map_eq_some_iff.mp lowered
    rw [compileAnn, compile_bind, ih held isHeld known]
    rfl
  | case5 elem ih =>
    obtain ⟨held, isHeld, rfl⟩ := Option.map_eq_some_iff.mp lowered
    rw [compileAnn, compile_bind, ih held isHeld known]
    rfl
  | case12 name =>
    cases lowered
    have cached := (known name (by simp [Node.refs])).resolve_right (by simp)
    rw [compileAnn, compile_bind, compile_cached table env name cached]
    rfl
  | case13 => cases lowered
  | _ =>
    cases lowered
    rfl

end WakeSol.Codec
