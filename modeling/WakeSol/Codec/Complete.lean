import WakeSol.Codec.Cache

/- Compilation of a closed table succeeds: every class in it lowers, and every
   class it mentions is in it. -/
set_option autoImplicit false

namespace WakeSol.Codec

open TextLib RadixLib EndianLib WireLib

def Closed (table : Table) (refs : List Name) : Prop := ∀ ref ∈ refs, (table.lookup ref).isSome = true

def CompleteTable (table : Table) : Prop :=
  ∀ cls defined, table.lookup cls = some defined → ∃ compiled, LoweredClass defined compiled ∧ Closed table compiled.refs

instance (pending : List Name) (env : Env) (cls : Name) : Decidable (Known pending env cls) :=
  inferInstanceAs (Decidable (_ ∨ _))

def unvisited (table : Table) (pending : List Name) (env : Env) : List Name :=
  (table.map Prod.fst).filter fun cls => decide ¬ Known pending env cls

variable (table : Table)

theorem unvisited_le (pending wider : List Name) (before after : Env)
    (grows : ∀ cls, Known pending before cls → Known wider after cls) :
    (unvisited table wider after).length ≤ (unvisited table pending before).length := by
  refine (List.monotone_filter_right _ fun cls unknown => ?_).length_le
  rw [decide_eq_true_eq] at unknown ⊢
  exact fun known => unknown (grows cls known)

variable (pending : List Name)

theorem unvisited_lt (env : Env) (cls : Name) (listed : cls ∈ table.map Prod.fst) (unknown : ¬ Known pending env cls) :
    (unvisited table (cls :: pending) env).length < (unvisited table pending env).length := by
  have smaller : unvisited table (cls :: pending) env = (unvisited table pending env).filter fun other => other ≠ cls := by
    simp only [unvisited, List.filter_filter]
    refine List.filter_congr fun other _ => ?_
    rw [← Bool.decide_and, decide_eq_decide, Known, Known, List.mem_cons]
    tauto
  rw [smaller]
  refine List.length_filter_lt_length_iff_exists.mpr ⟨cls, ?_, by simp⟩
  exact List.mem_filter.mpr ⟨listed, decide_eq_true unknown⟩

def Succeeds {α : Type} (table : Table) (pending : List Name) (bound : Nat) (run : Compile α) : Prop :=
  ∀ before, (unvisited table pending before).length < bound → ∃ result after, run before = .ok (result, after) ∧
    (unvisited table pending after).length < bound

section Rules

variable {α β ι : Type} (table : Table) (pending : List Name) (bound : Nat)

theorem succeeds_pure (value : α) : Succeeds table pending bound (pure value) :=
  fun before small => ⟨value, before, rfl, small⟩

theorem succeeds_bind (first : Compile α) (next : α → Compile β) (succeedsFirst : Succeeds table pending bound first)
    (succeedsNext : ∀ value, Succeeds table pending bound (next value)) : Succeeds table pending bound (first >>= next) := by
  intro before small
  obtain ⟨value, middle, ranFirst, smaller⟩ := succeedsFirst before small
  obtain ⟨result, after, ranNext, smallest⟩ := succeedsNext value middle smaller
  refine ⟨result, after, ?_, smallest⟩
  rw [compile_bind, ranFirst]
  exact ranNext

theorem succeeds_map_m (run : ι → Compile α) (items : List ι) (each : ∀ item ∈ items, Succeeds table pending bound (run item)) :
    Succeeds table pending bound (items.mapM run) := by
  induction items with
  | nil =>
    rw [List.mapM_nil]
    exact succeeds_pure table pending bound []
  | cons item rest ih =>
    rw [List.mapM_cons]
    refine succeeds_bind table pending bound _ _ (each item (by simp)) fun value => ?_
    refine succeeds_bind table pending bound _ _ (ih fun other inside => each other (by simp [inside])) fun values => ?_
    exact succeeds_pure table pending bound _

theorem succeeds_runs (run : Compile α) (ends : α → Env → Prop) (runs : Runs table pending run ends)
    (total : ∀ before, (unvisited table pending before).length < bound → ∃ result after, run before = .ok (result, after)) :
    Succeeds table pending bound run := by
  intro before small
  obtain ⟨result, after, ran⟩ := total before small
  have grown := (runs before result after ran).1
  refine ⟨result, after, ran, Nat.lt_of_le_of_lt (unvisited_le table pending pending before after ?_) small⟩
  exact known_grown table pending before after grown

end Rules

variable (bound : Nat)

theorem wrapped_succeeds (run : Compile Node) (inner : Ann)
    (wrap : Node → Node) (node : Node) (lowers : (lower inner).map wrap = some node) (closed : Closed table node.refs)
    (same : ∀ held, (wrap held).refs = held.refs)
    (deeper : ∀ held, lower inner = some held → Closed table held.refs → Succeeds table pending bound run) :
    Succeeds table pending bound (run >>= fun held => pure (wrap held)) := by
  obtain ⟨held, lowersHeld, rfl⟩ := Option.map_eq_some_iff.mp lowers
  rw [same] at closed
  exact succeeds_bind table pending bound _ _ (deeper held lowersHeld closed) fun _ => succeeds_pure table pending bound _

variable (compileRef : Name → Compile Unit)

theorem ann_succeeds (place : Text)
    (ann : Ann) (node : Node) (lowers : lower ann = some node) (closed : Closed table node.refs)
    (refs : ∀ cls, (table.lookup cls).isSome = true → Succeeds table pending bound (compileRef cls)) :
    Succeeds table pending bound (compileAnn compileRef place ann) := by
  fun_induction compileAnn compileRef place ann generalizing node with
  | case1 => cases lowers
  | case2 => cases lowers
  | case3 inner => simp [lower] at lowers
  | case5 elem n ih =>
    exact wrapped_succeeds table pending bound _ elem _ node lowers closed (fun _ => rfl) ih
  | case6 inner n notBytes notList =>
    cases inner with
    | bytes => exact absurd rfl notBytes
    | list elem => exact absurd rfl (notList elem)
    | _ => cases lowers
  | case7 => cases lowers
  | case8 inner ih =>
    exact wrapped_succeeds table pending bound _ inner _ node lowers closed (fun _ => rfl) ih
  | case9 inner ih =>
    exact wrapped_succeeds table pending bound _ inner _ node lowers closed (fun _ => rfl) ih
  | case10 => cases lowers
  | case11 elem ih =>
    exact wrapped_succeeds table pending bound _ elem _ node lowers closed (fun _ => rfl) ih
  | case18 name =>
    cases lowers
    exact succeeds_bind table pending bound _ _ (refs name (closed name (by simp [Node.refs])))
      fun _ => succeeds_pure table pending bound _
  | case19 => cases lowers
  | _ => exact succeeds_pure table pending bound _

theorem fields_succeed (owner : Text)
    (hints : Except Raised AnnFields) (fields : Fields) (lowered : LoweredFields hints fields)
    (closed : Closed table (fields.nodes.flatMap Node.refs))
    (refs : ∀ cls, (table.lookup cls).isSome = true → Succeeds table pending bound (compileRef cls)) :
    Succeeds table pending bound (compileFields compileRef owner hints) := by
  obtain ⟨anns, nodes, rfl, each, rfl⟩ := lowered
  rw [compiled_nodes anns nodes each.length_eq] at closed
  refine succeeds_bind table pending bound _ _ (succeeds_map_m table pending bound _ anns.entries fun entry inside => ?_)
    fun _ => succeeds_pure table pending bound _
  obtain ⟨position, bounded, rfl⟩ := List.mem_iff_getElem.mp inside
  have size := each.length_eq
  have lowers := (List.forall₂_iff_get.mp each).2 position bounded (by omega)
  refine ann_succeeds table pending bound compileRef _ _ _ lowers (fun ref mentioned => ?_) refs
  exact closed ref (List.mem_flatMap.mpr ⟨_, List.getElem_mem _, mentioned⟩)

theorem class_succeeds (cls : Name)
    (defined : ClassDef) (compiled : ClassNode) (lowered : LoweredClass defined compiled) (closed : Closed table compiled.refs)
    (refs : ∀ cls, (table.lookup cls).isSome = true → Succeeds table pending bound (compileRef cls)) :
    Succeeds table pending bound (compileClass compileRef cls defined) := by
  cases defined with
  | intEnum members => exact succeeds_pure table pending bound _
  | dataclass hints borshMeta =>
    obtain ⟨fields, loweredFields, rfl⟩ := lowered
    exact succeeds_bind table pending bound _ _ (fields_succeed table pending bound compileRef cls hints fields loweredFields
      closed refs) fun _ => succeeds_pure table pending bound _
  | borshEnum variants =>
    obtain ⟨fields, each, rfl⟩ := lowered
    refine succeeds_bind table pending bound _ _ (succeeds_map_m table pending bound _ variants.entries
      fun variant inside => ?_) fun _ => succeeds_pure table pending bound _
    obtain ⟨position, bounded, rfl⟩ := List.mem_iff_getElem.mp inside
    have size := each.length_eq
    have loweredFields := (List.forall₂_iff_get.mp each).2 position bounded (by omega)
    refine fields_succeed table pending bound compileRef _ _ _ loweredFields (fun ref mentioned => ?_) refs
    obtain ⟨node, isNode, isRef⟩ := List.mem_flatMap.mp mentioned
    have isVariant : fields[position] ∈ (variants.compiled fields).entries.map Variant.fields := by
      rw [compiled_variants variants fields each.length_eq]
      exact List.getElem_mem _
    obtain ⟨compiledVariant, isEntry, same⟩ := List.mem_map.mp isVariant
    refine closed ref (List.mem_flatMap.mpr ⟨node, List.mem_flatMap.mpr ⟨compiledVariant, isEntry, ?_⟩, isRef⟩)
    rw [same]
    exact isNode

theorem type_succeeds (complete : CompleteTable table) (fuel : Nat) (pending : List Name) (cls : Name)
    (isDefined : (table.lookup cls).isSome = true) : Succeeds table pending fuel (compileType table fuel pending cls) := by
  refine succeeds_runs table pending fuel _ _ (type_runs table fuel pending cls) fun before small => ?_
  induction fuel generalizing pending cls before with
  | zero => simp at small
  | succ fuel ih =>
    rw [compileType, compile_bind]
    simp only [get, getThe, MonadStateOf.get, StateT.get, pure, Except.pure]
    by_cases known : Known pending before cls
    · rw [if_pos (by simpa [Known] using known)]
      exact ⟨(), before, rfl⟩
    · rw [if_neg (by simpa [Known] using known)]
      obtain ⟨defined, found⟩ := Option.isSome_iff_exists.mp isDefined
      obtain ⟨compiled, lowered, closed⟩ := complete cls defined found
      have listed : cls ∈ table.map Prod.fst := by
        obtain ⟨front, back, rfl, _⟩ := List.lookup_eq_some_iff.mp found
        simp
      have fewer := unvisited_lt table pending before cls listed known
      obtain ⟨result, middle, ran, _⟩ := class_succeeds table (cls :: pending) fuel (compileType table fuel (cls :: pending)) cls
        defined compiled lowered closed (fun other isOther => succeeds_runs table _ fuel _ _
          (type_runs table fuel (cls :: pending) other) (ih (cls :: pending) other isOther)) before (by omega)
      refine ⟨(), middle ++ [(cls, result)], ?_⟩
      rw [found]
      simp only [compile_bind, ran]
      rfl

theorem unvisited_small (env : Env) : (unvisited table [] env).length < table.length + 1 := by
  have bound : (unvisited table [] env).length ≤ (table.map Prod.fst).length := List.length_filter_le _ _
  rw [List.length_map] at bound
  omega

theorem refs_succeed (complete : CompleteTable table) (cls : Name) (isDefined : (table.lookup cls).isSome = true)
    (before : Env) : ∃ after, compileRefs table cls before = .ok ((), after) := by
  obtain ⟨_, after, ran, _⟩ := type_succeeds table complete (table.length + 1) [] cls isDefined before (unvisited_small table before)
  exact ⟨after, ran⟩

theorem field_succeeds (complete : CompleteTable table) (place : Text) (ann : Ann) (node : Node)
    (lowers : lower ann = some node) (closed : Closed table node.refs) (before : Env) :
    ∃ after, compileField table place ann before = .ok (node, after) := by
  obtain ⟨result, after, ran, _⟩ := ann_succeeds table [] (table.length + 1) (compileRefs table) place ann node lowers closed
    (fun cls isDefined => type_succeeds table complete (table.length + 1) [] cls isDefined) before (unvisited_small table before)
  have same := (field_runs table place ann before result after ran).2.1
  rw [lowers] at same
  cases same
  exact ⟨after, ran⟩

end WakeSol.Codec
