import WakeSol.Gen.Faithful
import WakeSol.Gen.Call
import WakeSol.Interface.Build

/- What becomes of the names of fields and variants: they are mangled when they are
   emitted, read by the interpreter, and bound in a class. -/
set_option autoImplicit false

namespace WakeSol.Gen

open TextLib RadixLib DictLib FallibleLib Codec WireLib Interface

def Reserved (name : Name) : Prop := name ∈ keywords ∨ name ∈ reservedNames

instance (name : Name) : Decidable (Reserved name) := inferInstanceAs (Decidable (_ ∨ _))

theorem reserved_plain (word : Name) (reserved : Reserved word) : ¬ Reserved (word ++ ['_']) := by
  have all : ∀ word ∈ keywords ++ reservedNames, ¬ Reserved (word ++ ['_']) := by decide
  exact all word (List.mem_append.mpr reserved)

theorem mangle_same_iff (first second : Name) : mangle first = mangle second ↔
    first = second ∨ (Reserved first ∧ second = first ++ ['_']) ∨ (Reserved second ∧ first = second ++ ['_']) := by
  have named : ∀ name, mangle name = if Reserved name then name ++ ['_'] else name := fun _ => rfl
  rw [named, named]
  by_cases left : Reserved first
  · rw [if_pos left]
    by_cases right : Reserved second
    · rw [if_pos right, List.append_cancel_right_eq]
      refine ⟨.inl, fun either => ?_⟩
      rcases either with same | ⟨_, same⟩ | ⟨_, same⟩
      · exact same
      · exact absurd (same ▸ right) (reserved_plain first left)
      · exact absurd (same ▸ left) (reserved_plain second right)
    · rw [if_neg right]
      refine ⟨fun same => .inr (.inl ⟨left, same.symm⟩), fun either => ?_⟩
      rcases either with same | ⟨_, same⟩ | ⟨isRight, _⟩
      · exact absurd (same ▸ left) right
      · exact same.symm
      · exact absurd isRight right
  · rw [if_neg left]
    by_cases right : Reserved second
    · rw [if_pos right]
      refine ⟨fun same => .inr (.inr ⟨right, same⟩), fun either => ?_⟩
      rcases either with same | ⟨isLeft, _⟩ | ⟨_, same⟩
      · exact absurd (same ▸ right) left
      · exact absurd isLeft left
      · exact same
    · rw [if_neg right]
      refine ⟨.inl, fun either => ?_⟩
      rcases either with same | ⟨isLeft, _⟩ | ⟨isRight, _⟩
      · exact same
      · exact absurd isLeft left
      · exact absurd isRight right

theorem mangled_apart_iff (names : List Name) :
    (names.map mangle).Nodup ↔ names.Nodup ∧ ∀ name ∈ names, Reserved name → name ++ ['_'] ∉ names := by
  induction names with
  | nil => simp
  | cons first rest ih =>
    rw [List.map_cons, List.nodup_cons, List.nodup_cons, ih]
    have meets : mangle first ∈ rest.map mangle ↔
        first ∈ rest ∨ (Reserved first ∧ first ++ ['_'] ∈ rest) ∨ ∃ second ∈ rest, Reserved second ∧ first = second ++ ['_'] := by
      rw [List.mem_map]
      constructor
      · rintro ⟨second, inside, same⟩
        rcases (mangle_same_iff first second).mp same.symm with equal | ⟨reserved, equal⟩ | ⟨reserved, equal⟩
        · exact .inl (equal ▸ inside)
        · exact .inr (.inl ⟨reserved, equal ▸ inside⟩)
        · exact .inr (.inr ⟨second, inside, reserved, equal⟩)
      · rintro (inside | ⟨reserved, inside⟩ | ⟨second, inside, reserved, equal⟩)
        · exact ⟨first, inside, rfl⟩
        · exact ⟨_, inside, ((mangle_same_iff first _).mpr (.inr (.inl ⟨reserved, rfl⟩))).symm⟩
        · exact ⟨second, inside, ((mangle_same_iff first second).mpr (.inr (.inr ⟨reserved, equal⟩))).symm⟩
    rw [meets]
    constructor
    · rintro ⟨apart, distinct, beside⟩
      rw [not_or, not_or] at apart
      refine ⟨⟨apart.1, distinct⟩, fun name inside reserved stands => ?_⟩
      rcases List.mem_cons.mp inside with rfl | later
      · rcases List.mem_cons.mp stands with same | isLater
        · exact absurd same (by simp)
        · exact apart.2.1 ⟨reserved, isLater⟩
      · rcases List.mem_cons.mp stands with same | isLater
        · exact apart.2.2 ⟨name, later, reserved, same.symm⟩
        · exact beside name later reserved isLater
    · rintro ⟨⟨absent, distinct⟩, beside⟩
      refine ⟨?_, distinct, fun name inside reserved stands =>
        beside name (List.mem_cons_of_mem _ inside) reserved (List.mem_cons_of_mem _ stands)⟩
      rintro (inside | ⟨reserved, inside⟩ | ⟨second, inside, reserved, equal⟩)
      · exact absent inside
      · exact beside first List.mem_cons_self reserved (List.mem_cons_of_mem _ inside)
      · exact beside second (List.mem_cons_of_mem _ inside) reserved (equal ▸ List.mem_cons_self)

section Attributes

variable (python : Python)

def attributes (owner : Name) (fields : List Field) : List Name :=
  fields.zipIdx.map fun entry => python.spelled owner (fieldName entry.1 entry.2)

def KeptFields (owner : Name) (fields : List Field) (hints : Except Raised AnnFields) : Prop :=
  ∃ found, hints = .ok found ∧ found.entries.map Prod.fst = attributes python owner fields

theorem line_attributes (owner : Name) (fields : List Field) (lines : List (Name × AnnSrc))
    (emitted : fieldLines python fields = .ok lines) :
    (spelledFields python owner lines).map Prod.fst = attributes python owner fields := by
  rw [spelledFields, List.map_map, attributes]
  refine forall_maps _ _ _ _ ((map_m_ok _ _ _ emitted).imp fun entry line mapped => ?_)
  obtain ⟨ann, _, rfl⟩ := map_ok _ _ _ mapped
  rfl

theorem hint_names (scope : Scope) (entries : List (Name × AnnSrc)) (found : AnnFields)
    (evaluated : evalFields scope entries = .ok found) : found.entries.map Prod.fst = (dictOf entries).map Prod.fst := by
  rw [evalFields] at evaluated
  split at evaluated
  · cases evaluated
  · rename_i anns ran
    cases evaluated
    have fronts : ((dictOf entries).zip anns).map Prod.fst = dictOf entries :=
      List.map_fst_zip (Nat.le_of_eq (map_m_ok _ _ _ ran).length_eq)
    dsimp only
    nth_rewrite 2 [← fronts]
    rw [← List.map_uncurry_zip_eq_zipWith, List.map_map, List.map_map]
    rfl

theorem kept_fields_iff (scope : Scope) (owner : Name) (fields : List Field) (lines : List (Name × AnnSrc))
    (emitted : fieldLines python fields = .ok lines) :
    KeptFields python owner fields (evalFields scope (spelledFields python owner lines)) ↔
      (∃ found, evalFields scope (spelledFields python owner lines) = .ok found) ∧ (attributes python owner fields).Nodup := by
  have names := line_attributes python owner fields lines emitted
  constructor
  · rintro ⟨found, evaluated, same⟩
    exact ⟨⟨found, evaluated⟩, same ▸ found.distinct⟩
  · rintro ⟨⟨found, evaluated⟩, distinct⟩
    refine ⟨found, evaluated, ?_⟩
    rw [hint_names scope _ found evaluated, dict_of_distinct _ (by rw [names]; exact distinct), names]

def EmittedClass.bindings (cls : EmittedClass) : List Name :=
  cls.name :: match cls.body with
  | .struct lines _ => lines.map Prod.fst
  | .intEnum members => members.map Prod.fst
  | .borshEnum variants => variants.flatMap fun variant => variant.name :: variant.fields.map Prod.fst

-- A keyword cannot be bound, and neither can __debug__.
def importClass (scope : Scope) (cls : EmittedClass) : Except Raised ClassDef :=
  if cls.bindings.any fun name => name ∈ keywords ∨ name = debugName then .error .syntaxError
  else loadClass python scope cls

def Keeps (tdef : TypeDef) (defined : ClassDef) : Prop :=
  match tdef.body, defined with
  | .struct fields, .dataclass hints _ => KeptFields python tdef.name fields hints
  | .enum variants, .borshEnum loaded => ∀ (i : Nat) variant, variants[i]? = some variant →
      ∃ found ∈ loaded.entries, found.tag = i ∧ found.name = variant.1 ∧ KeptFields python variant.1 variant.2 found.hints
  | .enum variants, .intEnum _ => ∀ variant ∈ variants, variant.2 = []
  | _, _ => False

def Evaluates : ClassDef → Prop
  | .dataclass hints _ => ∃ found, hints = .ok found
  | .intEnum _ => True
  | .borshEnum loaded => ∀ variant ∈ loaded.entries, ∃ found, variant.hints = .ok found

def ApartNames (tdef : TypeDef) : Prop :=
  match tdef.body with
  | .struct fields => (attributes python tdef.name fields).Nodup
  | .enum variants => (variants.map fun variant => python.spelled tdef.name variant.1).Nodup ∧
      ∀ variant ∈ variants, (attributes python variant.1 variant.2).Nodup

def Ordinary (tdef : TypeDef) : Prop :=
  match tdef.body with
  | .struct fields => ∀ name ∈ attributes python tdef.name fields, ¬ ['_', '_'] <+: name
  | .enum variants => ∀ variant ∈ variants, variant.1 ≠ mroName ∧ ¬ ['_'] <+: variant.1 ∧
      ∀ name ∈ attributes python variant.1 variant.2, ¬ ['_', '_'] <+: name

structure NamedClass where
  tdef : TypeDef
  borshMeta : Option BorshMeta
  cls : EmittedClass
  emits : emitTypedef python tdef borshMeta = .ok cls
  scope : Scope
  ordinary : Ordinary python tdef

theorem import_loads (scope : Scope) (cls : EmittedClass) (defined : ClassDef)
    (imported : importClass python scope cls = .ok defined) : loadClass python scope cls = .ok defined := by
  rw [importClass] at imported
  split at imported
  · cases imported
  · exact imported

theorem unit_enum_keeps (scope : Scope) (tdef : TypeDef) (variants : List (Name × List Field)) (isEnum : tdef.body = .enum variants)
    (units : ∀ variant ∈ variants, variant.2 = []) (defined : ClassDef)
    (loaded : loadClass python scope ⟨tdef.name, .intEnum (variants.zipIdx.map fun (variant, i) => (variant.1, i))⟩ = .ok defined) :
    Keeps python tdef defined ↔ Evaluates defined ∧ ApartNames python tdef := by
  simp only [loadClass] at loaded
  split at loaded
  · cases loaded
  · split at loaded
    · rename_i distinct
      cases loaded
      simp only [Keeps, isEnum, Evaluates, ApartNames, true_and]
      refine ⟨fun _ => ⟨?_, fun variant inside => ?_⟩, fun _ => units⟩
      · rw [List.map_map] at distinct
        have fronts : variants = variants.zipIdx.map Prod.fst := by rw [List.zipIdx_map_fst]
        rw [fronts, List.map_map]
        exact distinct
      · rw [units variant inside]
        exact List.nodup_nil
    · cases loaded

def EmittedVariants (variants : List (Name × List Field)) (emitted : List EmittedVariant) : Prop :=
  List.Forall₂ (fun (entry : (Name × List Field) × Nat) variant => ∃ lines, fieldLines python entry.1.2 = .ok lines ∧
    variant = ⟨entry.2, entry.1.1, lines⟩) variants.zipIdx emitted

theorem emitted_at (variants : List (Name × List Field)) (emitted : List EmittedVariant)
    (each : EmittedVariants python variants emitted) (i : Nat) (variant : Name × List Field) (listed : variants[i]? = some variant) :
    ∃ lines, fieldLines python variant.2 = .ok lines ∧ emitted[i]? = some ⟨i, variant.1, lines⟩ := by
  have entry : variants.zipIdx[i]? = some (variant, i) := by
    rw [List.getElem?_zipIdx, listed]
    simp
  obtain ⟨found, isFound, lines, isLines, rfl⟩ := forall_at _ _ _ each i _ entry
  exact ⟨lines, isLines, isFound⟩

theorem emitted_from (variants : List (Name × List Field)) (emitted : List EmittedVariant)
    (each : EmittedVariants python variants emitted) (variant : EmittedVariant) (inside : variant ∈ emitted) :
    ∃ source, variants[variant.tag]? = some source ∧ fieldLines python source.2 = .ok variant.fields ∧ variant.name = source.1 := by
  obtain ⟨⟨source, i⟩, isEntry, lines, isLines, rfl⟩ := forall_left _ _ _ each variant inside
  have listed := List.mk_mem_zipIdx_iff_getElem?.mp isEntry
  exact ⟨source, listed, isLines, rfl⟩

section Variants

variable (scope : Scope) (owner : Name) (variants : List (Name × List Field)) (emitted : List EmittedVariant)
  (each : EmittedVariants python variants emitted)

def boundVariants : List (Name × VariantDef) :=
  dictOf (emitted.map fun variant => (python.spelled owner variant.name, loadVariant python scope variant))

include each

theorem variants_apart (whole : ∀ (i : Nat) variant, variants[i]? = some variant →
      ∃ found ∈ (boundVariants python scope owner emitted).map Prod.snd, found.tag = i) :
    (variants.map fun variant => python.spelled owner variant.1).Nodup := by
  have held : ∀ (i : Nat) variant, variants[i]? = some variant →
      ∃ loaded, loaded.tag = i ∧ (python.spelled owner variant.1, loaded) ∈ boundVariants python scope owner emitted := by
    intro i variant listed
    obtain ⟨found, inside, tagged⟩ := whole i variant listed
    obtain ⟨⟨key, _⟩, isEntry, rfl⟩ := List.mem_map.mp inside
    obtain ⟨source, isSource, same⟩ := List.mem_map.mp (dict_mem _ _ isEntry)
    obtain ⟨rfl, rfl⟩ := Prod.mk.inj same
    obtain ⟨original, isOriginal, _, named⟩ := emitted_from python variants emitted each source isSource
    have position : source.tag = i := tagged
    rw [position, listed, Option.some.injEq] at isOriginal
    refine ⟨_, tagged, ?_⟩
    rw [isOriginal, ← named]
    exact isEntry
  rw [List.Nodup, List.pairwise_iff_getElem]
  intro i j iBound jBound before same
  rw [List.getElem_map, List.getElem_map] at same
  rw [List.length_map] at iBound jBound
  obtain ⟨first, isFirst, firstHeld⟩ := held i variants[i] (List.getElem?_eq_getElem iBound)
  obtain ⟨second, isSecond, secondHeld⟩ := held j variants[j] (List.getElem?_eq_getElem jBound)
  rw [same] at firstHeld
  have left := lookup_of_mem _ (dict_distinct _) _ _ firstHeld
  rw [lookup_of_mem _ (dict_distinct _) _ _ secondHeld, Option.some.injEq] at left
  rw [← left] at isFirst
  omega

theorem variants_held (distinct : (variants.map fun variant => python.spelled owner variant.1).Nodup) :
    (boundVariants python scope owner emitted).map Prod.snd = emitted.map (loadVariant python scope) := by
  have keys : (emitted.map fun variant => (python.spelled owner variant.name, loadVariant python scope variant)).map Prod.fst =
      variants.map fun variant => python.spelled owner variant.1 := by
    have fronts : variants = variants.zipIdx.map Prod.fst := by rw [List.zipIdx_map_fst]
    rw [fronts, List.map_map, List.map_map]
    refine forall_maps _ _ _ _ (each.imp fun entry variant found => ?_)
    obtain ⟨lines, _, rfl⟩ := found
    rfl
  rw [boundVariants, dict_of_distinct _ (by rw [keys]; exact distinct), List.map_map]
  rfl

theorem data_enum_keeps (tdef : TypeDef) (isOwner : tdef.name = owner) (isEnum : tdef.body = .enum variants) (defined : ClassDef)
    (loaded : loadClass python scope ⟨owner, .borshEnum emitted⟩ = .ok defined) :
    Keeps python tdef defined ↔ Evaluates defined ∧ ApartNames python tdef := by
  subst isOwner
  simp only [loadClass] at loaded
  split at loaded
  · cases loaded
  · split at loaded
    · rename_i valid
      cases loaded
      simp only [Keeps, isEnum, Evaluates, ApartNames]
      constructor
      · intro whole
        refine ⟨fun variant inside => ?_, ?_, fun variant inside => ?_⟩
        · -- A loaded variant is the one kept at its tag.
          obtain ⟨⟨key, _⟩, isEntry, rfl⟩ := List.mem_map.mp inside
          obtain ⟨source, isSource, same⟩ := List.mem_map.mp (dict_mem _ _ isEntry)
          obtain ⟨rfl, rfl⟩ := Prod.mk.inj same
          obtain ⟨original, isOriginal, _, _⟩ := emitted_from python variants emitted each source isSource
          obtain ⟨found, isFound, tagged, _, hints, evaluated, _⟩ := whole source.tag original isOriginal
          have one := List.inj_on_of_nodup_map valid.1 isFound inside tagged
          rw [← one]
          exact ⟨hints, evaluated⟩
        · refine variants_apart python scope tdef.name variants emitted each fun i variant listed => ?_
          obtain ⟨found, isFound, tagged, _⟩ := whole i variant listed
          exact ⟨found, isFound, tagged⟩
        · obtain ⟨i, listed⟩ := List.getElem?_of_mem inside
          obtain ⟨found, _, _, _, hints, _, names⟩ := whole i variant listed
          exact names ▸ hints.distinct
      · rintro ⟨evaluates, distinct, apart⟩ i variant listed
        obtain ⟨lines, isLines, isEmitted⟩ := emitted_at python variants emitted each i variant listed
        have inside : loadVariant python scope ⟨i, variant.1, lines⟩ ∈
            (dictOf (emitted.map fun variant => (python.spelled tdef.name variant.name, loadVariant python scope variant))).map
              Prod.snd := by
          have whole := variants_held python scope tdef.name variants emitted each distinct
          rw [boundVariants] at whole
          rw [whole]
          exact List.mem_map_of_mem (List.mem_of_getElem? isEmitted)
        refine ⟨_, inside, rfl, rfl, (kept_fields_iff python scope variant.1 variant.2 lines isLines).mpr ⟨?_, ?_⟩⟩
        · exact evaluates _ inside
        · exact apart variant (List.mem_of_getElem? listed)
    · cases loaded

end Variants

theorem class_keeps_iff (c : NamedClass python) (defined : ClassDef) (loaded : loadClass python c.scope c.cls = .ok defined) :
    Keeps python c.tdef defined ↔ Evaluates defined ∧ ApartNames python c.tdef := by
  obtain ⟨⟨name, body, serialization⟩, borshMeta, cls, emits, scope, ordinary⟩ := c
  unfold emitTypedef at emits
  by_cases foreign : serialization ≠ borshName
  · rw [if_pos foreign] at emits
    cases emits
  · rw [if_neg foreign] at emits
    cases body with
    | struct fields =>
      obtain ⟨_, ran, rfl⟩ := map_ok _ _ _ emits
      obtain ⟨lines, isLines, rfl⟩ := map_ok _ _ _ ran
      simp only [loadClass] at loaded
      split at loaded
      · cases loaded
        exact kept_fields_iff python scope name fields lines isLines
      · cases loaded
    | enum variants =>
      cases borshMeta with
      | some found => cases emits
      | none =>
        obtain ⟨body, ran, rfl⟩ := map_ok _ _ _ emits
        rw [emitEnum] at ran
        split at ran
        · rename_i units
          cases ran
          refine unit_enum_keeps python scope _ variants rfl (fun variant inside => ?_) defined loaded
          exact List.isEmpty_iff.mp (List.all_eq_true.mp units variant inside)
        · obtain ⟨emitted, isEmitted, rfl⟩ := map_ok _ _ _ ran
          have each : EmittedVariants python variants emitted := by
            refine (map_m_ok _ _ _ isEmitted).imp fun entry variant mapped => ?_
            obtain ⟨lines, isLines, rfl⟩ := map_ok _ _ _ mapped
            exact ⟨lines, isLines, rfl⟩
          exact data_enum_keeps python scope name variants emitted each _ rfl rfl defined loaded

end Attributes

end WakeSol.Gen
