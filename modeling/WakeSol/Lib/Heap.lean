import Mathlib.Data.List.Forall2
import Mathlib.Tactic.Common

/- Objects that are referred to and changed in place. A reference is a position
   in the heap, new objects stand at its end, and a run fails on a reference to
   nothing. -/
set_option autoImplicit false

namespace HeapLib

abbrev Ref := Nat

abbrev Heap (α : Type) := List α

abbrev HeapM (α β : Type) := StateT (Heap α) Option β

section Runs

variable {α β γ ι : Type}

def alloc (object : α) : HeapM α Ref := fun heap => some (heap.length, heap ++ [object])

def store (ref : Ref) (object : α) : HeapM α Unit := fun heap =>
  if ref < heap.length then some ((), heap.set ref object) else none

def load (kind : α → Option β) (ref : Ref) : HeapM α β := fun heap => (heap[ref]?.bind kind).map fun found => (found, heap)

def Yields (run : HeapM α β) (before : Heap α) (post : β → Heap α → Prop) : Prop :=
  ∃ result after, run before = some (result, after) ∧ post result after

theorem yields_pure (value : β) (heap : Heap α) (post : β → Heap α → Prop) (held : post value heap) :
    Yields (pure value) heap post := ⟨value, heap, rfl, held⟩

theorem yields_bind (first : HeapM α β) (next : β → HeapM α γ) (heap : Heap α) (middle : β → Heap α → Prop)
    (post : γ → Heap α → Prop) (yieldsFirst : Yields first heap middle)
    (yieldsNext : ∀ value after, middle value after → Yields (next value) after post) : Yields (first >>= next) heap post := by
  obtain ⟨value, after, ran, held⟩ := yieldsFirst
  obtain ⟨result, final, ranNext, finished⟩ := yieldsNext value after held
  refine ⟨result, final, ?_, finished⟩
  simp only [bind, StateT.bind, ran, Option.bind_some]
  exact ranNext

theorem yields_step (first : HeapM α β) (next : β → HeapM α γ) (heap after : Heap α) (value : β)
    (post : γ → Heap α → Prop) (ran : first heap = some (value, after)) (yieldsNext : Yields (next value) after post) :
    Yields (first >>= next) heap post :=
  yields_bind first next heap (fun found final => found = value ∧ final = after) post ⟨value, after, ran, rfl, rfl⟩
    fun found final same => by
      rw [same.1, same.2]
      exact yieldsNext

theorem yields_imp (run : HeapM α β) (heap : Heap α) (post weaker : β → Heap α → Prop) (yields : Yields run heap post)
    (implies : ∀ value after, post value after → weaker value after) : Yields run heap weaker := by
  obtain ⟨value, after, ran, held⟩ := yields
  exact ⟨value, after, ran, implies value after held⟩

theorem yields_for_m {κ σ : Type} (run : ι → HeapM α Unit) (step : σ → κ → σ) (stands : ι → κ → Prop)
    (invariant : σ → Heap α → Prop)
    (follows : ∀ item image state heap, stands item image → invariant state heap →
      Yields (run item) heap fun _ after => invariant (step state image) after)
    (items : List ι) (images : List κ) (each : List.Forall₂ stands items images) (state : σ) (heap : Heap α)
    (started : invariant state heap) : Yields (forM items run) heap fun _ after => invariant (images.foldl step state) after := by
  induction each generalizing state heap with
  | nil => exact yields_pure () heap _ started
  | cons first _ ih =>
    rw [List.forM_cons]
    exact yields_bind _ _ heap _ _ (follows _ _ state heap first started) fun _ after held => ih _ after held

theorem yields_fold_m {κ σ : Type} (run : β → ι → HeapM α β) (step : σ → κ → σ) (stands : ι → κ → Prop)
    (invariant : σ → β → Heap α → Prop)
    (follows : ∀ item image state value heap, stands item image → invariant state value heap →
      Yields (run value item) heap fun result after => invariant (step state image) result after)
    (items : List ι) (images : List κ) (each : List.Forall₂ stands items images) (state : σ) (value : β) (heap : Heap α)
    (started : invariant state value heap) :
    Yields (items.foldlM run value) heap fun result after => invariant (images.foldl step state) result after := by
  induction each generalizing state value heap with
  | nil => exact yields_pure value heap _ started
  | cons first _ ih =>
    rw [List.foldlM_cons]
    exact yields_bind _ _ heap _ _ (follows _ _ state value heap first started) fun result after held => ih _ result after held

theorem map_m_reads (run : ι → HeapM α β) (items : List ι) (results : List β) (heap : Heap α)
    (each : List.Forall₂ (fun item result => run item heap = some (result, heap)) items results) :
    items.mapM run heap = some (results, heap) := by
  induction each with
  | nil => rfl
  | cons first _ ih =>
    rw [List.mapM_cons]
    simp only [bind, StateT.bind, first, ih, Option.bind_some]
    rfl

end Runs

section Frames

variable {α β : Type}

variable (heap : Heap α) (ref : Ref) (object : α)

theorem ref_bound (found : heap[ref]? = some object) : ref < heap.length :=
  (List.getElem?_eq_some_iff.mp found).1

theorem load_of (kind : α → Option β) (heap : Heap α) (ref : Ref) (object : α) (content : β)
    (found : heap[ref]? = some object) (isKind : kind object = some content) :
    load kind ref heap = some (content, heap) := by
  rw [load, found, Option.bind_some, isKind]
  rfl

theorem store_of (old new : α) (found : heap[ref]? = some old) :
    store ref new heap = some ((), heap.set ref new) := if_pos (ref_bound heap ref old found)

theorem read_new : (heap ++ [object])[heap.length]? = some object := by simp

theorem read_stored (old new : α) (found : heap[ref]? = some old) :
    (heap.set ref new)[ref]? = some new := List.getElem?_set_self (ref_bound heap ref old found)

theorem read_other (ref other : Ref) (new : α) (apart : other ≠ ref) :
    (heap.set ref new)[other]? = heap[other]? := List.getElem?_set_ne (Ne.symm apart)

def Leaves (mark : Nat) (touched : α → Bool) (before after : Heap α) : Prop :=
  ∀ ref object, before[ref]? = some object → ref < mark ∨ touched object = false → after[ref]? = some object

variable (mark : Nat) (touched : α → Bool)

theorem leaves_refl (heap : Heap α) : Leaves mark touched heap heap :=
  fun _ _ found _ => found

theorem leaves_trans (first second third : Heap α)
    (before : Leaves mark touched first second) (after : Leaves mark touched second third) : Leaves mark touched first third :=
  fun ref object found spared => after ref object (before ref object found spared) spared

theorem leaves_alloc (heap : Heap α) (object : α) : Leaves mark touched heap (heap ++ [object]) := by
  intro ref found there _
  rw [List.getElem?_append_left (ref_bound heap ref found there), there]

theorem leaves_store (heap : Heap α) (ref : Ref) (old new : α)
    (found : heap[ref]? = some old) (above : mark ≤ ref) (kind : touched old = true) :
    Leaves mark touched heap (heap.set ref new) := by
  intro other object there spared
  have apart : other ≠ ref := by
    intro same
    rw [same] at spared there
    rcases spared with below | untouched
    · exact absurd below (Nat.not_lt.mpr above)
    · rw [found, Option.some.injEq] at there
      rw [← there, kind] at untouched
      cases untouched
  rw [read_other heap ref other new apart, there]

def Extends (before after : Heap α) : Prop :=
  ∀ (ref : Ref) object, before[ref]? = some object → after[ref]? = some object

theorem extends_length (before after : Heap α) (grown : Extends before after) : before.length ≤ after.length := by
  by_contra shorter
  have inside : after.length < before.length := Nat.lt_of_not_le shorter
  have found := grown after.length _ (List.getElem?_eq_getElem inside)
  exact Nat.lt_irrefl _ (ref_bound after after.length _ found)

theorem extends_trans (first second third : Heap α) (before : Extends first second) (after : Extends second third) :
    Extends first third := fun ref object found => after ref object (before ref object found)

theorem extends_leaves (base before after : Heap α) (grown : Extends base before)
    (leaves : Leaves base.length touched before after) : Extends base after :=
  fun ref object found => leaves ref object (grown ref object found) (.inl (ref_bound base ref object found))

theorem extends_alloc : Extends heap (heap ++ [object]) :=
  fun ref found there => leaves_alloc heap.length (fun _ => false) heap object ref found there (.inr rfl)

theorem extends_refl : Extends heap heap := fun _ _ found => found

def Adds (run : HeapM α β) (heap : Heap α) (post : β → Heap α → Prop) : Prop :=
  Yields run heap fun result after => Extends heap after ∧ post result after

theorem adds_pure (value : β) (heap : Heap α) (post : β → Heap α → Prop) (held : post value heap) :
    Adds (pure value) heap post := yields_pure value heap _ ⟨extends_refl heap, held⟩

theorem adds_alloc (heap : Heap α) : Adds (alloc object) heap fun ref after => after[ref]? = some object :=
  ⟨heap.length, heap ++ [object], rfl, extends_alloc heap object, read_new heap object⟩

theorem adds_bind {γ : Type} (first : HeapM α β) (next : β → HeapM α γ) (heap : Heap α) (middle : β → Heap α → Prop)
    (post : γ → Heap α → Prop) (addsFirst : Adds first heap middle)
    (addsNext : ∀ value after, Extends heap after → middle value after → Adds (next value) after post) :
    Adds (first >>= next) heap post := by
  refine yields_bind first next heap _ _ addsFirst fun value after held => ?_
  refine yields_imp _ _ _ _ (addsNext value after held.1 held.2) fun result final later => ?_
  exact ⟨extends_trans heap after final held.1 later.1, later.2⟩

theorem adds_map_m {ι : Type} (run : ι → HeapM α β) (about : Heap α → ι → β → Prop)
    (lasts : ∀ before after item result, Extends before after → about before item result → about after item result)
    (each : ∀ item heap, Adds (run item) heap fun result after => about after item result) (items : List ι) (heap : Heap α) :
    Adds (items.mapM run) heap fun results after => List.Forall₂ (about after) items results := by
  induction items generalizing heap with
  | nil => exact adds_pure [] heap _ .nil
  | cons item rest ih =>
    rw [List.mapM_cons]
    refine adds_bind _ _ heap _ _ (each item heap) fun result middle _ first => ?_
    refine adds_bind _ _ middle _ _ (ih middle) fun results after grown later => ?_
    exact adds_pure _ after _ (.cons (lasts middle after item result grown first) later)

end Frames

end HeapLib
