import WakeSol.Lib.Radix
import Mathlib.Data.List.Forall2

/- Readers over a cursor and writers onto a buffer, both as state over
   exceptions. A reader consumes exactly the bytes of a value when it returns
   the value and stops behind them whatever follows; a writer emits bytes when
   it appends them to whatever is there. -/
set_option autoImplicit false

namespace WireLib

open RadixLib

structure Cursor where
  pos : Nat
  rest : Bytes
deriving DecidableEq

abbrev Reader (ε α : Type) := StateT Cursor (Except ε) α

abbrev Emitter (ε α : Type) := StateT Bytes (Except ε) α

section Rules

variable {ε α β ι : Type}

def Consumes (reader : Reader ε α) (value : α) (bytes : Bytes) : Prop :=
  ∀ (pos : Nat) (after : Bytes), reader ⟨pos, bytes ++ after⟩ = .ok (value, ⟨pos + bytes.length, after⟩)

def Emits (writer : Emitter ε Unit) (bytes : Bytes) : Prop := ∀ out : Bytes, writer out = .ok ((), out ++ bytes)

def Fails (writer : Emitter ε Unit) : Prop := ∀ out : Bytes, ∃ e, writer out = .error e

def Splits (reader : Reader ε α) (holds : α → Bytes → Prop) : Prop :=
  ∀ (cur : Cursor) (value : α) (after : Cursor), reader cur = .ok (value, after) →
    ∃ bytes, cur.rest = bytes ++ after.rest ∧ after.pos = cur.pos + bytes.length ∧ holds value bytes

variable (first : Reader ε α) (next : α → Reader ε β)

theorem run_bind (cur : Cursor) : (first >>= next) cur =
    match first cur with
    | .ok (value, after) => next value after
    | .error e => .error e := by
  cases result : first cur with
  | ok pair => simp [bind, StateT.bind, Except.bind, result]
  | error e => simp [bind, StateT.bind, Except.bind, result]

theorem write_bind (first second : Emitter ε Unit) (out : Bytes) : (first >>= fun _ => second) out =
    match first out with
    | .ok (_, after) => second after
    | .error e => .error e := by
  cases result : first out with
  | ok pair => simp [bind, StateT.bind, Except.bind, result]
  | error e => simp [bind, StateT.bind, Except.bind, result]

theorem consumes_pure (value : α) : Consumes (pure value : Reader ε α) value [] := by
  intro pos after
  rfl

theorem consumes_bind (value : α) (result : β) (front back : Bytes)
    (consumesFirst : Consumes first value front) (consumesNext : Consumes (next value) result back) :
    Consumes (first >>= next) result (front ++ back) := by
  intro pos after
  rw [run_bind, List.append_assoc, consumesFirst pos (back ++ after)]
  simp only
  rw [consumesNext, List.length_append, Nat.add_assoc]

theorem consumes_last (value : α) (result : β) (bytes : Bytes)
    (consumesFirst : Consumes first value bytes) (ends : Consumes (next value) result []) :
    Consumes (first >>= next) result bytes := by
  have whole := consumes_bind first next value result bytes [] consumesFirst ends
  rwa [List.append_nil] at whole

variable (reader : ι → Reader ε α)

theorem consumes_map_m (items : List ι) (parts : List (α × Bytes))
    (each : List.Forall₂ (fun item part => Consumes (reader item) part.1 part.2) items parts) :
    Consumes (items.mapM reader) (parts.map Prod.fst) (parts.map Prod.snd).flatten := by
  induction each with
  | nil =>
    rw [List.mapM_nil]
    exact consumes_pure []
  | cons first _ ih =>
    rw [List.mapM_cons]
    refine consumes_bind _ _ _ _ _ _ first ?_
    exact consumes_last _ _ _ _ _ ih (consumes_pure _)

def Returns (reader : Reader ε α) (value : α) (bytes : Bytes) : Prop :=
  ∀ (pos : Nat) (after : Bytes) (result : α) (cur : Cursor), reader ⟨pos, bytes ++ after⟩ = .ok (result, cur) →
    result = value ∧ cur = ⟨pos + bytes.length, after⟩

theorem returns_consumed (reader : Reader ε α) (value : α) (bytes : Bytes) (consumes : Consumes reader value bytes) :
    Returns reader value bytes := by
  intro pos after result cur ran
  rw [consumes pos after] at ran
  obtain ⟨rfl, rfl⟩ := Prod.mk.inj (Except.ok.inj ran)
  exact ⟨rfl, rfl⟩

theorem returns_bind (value : α) (result : β) (front back : Bytes)
    (returnsFirst : Returns first value front) (returnsNext : Returns (next value) result back) :
    Returns (first >>= next) result (front ++ back) := by
  intro pos after outcome cur ran
  rw [run_bind, List.append_assoc] at ran
  cases ranFirst : first ⟨pos, front ++ (back ++ after)⟩ with
  | error e => simp [ranFirst] at ran
  | ok pair =>
    obtain ⟨found, middle⟩ := pair
    simp only [ranFirst] at ran
    obtain ⟨rfl, rfl⟩ := returnsFirst pos (back ++ after) found middle ranFirst
    rw [List.length_append, ← Nat.add_assoc]
    exact returnsNext _ after outcome cur ran

theorem returns_last (value : α) (result : β) (bytes : Bytes)
    (returnsFirst : Returns first value bytes) (ends : Consumes (next value) result []) :
    Returns (first >>= next) result bytes := by
  have whole := returns_bind first next value result bytes [] returnsFirst (returns_consumed _ _ _ ends)
  rwa [List.append_nil] at whole

theorem returns_map_m (items : List ι) (parts : List (α × Bytes))
    (each : List.Forall₂ (fun item part => Returns (reader item) part.1 part.2) items parts) :
    Returns (items.mapM reader) (parts.map Prod.fst) (parts.map Prod.snd).flatten := by
  induction each with
  | nil =>
    rw [List.mapM_nil]
    exact returns_consumed _ _ _ (consumes_pure [])
  | cons first _ ih =>
    rw [List.mapM_cons]
    refine returns_bind _ _ _ _ _ _ first ?_
    exact returns_last _ _ _ _ _ ih (consumes_pure _)

def TakesIff (reader : Reader ε α) (bytes after : Bytes) (holds : Prop) : Prop :=
  ∀ pos, (holds → ∃ value, reader ⟨pos, bytes ++ after⟩ = .ok (value, ⟨pos + bytes.length, after⟩)) ∧
    (¬ holds → ∃ e, reader ⟨pos, bytes ++ after⟩ = .error e)

theorem takes_consumed (reader : Reader ε α) (value : α) (bytes after : Bytes) (consumes : Consumes reader value bytes) :
    TakesIff reader bytes after True :=
  fun pos => ⟨fun _ => ⟨value, consumes pos after⟩, fun never => absurd trivial never⟩

theorem takes_then (value : α) (front back after : Bytes) (holds : Prop)
    (consumes : Consumes first value front) (takes : TakesIff (next value) back after holds) :
    TakesIff (first >>= next) (front ++ back) after holds := by
  intro pos
  rw [run_bind, List.append_assoc, consumes pos (back ++ after)]
  simp only
  rw [List.length_append, ← Nat.add_assoc]
  exact takes (pos + front.length)

theorem takes_return (final : α → β) (bytes after : Bytes) (holds : Prop)
    (takes : TakesIff first bytes after holds) : TakesIff (first >>= fun value => pure (final value)) bytes after holds := by
  intro pos
  rw [run_bind]
  refine ⟨fun held => ?_, fun fails => ?_⟩
  · obtain ⟨value, ran⟩ := (takes pos).1 held
    exact ⟨final value, by rw [ran]; rfl⟩
  · obtain ⟨e, raised⟩ := (takes pos).2 fails
    exact ⟨e, by rw [raised]⟩

def Along (holds : Nat → ι → Prop) (size : ι → Nat) (after : Nat) : List ι → Prop
  | [] => True
  | item :: later => holds ((later.map size).sum + after) item ∧ Along holds size after later

theorem sizes_sum (size : ι → Nat) (parts : List (ι × Bytes)) (sized : ∀ part ∈ parts, size part.1 = part.2.length) :
    ((parts.map Prod.fst).map size).sum = (parts.map Prod.snd).flatten.length := by
  induction parts with
  | nil => rfl
  | cons part rest ih =>
    have here := sized part (by simp)
    have later := ih fun other inside => sized other (by simp [inside])
    simp only [List.map_cons, List.sum_cons, List.flatten_cons, List.length_append, here, later]

theorem takes_map_m {κ : Type} (reader : ι → Reader ε α) (items : List ι) (parts : List (κ × Bytes)) (after : Bytes)
    (holds : Nat → κ → Prop) (size : κ → Nat) (sized : ∀ part ∈ parts, size part.1 = part.2.length)
    (each : List.Forall₂ (fun item part => ∀ after : Bytes, TakesIff (reader item) part.2 after (holds after.length part.1))
      items parts) :
    TakesIff (items.mapM reader) (parts.map Prod.snd).flatten after (Along holds size after.length (parts.map Prod.fst)) := by
  induction each with
  | nil =>
    rw [List.mapM_nil]
    exact takes_consumed _ [] [] after (consumes_pure [])
  | @cons item part items parts first _ ih =>
    have later := ih fun other inside => sized other (by simp [inside])
    have sum := sizes_sum size parts fun other inside => sized other (by simp [inside])
    intro pos
    have here := first ((parts.map Prod.snd).flatten ++ after) pos
    rw [List.length_append] at here
    rw [List.mapM_cons, run_bind, List.map_cons, List.map_cons, List.flatten_cons, List.append_assoc, Along, sum,
      List.length_append, ← Nat.add_assoc]
    by_cases fits : holds ((parts.map Prod.snd).flatten.length + after.length) part.1
    · obtain ⟨value, ran⟩ := here.1 fits
      rw [ran]
      have rest := takes_return _ (value :: ·) _ after _ later (pos + part.2.length)
      exact ⟨fun held => rest.1 held.2, fun fails => rest.2 fun held => fails ⟨fits, held⟩⟩
    · obtain ⟨e, raised⟩ := here.2 fits
      rw [raised]
      exact ⟨fun held => absurd held.1 fits, fun _ => ⟨e, rfl⟩⟩

theorem splits_bind (holdsFirst : α → Bytes → Prop)
    (holdsNext : α → β → Bytes → Prop) (splitsFirst : Splits first holdsFirst)
    (splitsNext : ∀ value, Splits (next value) (holdsNext value)) : Splits (first >>= next) fun result bytes =>
      ∃ value front back, bytes = front ++ back ∧ holdsFirst value front ∧ holdsNext value result back := by
  intro cur result final ran
  rw [run_bind] at ran
  cases ranFirst : first cur with
  | error e => simp [ranFirst] at ran
  | ok pair =>
    obtain ⟨value, middle⟩ := pair
    simp only [ranFirst] at ran
    obtain ⟨front, frontRest, frontPos, holdsF⟩ := splitsFirst cur value middle ranFirst
    obtain ⟨back, backRest, backPos, holdsB⟩ := splitsNext value middle result final ran
    refine ⟨front ++ back, ?_, ?_, value, front, back, rfl, holdsF, holdsB⟩
    · rw [frontRest, backRest, List.append_assoc]
    · rw [backPos, frontPos, List.length_append, Nat.add_assoc]

theorem splits_pure (value : α) : Splits (pure value : Reader ε α) fun result bytes => result = value ∧ bytes = [] := by
  intro cur result after ran
  have same : (value, cur) = (result, after) := Except.ok.inj ran
  obtain ⟨sameValue, sameCur⟩ := Prod.mk.inj same
  exact ⟨[], by rw [sameCur]; rfl, by rw [sameCur]; rfl, sameValue.symm, rfl⟩

theorem splits_return (final : α → β) (holds : α → Bytes → Prop) (splits : Splits first holds) :
    Splits (first >>= fun value => pure (final value)) fun result bytes =>
      ∃ value, result = final value ∧ holds value bytes := by
  intro cur result after ran
  obtain ⟨bytes, rest, pos, value, front, back, rfl, held, rfl, rfl⟩ :=
    splits_bind first _ holds _ splits (fun value => splits_pure (final value)) cur result after ran
  exact ⟨front ++ [], rest, pos, value, rfl, by rwa [List.append_nil]⟩

theorem splits_map_m (items : List ι) (holds : ι → α → Bytes → Prop)
    (each : ∀ item ∈ items, Splits (reader item) (holds item)) :
    Splits (items.mapM reader) fun values bytes => ∃ parts : List (α × Bytes), values = parts.map Prod.fst ∧
      bytes = (parts.map Prod.snd).flatten ∧ List.Forall₂ (fun item part => holds item part.1 part.2) items parts := by
  induction items with
  | nil =>
    rw [List.mapM_nil]
    intro cur values after ran
    obtain ⟨bytes, rest, pos, rfl, rfl⟩ := splits_pure [] cur values after ran
    exact ⟨[], rest, pos, [], rfl, rfl, .nil⟩
  | cons item others ih =>
    rw [List.mapM_cons]
    have first := each item (by simp)
    have later := ih fun other member => each other (by simp [member])
    intro cur values after ran
    obtain ⟨bytes, rest, pos, value, front, back, rfl, holdsF, tail, back', none, rfl, ⟨parts, rfl, rfl, all⟩, rfl, rfl⟩ :=
      splits_bind _ _ _ _ first (fun value => splits_bind _ _ _ _ later fun tail => splits_pure (value :: tail))
        cur values after ran
    refine ⟨_, rest, pos, (value, front) :: parts, rfl, by simp, .cons holdsF all⟩

theorem map_m_size (items : List ι) (cur after : Cursor) (values : List α)
    (ran : items.mapM reader cur = .ok (values, after)) : values.length = items.length := by
  induction items generalizing cur values with
  | nil =>
    cases ran
    rfl
  | cons item rest ih =>
    rw [List.mapM_cons, run_bind] at ran
    cases first : reader item cur with
    | error e =>
      rw [first] at ran
      cases ran
    | ok pair =>
      obtain ⟨value, middle⟩ := pair
      simp only [first, run_bind] at ran
      cases others : rest.mapM reader middle with
      | error e =>
        rw [others] at ran
        cases ran
      | ok tail =>
        obtain ⟨found, last⟩ := tail
        rw [others] at ran
        cases ran
        rw [List.length_cons, List.length_cons, ih middle found others]

theorem splits_imp (reader : Reader ε α) (holds weaker : α → Bytes → Prop) (splits : Splits reader holds)
    (implies : ∀ value bytes, holds value bytes → weaker value bytes) : Splits reader weaker := by
  intro cur value after ran
  obtain ⟨bytes, rest, pos, held⟩ := splits cur value after ran
  exact ⟨bytes, rest, pos, implies value bytes held⟩

theorem forall_right (items : List ι) (parts : List α) (holds : α → Prop)
    (each : List.Forall₂ (fun _ part => holds part) items parts) : ∀ part ∈ parts, holds part := by
  induction each with
  | nil => simp
  | cons first _ ih =>
    intro part inside
    rcases List.mem_cons.mp inside with rfl | later
    · exact first
    · exact ih part later

theorem choose_parts (values : List α) (holds : α → β → Prop) (each : ∀ value ∈ values, ∃ raw, holds value raw) :
    ∃ parts : List (α × β), values = parts.map Prod.fst ∧ ∀ part ∈ parts, holds part.1 part.2 := by
  induction values with
  | nil => exact ⟨[], rfl, by simp⟩
  | cons value rest ih =>
    obtain ⟨raw, held⟩ := each value (by simp)
    obtain ⟨parts, rfl, all⟩ := ih fun other inside => each other (by simp [inside])
    refine ⟨(value, raw) :: parts, rfl, fun part inside => ?_⟩
    rcases List.mem_cons.mp inside with rfl | later
    · exact held
    · exact all part later

theorem choose_parts_along (items : List ι) (values : List α) (related : ι → α → Prop) (holds : ι → α → β → Prop)
    (each : List.Forall₂ related items values)
    (found : ∀ item, ∀ value ∈ values, related item value → ∃ raw, holds item value raw) :
    ∃ parts : List (α × β), values = parts.map Prod.fst ∧
      List.Forall₂ (fun item part => holds item part.1 part.2) items parts := by
  induction each with
  | nil => exact ⟨[], rfl, .nil⟩
  | @cons item value items values here _ ih =>
    obtain ⟨raw, held⟩ := found item value (by simp) here
    obtain ⟨parts, rfl, all⟩ := ih fun item value inside => found item value (by simp [inside])
    exact ⟨(value, raw) :: parts, rfl, .cons held all⟩

theorem emits_pure : Emits (pure () : Emitter ε Unit) [] := by
  intro out
  rw [List.append_nil]
  rfl

theorem emits_bind (first second : Emitter ε Unit) (front back : Bytes) (emitsFirst : Emits first front)
    (emitsSecond : Emits second back) : Emits (first >>= fun _ => second) (front ++ back) := by
  intro out
  rw [write_bind, emitsFirst]
  simp only
  rw [emitsSecond, List.append_assoc]

theorem fails_first (first second : Emitter ε Unit) (fails : Fails first) : Fails (first >>= fun _ => second) := by
  intro out
  obtain ⟨e, failed⟩ := fails out
  exact ⟨e, by rw [write_bind, failed]⟩

theorem fails_second (first second : Emitter ε Unit) (front : Bytes) (emits : Emits first front) (fails : Fails second) :
    Fails (first >>= fun _ => second) := by
  intro out
  obtain ⟨e, failed⟩ := fails (out ++ front)
  exact ⟨e, by rw [write_bind, emits]; exact failed⟩

variable (writer : ι → Emitter ε Unit)

theorem emits_for_m (items : List ι) (parts : List Bytes)
    (each : List.Forall₂ (fun item bytes => Emits (writer item) bytes) items parts) :
    Emits (forM items writer) parts.flatten := by
  induction each with
  | nil => exact emits_pure
  | cons first _ ih =>
    rw [List.forM_cons]
    exact emits_bind _ _ _ _ first ih

theorem fails_for_m (items : List ι) (each : ∀ item ∈ items, (∃ bytes, Emits (writer item) bytes) ∨ Fails (writer item))
    (some : ∃ item ∈ items, Fails (writer item)) : Fails (forM items writer) := by
  induction items with
  | nil => simp at some
  | cons item others ih =>
    rw [List.forM_cons]
    rcases each item (by simp) with ⟨bytes, emits⟩ | fails
    · by_cases here : Fails (writer item)
      · exact fails_first _ _ here
      · obtain ⟨culprit, member, failsCulprit⟩ := some
        have later : culprit ∈ others := by
          rcases List.mem_cons.mp member with rfl | later
          · exact absurd failsCulprit here
          · exact later
        exact fails_second _ _ bytes emits
          (ih (fun other inside => each other (by simp [inside])) ⟨culprit, later, failsCulprit⟩)
    · exact fails_first _ _ fails

theorem for_m_congr (first second : ι → Emitter ε Unit) (items : List ι) (same : ∀ item ∈ items, first item = second item) :
    forM items first = forM items second := by
  induction items with
  | nil => rfl
  | cons item others ih =>
    rw [List.forM_cons, List.forM_cons, same item (by simp), ih fun other inside => same other (by simp [inside])]

def Steady {κ : Type} (writer : κ → Emitter ε Unit) : Prop :=
  ∀ path out after, writer path out = .ok ((), after) → ∃ bytes, after = out ++ bytes ∧ ∀ path, Emits (writer path) bytes

theorem steady_emits {κ : Type} (writer : κ → Emitter ε Unit) (bytes : Bytes) (emits : ∀ path, Emits (writer path) bytes) :
    Steady writer := by
  intro path out after ran
  rw [emits path out] at ran
  exact ⟨bytes, (Prod.mk.inj (Except.ok.inj ran)).2.symm, emits⟩

theorem steady_fails {κ : Type} (writer : κ → Emitter ε Unit) (fails : ∀ path, Fails (writer path)) : Steady writer := by
  intro path out after ran
  obtain ⟨e, raised⟩ := fails path out
  rw [raised] at ran
  cases ran

theorem steady_bind {κ : Type} (first second : κ → Emitter ε Unit) (path : κ) (out after : Bytes)
    (steadyFirst : Steady first) (steadySecond : Steady second)
    (ran : (first path >>= fun _ => second path) out = .ok ((), after)) :
    ∃ front back, after = out ++ (front ++ back) ∧ (∀ path, Emits (first path) front) ∧ ∀ path, Emits (second path) back := by
  rw [write_bind] at ran
  cases ranFirst : first path out with
  | error e => simp [ranFirst] at ran
  | ok pair =>
    obtain ⟨⟨⟩, middle⟩ := pair
    simp only [ranFirst] at ran
    obtain ⟨front, rfl, emitsFirst⟩ := steadyFirst path out middle ranFirst
    obtain ⟨back, rfl, emitsSecond⟩ := steadySecond path _ after ran
    exact ⟨front, back, by rw [List.append_assoc], emitsFirst, emitsSecond⟩

theorem steady_then {κ : Type} (first second : κ → Emitter ε Unit) (steadyFirst : Steady first) (steadySecond : Steady second) :
    Steady fun path => first path >>= fun _ => second path := by
  intro path out after ran
  obtain ⟨front, back, grown, emitsFirst, emitsSecond⟩ := steady_bind first second path out after steadyFirst steadySecond ran
  exact ⟨front ++ back, grown, fun path => emits_bind _ _ _ _ (emitsFirst path) (emitsSecond path)⟩

theorem for_m_parts (items : List ι) (holds : ι → Bytes → Prop) (out after : Bytes)
    (each : ∀ item ∈ items, ∀ out after, writer item out = .ok ((), after) → ∃ bytes, after = out ++ bytes ∧ holds item bytes)
    (ran : forM items writer out = .ok ((), after)) :
    ∃ parts : List Bytes, after = out ++ parts.flatten ∧ List.Forall₂ holds items parts := by
  induction items generalizing out with
  | nil =>
    have same : out = after := (Prod.mk.inj (Except.ok.inj ran)).2
    exact ⟨[], by simp [same], .nil⟩
  | cons item others ih =>
    rw [List.forM_cons, write_bind] at ran
    cases ranFirst : writer item out with
    | error e => simp [ranFirst] at ran
    | ok pair =>
      obtain ⟨⟨⟩, middle⟩ := pair
      simp only [ranFirst] at ran
      obtain ⟨front, rfl, held⟩ := each item (by simp) out middle ranFirst
      obtain ⟨parts, rfl, all⟩ := ih (out ++ front) (fun other inside => each other (by simp [inside])) ran
      exact ⟨front :: parts, by simp, .cons held all⟩

theorem zip_parts (items : List ι) (raws : List β) (holds : ι → β → Prop) (each : List.Forall₂ holds items raws) :
    ∃ parts : List (ι × β), items = parts.map Prod.fst ∧ raws = parts.map Prod.snd ∧ ∀ part ∈ parts, holds part.1 part.2 := by
  obtain ⟨size, zipped⟩ := List.forall₂_iff_zip.mp each
  refine ⟨items.zip raws, ?_, ?_, fun part inside => zipped inside⟩
  · rw [List.map_fst_zip (by omega)]
  · rw [List.map_snd_zip (by omega)]

theorem pair_parts (items : List ι) (raws : List β) (holds : ι → α → β → Prop)
    (each : List.Forall₂ (fun item raw => ∃ value, holds item value raw) items raws) :
    ∃ parts : List (α × β), raws = parts.map Prod.snd ∧ List.Forall₂ (fun item part => holds item part.1 part.2) items parts := by
  induction each with
  | nil => exact ⟨[], rfl, .nil⟩
  | @cons item raw items raws first _ ih =>
    obtain ⟨value, held⟩ := first
    obtain ⟨parts, rfl, all⟩ := ih
    exact ⟨(value, raw) :: parts, rfl, .cons held all⟩

end Rules

end WireLib
