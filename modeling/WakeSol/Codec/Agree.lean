import WakeSol.Codec.Emission

/- When the decoder takes back what the encoder emitted. Beyond the shape of the
   bytes the decoder asks for three things: a level for each composite node, no
   more elements in a vector than bytes behind its length, and a member of the
   enum for each number written as one. -/
set_option autoImplicit false

namespace WakeSol.Codec

open TextLib RadixLib EndianLib BinaryLib WireLib

-- Asked with the number of bytes behind the encoding of the value.
abbrev NodeAdmits := Nat → Node → Value → Prop

def encodedLength (env : Env) (entry : Node × Value) : Nat :=
  match encode env entry.2 entry.1 with
  | .ok raw => raw.length
  | .error _ => 0

def admitsEach (env : Env) (next : NodeAdmits) (after : Nat) (entries : List (Node × Value)) : Prop :=
  Along (fun after entry => next after entry.1 entry.2) (encodedLength env) after entries

def elements (elem : Node) (value : Value) : List (Node × Value) :=
  match pyItems value with
  | .ok items => items.map fun item => (elem, item)
  | .error _ => []

def attributes (fields : Fields) (value : Value) : List (Node × Value) :=
  fields.entries.filterMap fun entry => (getAttr value entry.1).toOption.map fun attr => (entry.2, attr)

def admitsVec (env : Env) (after : Nat) (entries : List (Node × Value)) (next : NodeAdmits) : Prop :=
  entries.length ≤ (entries.map (encodedLength env)).sum + after ∧ admitsEach env next after entries

def admitsClass (env : Env) (after : Nat) (cls : Name) (value : Value) (next : NodeAdmits) : Prop :=
  match env.lookup cls with
  | none => False
  | some (.struct fields) => admitsEach env next after (attributes fields value)
  | some (.intEnum members) => ∃ n ∈ members, pyInt value = .ok (n : Int)
  | some (.borshEnum variants) =>
    match variants.ofValue cls value with
    | none => False
    | some variant => admitsEach env next after (attributes variant.fields value)

def admitsNode (env : Env) (below : Option NodeAdmits) : NodeAdmits
  | after, .option inner, value => Within below fun next => value = .none ∨ next after inner value
  | after, .opt inner, value => Within below fun next => ∀ held, value = .opt held → next after inner held
  | after, .vec elem, value => Within below (admitsVec env after (elements elem value))
  | after, .fixedArray elem _, value => Within below fun next => admitsEach env next after (elements elem value)
  | after, .ref cls, value => Within below (admitsClass env after cls value)
  | _, _, _ => True

def Admits (env : Env) : (room : Nat) → NodeAdmits
  | 0 => admitsNode env none
  | room + 1 => admitsNode env (some (Admits env room))

variable (env : Env)

theorem encoded_length (node : Node) (value : Value) (raw : Bytes) (emission : Emission env node value raw) :
    encodedLength env (node, value) = raw.length := by
  rw [encodedLength, (encode_emission env node value raw).mpr emission]

theorem seq_len_refuses (minElem : Int) (path : Path) (n : Nat) (small : n < 256 ^ 4) (rest : Bytes)
    (short : rest.length < n) (pos : Nat) : ∃ e, readSeqLen minElem path ⟨pos, leBytes 4 n ++ rest⟩ = .error e := by
  have value := le_nat_le_bytes 4 n small
  have length := le_bytes_length 4 n
  have taken := take_consumes (leBytes 4 n) 4 path (by simp [length]) pos rest
  rw [readSeqLen, run_bind, taken]
  simp only [run_bind, remaining, value]
  rw [if_pos short]
  exact ⟨_, rfl⟩

def Agrees (env : Env) (reader : NodeReader) (admits : NodeAdmits) : Prop :=
  ∀ node value raw after path, Emission env node value raw →
    TakesIff (reader node path) raw after (admits after.length node value)

variable (reader : NodeReader)

theorem items_taken (admits : NodeAdmits) (agrees : Agrees env reader admits) (elem : Node)
    (parts : List (Value × Bytes)) (each : ∀ part ∈ parts, Emission env elem part.1 part.2) (path : Path) (after : Bytes) :
    TakesIff (readItems elem parts.length path reader) (parts.map Prod.snd).flatten after
      (admitsEach env admits after.length ((parts.map Prod.fst).map fun item => (elem, item))) := by
  have taken := takes_map_m (fun i => reader elem (path ++ [.index i])) (List.range parts.length)
    (parts.map fun part => ((elem, part.1), part.2)) after (fun after entry => admits after entry.1 entry.2) (encodedLength env)
    (fun part inside => by
      obtain ⟨source, member, rfl⟩ := List.mem_map.mp inside
      exact encoded_length env elem source.1 source.2 (each source member))
    (by
      rw [List.forall₂_iff_zip]
      refine ⟨by simp, fun {i part} inside => ?_⟩
      obtain ⟨source, member, rfl⟩ := List.mem_map.mp (List.of_mem_zip inside).2
      exact fun after => agrees elem source.1 source.2 after _ (each source member))
  simp only [List.map_map, Function.comp_def] at taken
  rw [List.map_map]
  exact takes_return _ Value.list _ after _ taken

theorem attributes_parts (fields : Fields) (value : Value) (parts : List (Value × Bytes))
    (each : List.Forall₂ (Attributed (emit env) value) fields.entries parts) :
    ∃ known : List ((Node × Value) × Bytes), attributes fields value = known.map Prod.fst ∧
      parts.map Prod.snd = known.map Prod.snd ∧
      List.Forall₂ (fun entry part => entry.2 = part.1.1 ∧ Emission env part.1.1 part.1.2 part.2) fields.entries known := by
  rw [attributes]
  generalize fields.entries = entries at each
  induction each with
  | nil => exact ⟨[], rfl, rfl, .nil⟩
  | @cons entry part entries parts first _ ih =>
    obtain ⟨known, firsts, seconds, all⟩ := ih
    refine ⟨((entry.2, part.1), part.2) :: known, ?_, ?_, .cons ⟨rfl, first.2⟩ all⟩
    · rw [List.filterMap_cons, firsts, first.1]
      rfl
    · rw [List.map_cons, List.map_cons, seconds]

theorem fields_taken (admits : NodeAdmits) (agrees : Agrees env reader admits)
    (fields : Fields) (value : Value) (raw : Bytes) (outlined : OutlinedFields env fields value raw)
    (pathOf : Name × Node → Path) (after : Bytes) :
    TakesIff (fields.entries.mapM fun entry => reader entry.2 (pathOf entry)) raw after
      (admitsEach env admits after.length (attributes fields value)) := by
  obtain ⟨parts, rfl, each⟩ := outlined
  obtain ⟨known, firsts, seconds, all⟩ := attributes_parts env fields value parts each
  rw [firsts, seconds]
  refine takes_map_m _ fields.entries known after _ (encodedLength env) ?_ ?_
  · refine forall_right fields.entries known _ (all.imp fun entry part held => ?_)
    exact encoded_length env part.1.1 part.1.2 part.2 held.2
  · refine all.imp fun entry part held after => ?_
    rw [held.1]
    exact agrees part.1.1 part.1.2 part.2 after _ held.2

theorem enum_refuses (cls : Name) (members : List Nat) (path : Path) (tag : UInt8) (foreign : tag.toNat ∉ members)
    (pos : Nat) (after : Bytes) : ∃ e, readIntEnum cls members path ⟨pos, [tag] ++ after⟩ = .error e := by
  rw [readIntEnum, run_bind, byte_consumes tag path pos after]
  simp only
  rw [if_neg foreign]
  exact ⟨_, rfl⟩

theorem enum_taken (cls : Name) (members : List Nat) (path : Path) (tag : UInt8) (value : Value) (after : Bytes)
    (number : pyInt value = .ok tag.toNat) :
    TakesIff (readIntEnum cls members path) [tag] after (∃ n ∈ members, pyInt value = .ok (n : Int)) := by
  intro pos
  refine ⟨fun ⟨n, known, same⟩ => ?_, fun foreign => ?_⟩
  · have equal : tag.toNat = n := by
      rw [number] at same
      exact Int.ofNat.inj (Except.ok.inj same)
    exact ⟨_, int_enum_consumes cls members tag (by rwa [equal]) path pos after⟩
  · exact enum_refuses cls members path tag (fun known => foreign ⟨tag.toNat, known, number⟩) pos after

theorem class_taken (admits : NodeAdmits) (agrees : Agrees env reader admits) (cls : Name)
    (value : Value) (raw : Bytes) (outlined : OutlinedClass env cls value raw) (path : Path) (after : Bytes) :
    TakesIff (readClass env cls path reader) raw after (admitsClass env after.length cls value admits) := by
  rw [OutlinedClass] at outlined
  rw [readClass, admitsClass]
  cases found : env.lookup cls with
  | none => simp [found] at outlined
  | some compiled =>
    rw [found] at outlined
    cases compiled with
    | struct fields =>
      exact takes_return _ (Value.object (.plain cls) fields.names) raw after _
        (fields_taken env reader admits agrees fields value raw outlined _ after)
    | intEnum members =>
      obtain ⟨tag, number, rfl⟩ := outlined
      exact enum_taken cls members path tag value after number
    | borshEnum variants =>
      obtain ⟨variant, tag, body, isVariant, known, rfl, outlinedFields⟩ := outlined
      simp only [isVariant]
      refine takes_then _ _ tag [tag] body after _ (byte_consumes tag path) ?_
      rw [known]
      exact takes_return _ (Value.object (.variant cls tag.toNat variant.name) variant.fields.names) body after _
        (fields_taken env reader admits agrees variant.fields value body outlinedFields _ after)

theorem vec_taken (admits : NodeAdmits) (agrees : Agrees env reader admits) (elem : Node)
    (parts : List (Value × Bytes)) (small : parts.length < 256 ^ 4) (each : ∀ part ∈ parts, Emission env elem part.1 part.2)
    (path : Path) (after : Bytes) :
    TakesIff (readVec (minWireSize env elem) elem path reader) (leBytes 4 parts.length ++ (parts.map Prod.snd).flatten) after
      (admitsVec env after.length ((parts.map Prod.fst).map fun item => (elem, item)) admits) := by
  have items := items_taken env reader admits agrees elem parts each path after
  have sum : (((parts.map Prod.fst).map fun item => (elem, item)).map (encodedLength env)).sum =
      (parts.map Prod.snd).flatten.length := by
    have sized := sizes_sum (encodedLength env) (parts.map fun part => ((elem, part.1), part.2)) fun part inside => by
      obtain ⟨source, member, rfl⟩ := List.mem_map.mp inside
      exact encoded_length env elem source.1 source.2 (each source member)
    simpa only [List.map_map, Function.comp_def] using sized
  have floor : (parts.length : Int) * minWireSize env elem ≤ (parts.map Prod.snd).flatten.length := by
    have bound := min_items elem (minWireSize env elem) (Emission env)
      (fun value raw => emission_min env _ elem [] value raw) (parts.map Prod.fst) _ ⟨parts, rfl, rfl, each⟩
    rwa [List.length_map] at bound
  intro pos
  rw [admitsVec, sum, List.length_map, List.length_map, List.append_assoc, readVec, run_bind]
  by_cases enough : parts.length ≤ (parts.map Prod.snd).flatten.length + after.length
  · rw [seq_len_runs _ path parts.length small _ (by rw [List.length_append]; exact enough) (fun _ => by
      rw [List.length_append]
      push_cast
      omega) pos]
    have taken := items (pos + 4)
    rw [List.length_append, le_bytes_length, ← Nat.add_assoc]
    exact ⟨fun held => taken.1 held.2, fun fails => taken.2 fun held => fails ⟨enough, held⟩⟩
  · obtain ⟨e, refused⟩ := seq_len_refuses (minWireSize env elem) path parts.length small
      ((parts.map Prod.snd).flatten ++ after) (by rw [List.length_append]; omega) pos
    rw [refused]
    exact ⟨fun held => absurd held.1 enough, fun _ => ⟨e, rfl⟩⟩

theorem elements_of (elem : Node) (value : Value) (items : List Value) (found : pyItems value = .ok items) :
    elements elem value = items.map fun item => (elem, item) := by
  rw [elements, found]

def Levels (env : Env) (below : Option NodeReader) (admitted : Option NodeAdmits) : Prop :=
  (below = none ∧ admitted = none) ∨
    ∃ reader admits, below = some reader ∧ admitted = some admits ∧ Agrees env reader admits

theorem descend_taken (below : Option NodeReader) (admitted : Option NodeAdmits) (levels : Levels env below admitted)
    (path : Path) (body : NodeReader → Reader Raised Value) (raw after : Bytes) (holds : NodeAdmits → Prop)
    (inside : ∀ reader admits, Agrees env reader admits → TakesIff (body reader) raw after (holds admits)) :
    TakesIff (descend below path body) raw after (Within admitted holds) := by
  intro pos
  rcases levels with ⟨rfl, rfl⟩ | ⟨reader, admits, rfl, rfl, agrees⟩
  · exact ⟨fun ⟨_, impossible, _⟩ => (by cases impossible), fun _ => ⟨_, rfl⟩⟩
  · have taken := inside reader admits agrees pos
    refine ⟨fun ⟨_, same, held⟩ => ?_, fun fails => taken.2 fun held => fails ⟨admits, rfl, held⟩⟩
    rw [← Option.some.inj same] at held
    exact taken.1 held

theorem option_taken (admits : NodeAdmits) (agrees : Agrees env reader admits) (inner : Node)
    (value : Value) (raw : Bytes) (outlined : WireOption (Emission env) inner value raw) (path : Path) (after : Bytes) :
    TakesIff (readOption id inner path reader) raw after (value = .none ∨ admits after.length inner value) := by
  rcases outlined with ⟨rfl, rfl⟩ | ⟨present, body, rfl, emission⟩
  · have taken := takes_consumed _ _ [0] after (none_consumes id inner path reader)
    exact fun pos => ⟨fun _ => (taken pos).1 trivial, fun never => absurd (.inl rfl) never⟩
  · rw [or_iff_right present]
    refine takes_then _ _ 1 [1] body after _ (byte_consumes 1 path) ?_
    exact takes_return _ id body after _ (agrees inner value body after path emission)

theorem opt_taken (admits : NodeAdmits) (agrees : Agrees env reader admits) (inner : Node)
    (value : Value) (raw : Bytes) (outlined : WireOpt (Emission env) inner value raw) (path : Path) (after : Bytes) :
    TakesIff (readOption .opt inner path reader) raw after (∀ held, value = .opt held → admits after.length inner held) := by
  rcases outlined with ⟨rfl, rfl⟩ | ⟨held, body, rfl, rfl, emission⟩
  · have taken := takes_consumed _ _ [0] after (none_consumes .opt inner path reader)
    exact fun pos => ⟨fun _ => (taken pos).1 trivial, fun never => absurd (fun _ impossible => by cases impossible) never⟩
  · have only : (∀ other, Value.opt held = .opt other → admits after.length inner other) ↔ admits after.length inner held :=
      ⟨fun all => all held rfl, fun here other same => by rwa [← Value.opt.inj same]⟩
    rw [only]
    refine takes_then _ _ 1 [1] body after _ (byte_consumes 1 path) ?_
    exact takes_return _ Value.opt body after _ (agrees inner held body after path emission)

theorem node_taken (below : Option NodeReader) (admitted : Option NodeAdmits) (levels : Levels env below admitted) :
    Agrees env (readNode env below) (admitsNode env admitted) := by
  intro node value raw after path emission
  have outlined := emission_outlined env node value raw emission
  cases node with
  | int width signed =>
    have size : raw.length = width := outlined
    exact takes_consumed _ _ raw after (consumes_last _ _ _ _ _ (take_consumes raw width path (by rw [size])) (consumes_pure _))
  | float width =>
    obtain ⟨rfl, number⟩ := outlined
    exact takes_consumed _ _ raw after (float_consumes raw number path)
  | bool =>
    obtain ⟨b, rfl⟩ := outlined
    exact takes_consumed _ _ _ after (bool_consumes b path)
  | str =>
    obtain ⟨s, small, rfl⟩ := outlined
    exact takes_consumed _ _ _ after (str_consumes s small path)
  | bytes =>
    obtain ⟨body, small, rfl⟩ := outlined
    exact takes_consumed _ _ _ after (bytes_consumes body small path)
  | fixedBytes n =>
    have size : (raw.length : Int) = n := outlined
    subst size
    exact takes_consumed _ _ raw after (fixed_bytes_consumes raw path)
  | pubkey =>
    obtain ⟨key, rfl⟩ := outlined
    exact takes_consumed _ _ _ after (pubkey_consumes key path)
  | option inner =>
    exact descend_taken env below admitted levels path _ raw after _ fun reader admits agrees =>
      option_taken env reader admits agrees inner value raw outlined path after
  | opt inner =>
    exact descend_taken env below admitted levels path _ raw after _ fun reader admits agrees =>
      opt_taken env reader admits agrees inner value raw outlined path after
  | vec elem =>
    obtain ⟨items, body, found, small, rfl, parts, rfl, rfl, each⟩ := outlined
    refine descend_taken env below admitted levels path _ _ after _ fun reader admits agrees => ?_
    rw [elements_of elem value _ found, List.length_map]
    rw [List.length_map] at small
    exact vec_taken env reader admits agrees elem parts small each path after
  | fixedArray elem n =>
    obtain ⟨items, found, count, parts, rfl, rfl, each⟩ := outlined
    refine descend_taken env below admitted levels path _ _ after _ fun reader admits agrees => ?_
    have size : n.toNat = parts.length := by
      rw [List.length_map] at count
      omega
    rw [elements_of elem value _ found, size]
    exact items_taken env reader admits agrees elem parts each path after
  | ref cls =>
    exact descend_taken env below admitted levels path _ raw after _ fun reader admits agrees =>
      class_taken env reader admits agrees cls value raw outlined path after

theorem read_agrees (room : Nat) : Agrees env (read env room) (Admits env room) := by
  induction room with
  | zero => exact node_taken env none none (.inl ⟨rfl, rfl⟩)
  | succ room ih => exact node_taken env _ _ (.inr ⟨_, _, rfl, rfl, ih⟩)

theorem seq_len_returns (minElem : Int) (path : Path) (n : Nat) (small : n < 256 ^ 4) :
    Returns (readSeqLen minElem path) n (leBytes 4 n) := by
  intro pos after result cur ran
  obtain ⟨bytes, rest, position, bound, rfl⟩ := seq_len_splits minElem path _ result cur ran
  have sizes : (leBytes 4 n).length = (leBytes 4 result).length := by rw [le_bytes_length, le_bytes_length]
  obtain ⟨same, tail⟩ := List.append_inj rest sizes
  have equal : result = n := by
    rw [← le_nat_le_bytes 4 n small, ← le_nat_le_bytes 4 result bound, same]
  rw [← sizes] at position
  exact ⟨equal, by rw [tail, ← position]⟩

theorem items_return (next : NodeReader) (elem : Node) (parts : List (Value × Bytes)) (path : Path)
    (each : ∀ part ∈ parts, ∀ path, Returns (next elem path) part.1 part.2) :
    Returns (readItems elem parts.length path next) (.list (parts.map Prod.fst)) (parts.map Prod.snd).flatten := by
  refine returns_last _ _ (parts.map Prod.fst) _ _ (returns_map_m _ _ parts ?_) (consumes_pure _)
  rw [List.forall₂_iff_zip]
  exact ⟨by simp, fun {i part} inside => each part (List.of_mem_zip inside).2 _⟩

theorem fields_return (next : NodeReader) (fields : Fields) (parts : List (Value × Bytes)) (pathOf : Name × Node → Path)
    (each : List.Forall₂ (fun entry part => ∀ path, Returns (next entry.2 path) part.1 part.2) fields.entries parts) :
    Returns (fields.entries.mapM fun entry => next entry.2 (pathOf entry)) (parts.map Prod.fst) (parts.map Prod.snd).flatten :=
  returns_map_m _ fields.entries parts (each.imp fun entry _ returns => returns (pathOf entry))

theorem class_returns (cls : Name) (value : Value) (raw : Bytes) (path : Path) (holds : NodeWire) (next : NodeReader)
    (deeper : ∀ node value raw path, holds node value raw → Returns (next node path) value raw)
    (wire : WireClass env cls value raw holds) : Returns (readClass env cls path next) value raw := by
  rw [WireClass] at wire
  rw [readClass]
  cases found : env.lookup cls with
  | none => simp [found] at wire
  | some compiled =>
    rw [found] at wire
    cases compiled with
    | struct fields =>
      obtain ⟨values, rfl, parts, rfl, rfl, each⟩ := wire
      refine returns_last _ _ _ _ _ (fields_return next fields parts _ ?_) (consumes_pure _)
      exact each.imp fun entry part held path => deeper entry.2 part.1 part.2 path held
    | intEnum members =>
      obtain ⟨tag, known, rfl, rfl⟩ := wire
      exact returns_consumed _ _ _ (int_enum_consumes cls members tag known path)
    | borshEnum variants =>
      obtain ⟨variant, tag, values, body, known, rfl, rfl, parts, rfl, rfl, each⟩ := wire
      refine returns_bind _ _ tag _ [tag] _ (returns_consumed _ _ _ (byte_consumes tag path)) ?_
      simp only [known]
      refine returns_last _ _ _ _ _ (fields_return next variant.fields parts _ ?_) (consumes_pure _)
      exact each.imp fun entry part held path => deeper entry.2 part.1 part.2 path held

theorem descend_returns (room : Nat) (run : Nat → NodeReader) (path : Path) (body : NodeReader → Reader Raised Value)
    (value : Value) (raw : Bytes) (inside : ∀ below < room, Returns (body (run below)) value raw) :
    Returns (descend (levelBelow run room) path body) value raw := by
  cases room with
  | zero =>
    intro pos after result cur ran
    cases ran
  | succ below => exact inside below (Nat.lt_succ_self below)

theorem wire_returns (levels room : Nat) (node : Node) (value : Value) (raw : Bytes) (path : Path)
    (wire : Wire env levels node value raw) : Returns (read env room node path) value raw := by
  induction room using Nat.strong_induction_on generalizing levels node value raw path with
  | _ room ih =>
    rw [wire_unfold] at wire
    rw [read_unfold]
    cases node with
    | int width signed =>
      obtain ⟨n, rfl, range, rfl⟩ := wire
      exact returns_consumed _ _ _ (int_consumes width signed n range path)
    | float width =>
      obtain ⟨rfl, rfl, number⟩ := wire
      exact returns_consumed _ _ _ (float_consumes raw number path)
    | bool =>
      obtain ⟨b, rfl, rfl⟩ := wire
      exact returns_consumed _ _ _ (bool_consumes b path)
    | str =>
      obtain ⟨s, rfl, small, rfl⟩ := wire
      exact returns_consumed _ _ _ (str_consumes s small path)
    | bytes =>
      obtain ⟨body, rfl, small, rfl⟩ := wire
      exact returns_consumed _ _ _ (bytes_consumes body small path)
    | fixedBytes n =>
      obtain ⟨rfl, size⟩ := wire
      subst size
      exact returns_consumed _ _ _ (fixed_bytes_consumes raw path)
    | pubkey =>
      obtain ⟨key, rfl, rfl⟩ := wire
      exact returns_consumed _ _ _ (pubkey_consumes key path)
    | option inner =>
      obtain ⟨next, isNext, held⟩ := wire
      obtain ⟨deeper, rfl, rfl⟩ := level_below_some _ levels next isNext
      refine descend_returns room _ path _ value raw fun below less => ?_
      rcases held with ⟨rfl, rfl⟩ | ⟨present, body, rfl, wireInner⟩
      · exact returns_consumed _ _ _ (none_consumes id inner path _)
      · refine returns_bind _ _ 1 _ [1] body (returns_consumed _ _ _ (byte_consumes 1 path)) ?_
        exact returns_last _ _ value _ _ (ih below less deeper inner value body path wireInner) (consumes_pure _)
    | opt inner =>
      obtain ⟨next, isNext, held⟩ := wire
      obtain ⟨deeper, rfl, rfl⟩ := level_below_some _ levels next isNext
      refine descend_returns room _ path _ value raw fun below less => ?_
      rcases held with ⟨rfl, rfl⟩ | ⟨kept, body, rfl, rfl, wireInner⟩
      · exact returns_consumed _ _ _ (none_consumes .opt inner path _)
      · refine returns_bind _ _ 1 _ [1] body (returns_consumed _ _ _ (byte_consumes 1 path)) ?_
        exact returns_last _ _ kept _ _ (ih below less deeper inner kept body path wireInner) (consumes_pure _)
    | vec elem =>
      obtain ⟨next, isNext, items, body, rfl, small, rfl, parts, rfl, rfl, each⟩ := wire
      obtain ⟨deeper, rfl, rfl⟩ := level_below_some _ levels next isNext
      refine descend_returns room _ path _ _ _ fun below less => ?_
      refine returns_bind _ _ _ _ _ _ (seq_len_returns _ path _ small) ?_
      rw [List.length_map]
      exact items_return _ elem parts path fun part inside path => ih below less deeper elem part.1 part.2 path (each part inside)
    | fixedArray elem n =>
      obtain ⟨next, isNext, items, rfl, count, parts, rfl, rfl, each⟩ := wire
      obtain ⟨deeper, rfl, rfl⟩ := level_below_some _ levels next isNext
      have size : n.toNat = parts.length := by
        rw [List.length_map] at count
        omega
      refine descend_returns room _ path _ _ _ fun below less => ?_
      rw [size]
      exact items_return _ elem parts path fun part inside path => ih below less deeper elem part.1 part.2 path (each part inside)
    | ref cls =>
      obtain ⟨next, isNext, wireClass⟩ := wire
      obtain ⟨deeper, rfl, rfl⟩ := level_below_some _ levels next isNext
      refine descend_returns room _ path _ _ _ fun below less => ?_
      exact class_returns env cls value raw path _ _
        (fun node value raw path held => ih below less deeper node value raw path held) wireClass

theorem wire_decoded_iff (levels : Nat) (node : Node) (value : Value) (raw : Bytes)
    (wire : Wire env levels node value raw) :
    decode env raw node .ixData = .ok value ↔ Admits env maxDecodeDepth 0 node value := by
  have emission : Emission env node value raw := fun path =>
    wire_emits env levels node value raw (value.height + 1) path wire (Nat.lt_succ_self _)
  have taken := read_agrees env maxDecodeDepth node value raw [] [] emission 0
  have returns := wire_returns env levels maxDecodeDepth node value raw [] wire 0 []
  rw [List.append_nil, List.length_nil, Nat.zero_add] at taken
  rw [List.append_nil, Nat.zero_add] at returns
  constructor
  · intro decoded
    by_contra refused
    obtain ⟨e, raised⟩ := taken.2 refused
    rw [decode, raised] at decoded
    cases decoded
  · intro admitted
    obtain ⟨result, ran⟩ := taken.1 admitted
    obtain ⟨rfl, _⟩ := returns result _ ran
    rw [decode, ran]
    simp

theorem encoding_accepted_iff (env : Env) (node : Node) (value : Value) (raw : Bytes) (encoded : encode env value node = .ok raw) :
    (∃ result, decode env raw node .ixData = .ok result) ↔ Admits env maxDecodeDepth 0 node value := by
  have emission := (encode_emission env node value raw).mp encoded
  have taken := read_agrees env maxDecodeDepth node value raw [] [] emission 0
  rw [List.append_nil, List.length_nil, Nat.zero_add] at taken
  constructor
  · rintro ⟨result, decoded⟩
    by_contra refused
    obtain ⟨e, raised⟩ := taken.2 refused
    rw [decode, raised] at decoded
    cases decoded
  · intro admitted
    obtain ⟨result, ran⟩ := taken.1 admitted
    refine ⟨result, ?_⟩
    rw [decode, ran]
    simp

def smallTypes : Env := [(['C'], .intEnum [0, 1]), (['U'], .struct ⟨[], List.nodup_nil⟩)]

def nestedOption : Nat → Node
  | 0 => .bool
  | levels + 1 => .option (nestedOption levels)

theorem encoding_accepted_members : encode smallTypes (.list [.int 1, .int 0]) (.vec (.ref ['C'])) = .ok [2, 0, 0, 0, 1, 0] ∧
    ∃ result, decode smallTypes [2, 0, 0, 0, 1, 0] (.vec (.ref ['C'])) .ixData = .ok result := by
  have encoded : encode smallTypes (.list [.int 1, .int 0]) (.vec (.ref ['C'])) = .ok [2, 0, 0, 0, 1, 0] := rfl
  refine ⟨encoded, (encoding_accepted_iff _ _ _ _ encoded).mpr ⟨_, rfl, ?_, ?_, ?_, trivial⟩⟩
  · decide
  · exact ⟨_, rfl, 1, by simp, rfl⟩
  · exact ⟨_, rfl, 0, by simp, rfl⟩

theorem nested_encoded (levels : Nat) :
    encode env (.bool true) (nestedOption levels) = .ok (List.replicate (levels + 1) 1) := by
  rw [encode_emission]
  induction levels with
  | zero =>
    intro path
    rw [emit_unfold]
    exact append_emits [1]
  | succ levels ih =>
    intro path
    rw [emit_unfold, nestedOption, List.replicate_succ]
    refine emits_bind (append [1]) _ [1] _ (append_emits [1]) ?_
    rw [emit_node]
    exact ih path

theorem nested_refused (room pos : Nat) (path : Path) (rest : Bytes) :
    ∃ e, read env room (nestedOption (room + 1)) path ⟨pos, List.replicate (room + 1) 1 ++ rest⟩ = .error e := by
  induction room generalizing pos with
  | zero => exact ⟨_, rfl⟩
  | succ room ih =>
    obtain ⟨e, raised⟩ := ih (pos + 1)
    have taken := byte_consumes 1 path pos (List.replicate (room + 1) 1 ++ rest)
    refine ⟨e, ?_⟩
    change readOption id (nestedOption (room + 1)) path (read env room) ⟨pos, [1] ++ (List.replicate (room + 1) 1 ++ rest)⟩ = _
    rw [readOption, run_bind, taken]
    simp only
    rw [if_neg (by decide), if_true, run_bind, List.length_singleton, raised]

theorem encoding_refused :
    (encode smallTypes (.int 5) (.ref ['C']) = .ok [5] ∧ ∃ e, decode smallTypes [5] (.ref ['C']) .ixData = .error e) ∧
    (encode smallTypes (.list [.object (.plain ['U']) [] []]) (.vec (.ref ['U'])) = .ok [1, 0, 0, 0] ∧
      ∃ e, decode smallTypes [1, 0, 0, 0] (.vec (.ref ['U'])) .ixData = .error e) ∧
    (encode [] (.bool true) (nestedOption 65) = .ok (List.replicate 66 1) ∧
      ∃ e, decode [] (List.replicate 66 1) (nestedOption 65) .ixData = .error e) := by
  refine ⟨⟨rfl, _, rfl⟩, ⟨rfl, _, rfl⟩, nested_encoded [] 65, ?_⟩
  obtain ⟨e, raised⟩ := nested_refused [] 64 0 [] [1]
  have split : (List.replicate 66 1 : Bytes) = List.replicate (64 + 1) 1 ++ [1] := List.replicate_succ'
  refine ⟨e, ?_⟩
  rw [decode, maxDecodeDepth, split, raised]

end WakeSol.Codec
