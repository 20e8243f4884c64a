import WakeSol.Gen.Canonical

set_option autoImplicit false

namespace WakeSol.Gen

open TextLib RadixLib DictLib FallibleLib Codec WireLib Interface

def Rooted (borshMeta : Option BorshMeta) : Prop :=
  ∀ found, borshMeta = some found → found.isAccountRoot = true ∨ found.kind = .event

def EmittedBody.rooted : EmittedBody → Prop
  | .struct _ borshMeta => Rooted borshMeta
  | _ => True

theorem typedef_meta (python : Python) (tdef : TypeDef) (borshMeta found : Option BorshMeta) (name : Name)
    (lines : List (Name × AnnSrc)) (emitted : emitTypedef python tdef borshMeta = .ok ⟨name, .struct lines found⟩) :
    found = borshMeta := by
  obtain ⟨own, tbody, serialization⟩ := tdef
  unfold emitTypedef at emitted
  by_cases foreign : serialization ≠ borshName
  · rw [if_pos foreign] at emitted
    cases emitted
  · rw [if_neg foreign] at emitted
    cases tbody with
    | struct fields =>
      obtain ⟨body, ran, same⟩ := map_ok _ _ _ emitted
      cases same
      obtain ⟨_, _, same⟩ := map_ok _ _ _ ran
      cases same
      rfl
    | enum variants =>
      cases borshMeta with
      | some given => cases emitted
      | none =>
        obtain ⟨body, ran, same⟩ := map_ok _ _ _ emitted
        cases same
        unfold emitEnum at ran
        split at ran
        · cases ran
        · obtain ⟨_, _, same⟩ := map_ok _ _ _ ran
          cases same

theorem typedef_rooted (python : Python) (tdef : TypeDef) (borshMeta : Option BorshMeta) (cls : EmittedClass)
    (isRooted : Rooted borshMeta) (emitted : emitTypedef python tdef borshMeta = .ok cls) : cls.body.rooted := by
  obtain ⟨name, body⟩ := cls
  cases body with
  | struct lines found =>
    rw [← typedef_meta python tdef borshMeta found name lines emitted] at isRooted
    exact isRooted
  | intEnum members => trivial
  | borshEnum variants => trivial

theorem root_rooted (python : Python) (idl : Idl) (borshMeta : Root → BorshMeta) (root : Root) (cls : EmittedClass)
    (isRooted : Rooted (some (borshMeta root))) (emitted : emitRoot python idl borshMeta root = .ok cls) : cls.body.rooted := by
  unfold emitRoot at emitted
  split at emitted
  · cases emitted
  · exact typedef_rooted python _ _ cls isRooted emitted

theorem module_rooted (python : Python) (idl : Idl) (module : Module) (emitted : emitModule python idl = .ok module) :
    ∀ cls ∈ module.classes, cls.body.rooted := by
  intro cls inside
  rcases module_class_source python idl module emitted cls inside with ⟨tdef, ran⟩ | ⟨root, ran⟩ | ⟨root, ran⟩
  · exact typedef_rooted python tdef none cls (fun _ found => by cases found) ran
  · exact root_rooted python idl accountMeta root cls (fun _ found => by cases found; exact .inl rfl) ran
  · exact root_rooted python idl eventMeta root cls (fun _ found => by cases found; exact .inr rfl) ran

theorem table_rooted (python : Python) (module : Module) (table : Table) (rooted : ∀ cls ∈ module.classes, cls.body.rooted)
    (loaded : loadModule python module = .ok table) (cls : Name) (hints : Except Raised AnnFields) (borshMeta : Option BorshMeta)
    (found : table.lookup cls = some (.dataclass hints borshMeta)) : Rooted borshMeta := by
  obtain ⟨⟨name, body⟩, isEmitted, _, loadsClass⟩ := table_class python module table loaded cls _ found
  have isRooted := rooted _ isEmitted
  cases body with
  | struct lines found =>
    simp only [loadClass] at loadsClass
    split_ifs at loadsClass
    cases loadsClass
    exact isRooted
  | intEnum members =>
    simp only [loadClass] at loadsClass
    split_ifs at loadsClass
    all_goals cases loadsClass
  | borshEnum variants =>
    simp only [loadClass] at loadsClass
    split_ifs at loadsClass
    all_goals cases loadsClass

theorem codec_round_trip (python : Python) (t : Emitted python) :
    (∀ value, Typed t.env maxDecodeDepth t.node value →
      (roundTrip t.env t.node value = .ok value ↔ value.tagsFit = true)) ∧
    (∀ cls hints borshMeta env value withDiscriminator extra,
      t.table.lookup cls = some (.dataclass hints (some borshMeta)) → compileRefs t.table cls t.before = .ok ((), env) →
      Typed env maxDecodeDepth (.ref cls) value → (borshMeta.isAccountRoot = true ∨ extra = []) →
      (structRoundTrip t.table cls value withDiscriminator extra t.before = .ok (value, env) ↔
        value.tagsFit = true ∧ encodeName ∉ value.attrs)) := by
  refine ⟨fun value typed => round_trip_iff t.env t.node value typed, ?_⟩
  intro cls hints borshMeta env value withDiscriminator extra found compiled typed allowed
  have rooted := table_rooted python t.module t.table (module_rooted python _ t.module t.emits) t.loads cls hints _ found
  exact struct_round_trip_iff t.table t.before env cls hints borshMeta t.started found (rooted borshMeta rfl) compiled value
    typed withDiscriminator extra allowed

def wideName : Name := ['W', 'i', 'd', 'e']

def wideVariants (n : Nat) : List (Name × List Field) := (List.range n).map fun i => (List.replicate (i + 1) 'V', [])

def wideDoc (n : Nat) : Doc where
  name := ['w', 'i', 'd', 'e']
  address := []
  types := [{ name := wideName, body := .enum ((List.range n).map fun i => (List.replicate (i + 1) 'V', [])) }]

def wideMembers (n : Nat) : List (Name × Nat) := (List.range n).map fun i => (List.replicate (i + 1) 'V', i)

def wideModule (n : Nat) : Module := ⟨[⟨wideName, .intEnum (wideMembers n)⟩], [], []⟩

theorem wide_enum (n : Nat) : emitEnum plainPython (wideVariants n) = .ok (.intEnum (wideMembers n)) := by
  have unit : (wideVariants n).all (fun variant => variant.2.isEmpty) = true := by simp [wideVariants]
  rw [emitEnum, if_pos unit]
  congr 2
  refine List.ext_getElem (by simp [wideMembers, wideVariants]) fun i left right => ?_
  simp [wideMembers, wideVariants]

theorem wide_emits (n : Nat) : emitModule plainPython (loadIdl plainPython (wideDoc n)) = .ok (wideModule n) := by
  have types : plainTypes (loadIdl plainPython (wideDoc n)) = [⟨wideName, .enum (wideVariants n), borshName⟩] := by
    simp [plainTypes, loadIdl, wideDoc, wideVariants, addInline, typedef, normBody, serializationOf, Function.comp_def]
  have cls : emitTypedef plainPython ⟨wideName, .enum (wideVariants n), borshName⟩ none =
      .ok ⟨wideName, .intEnum (wideMembers n)⟩ := by
    simp [emitTypedef, wide_enum]
  rw [emitModule, types]
  simp only [List.mapM_cons, cls]
  rfl

theorem wide_loads (n : Nat) (inhabited : 0 < n) :
    loadModule plainPython (wideModule n) = .ok [(wideName, .intEnum (List.range n))] := by
  have distinct : ((wideMembers n).map fun member => plainPython.spelled wideName member.1).Nodup := by
    have names : ((wideMembers n).map fun member => plainPython.spelled wideName member.1) =
        (List.range n).map fun i => List.replicate (i + 1) 'V' := by
      simp [wideMembers, plainPython]
    rw [names]
    refine List.nodup_range.map fun i j same => ?_
    simpa using congrArg List.length same
  have nonempty : wideMembers n ≠ [] := by
    simp only [wideMembers, ne_eq, List.map_eq_nil_iff, List.range_eq_nil]
    omega
  have numbers : (wideMembers n).map Prod.snd = List.range n := by simp [wideMembers, Function.comp_def]
  simp only [loadModule, wideModule, List.mapM_cons, loadClass, if_neg nonempty, if_pos distinct, numbers]
  rfl

def wideType (n : Nat) (inhabited : 0 < n) : Emitted plainPython where
  doc := wideDoc n
  module := wideModule n
  table := [(wideName, .intEnum (List.range n))]
  emits := wide_emits n
  loads := wide_loads n inhabited
  raw := .definedLegacy wideName
  src := .name wideName
  ann := .cls wideName
  maps := rfl
  evaluates := rfl
  place := []
  before := []
  env := [(wideName, .intEnum (List.range n))]
  node := .ref wideName
  started := grown_refl _ [] []
  compiles := rfl

theorem wide_typed (n i : Nat) (inhabited : 0 < n) (inside : i < n) :
    Typed (wideType n inhabited).env maxDecodeDepth (.ref wideName) (.member wideName i) :=
  ⟨_, rfl, i, List.mem_range.mpr inside, rfl⟩

def boxName : Name := ['B', 'o', 'x']

def boxDoc (field : Name) : Doc where
  name := ['b', 'o', 'x']
  address := []
  types := [{ name := boxName, body := .struct [.named field (.scalar u8Name)] }]
  accounts := [{ name := boxName, discriminator := some [7] }]

def boxMeta : BorshMeta := ⟨.account, true, [7]⟩

def boxHints (field : Name) : AnnFields := ⟨[(mangle field, .intAlias 1 false)], by simp⟩

def boxFields (field : Name) : Fields := (boxHints field).compiled [.int 1 false]

def boxModule (field : Name) : Module := ⟨[⟨boxName, .struct [(mangle field, .name u8Name)] (some boxMeta)⟩], [], []⟩

theorem box_loads (field : Name) :
    loadModule plainPython (boxModule field) = .ok [(boxName, .dataclass (.ok (boxHints field)) (some boxMeta))] := by
  have last : defaultsLast [mangle field] = true := by
    by_cases inherited : mangle field ∈ inheritedNames
    · simp [defaultsLast, inherited]
    · simp [defaultsLast, inherited]
  have loads : loadClass plainPython (boxModule field).scope ⟨boxName, .struct [(mangle field, .name u8Name)] (some boxMeta)⟩ =
      .ok (.dataclass (.ok (boxHints field)) (some boxMeta)) := if_pos last
  rw [loadModule, boxModule, List.mapM_cons, List.mapM_nil, ← boxModule, loads]
  rfl

def boxType (field : Name) : Emitted plainPython where
  doc := boxDoc field
  module := boxModule field
  table := [(boxName, .dataclass (.ok (boxHints field)) (some boxMeta))]
  emits := rfl
  loads := box_loads field
  raw := .definedLegacy boxName
  src := .name boxName
  ann := .cls boxName
  maps := rfl
  evaluates := rfl
  place := []
  before := []
  env := [(boxName, .struct (boxFields field))]
  node := .ref boxName
  started := grown_refl _ [] []
  compiles := rfl

def boxValue (field : Name) (n : Int) : Value := .object (.plain boxName) [mangle field] [.int n]

theorem box_typed (field : Name) (n : Int) (range : EndianLib.InRange 1 false n) :
    Typed (boxType field).env maxDecodeDepth (.ref boxName) (boxValue field n) :=
  ⟨_, rfl, [.int n], rfl, .cons ⟨n, rfl, range⟩ .nil⟩

theorem round_trip_small : roundTrip (wideType 2 (by decide)).env (.ref wideName) (.member wideName 1) = .ok (.member wideName 1) ∧
    structRoundTrip (boxType ['n']).table boxName (boxValue ['n'] 5) true [0, 0] [] =
      .ok (boxValue ['n'] 5, (boxType ['n']).env) := by
  constructor
  · exact ((codec_round_trip plainPython (wideType 2 (by decide))).1 _ (wide_typed 2 1 (by decide) (by decide))).mpr rfl
  · exact ((codec_round_trip plainPython (boxType ['n'])).2 boxName _ boxMeta _ _ true [0, 0] rfl rfl
      (box_typed ['n'] 5 (by decide)) (.inl rfl)).mpr (by decide)

-- The generator accepts 257 unit variants, and the last one has no encoding; it
-- accepts a field called encode, which hides the method.
theorem round_trip_lost :
    (Typed (wideType 257 (by decide)).env maxDecodeDepth (wideType 257 (by decide)).node (.member wideName 256) ∧
      roundTrip (wideType 257 (by decide)).env (wideType 257 (by decide)).node (.member wideName 256) = .error .overflowError) ∧
    (Typed (boxType encodeName).env maxDecodeDepth (boxType encodeName).node (boxValue encodeName 5) ∧
      structRoundTrip (boxType encodeName).table boxName (boxValue encodeName 5) true [] [] = .error .typeError) := by
  refine ⟨⟨wide_typed 257 256 (by decide) (by decide), rfl⟩, ⟨box_typed encodeName 5 (by decide), rfl⟩⟩

end WakeSol.Gen
