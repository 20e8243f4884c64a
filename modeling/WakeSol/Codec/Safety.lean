import WakeSol.Codec.Cache
import WakeSol.Codec.Machine

/- The decoder is safe on any bytes. Its run on the machine does what the reader
   on the remaining bytes does and leaves a trail, by one rule for each way of
   putting readers together. -/
set_option autoImplicit false

namespace WakeSol.Codec

open TextLib RadixLib EndianLib WireLib DictLib

theorem machine_bind {α β : Type} (first : Run α) (next : α → Run β) (m : Machine) : (first >>= next) m =
    match first m with
    | none => none
    | some (.ok value, after) => next value after
    | some (.error e, after) => some (.error e, after) := by
  change (StateT.bind first (ExceptT.bindCont next)) m = _
  simp only [StateT.bind]
  cases first m with
  | none => rfl
  | some pair =>
    obtain ⟨result, after⟩ := pair
    cases result <;> rfl

def Ends {α : Type} (before : Machine) (ran : Option (Except Raised α × Machine)) : Except Raised (α × Cursor) → Prop
  | .ok (value, cur) => ∃ moves, ran = some (.ok value, ⟨before.buf, cur.pos, before.depth, before.moves ++ moves⟩) ∧
      cur.rest = before.buf.drop cur.pos ∧ Trail before.buf.length before.pos moves cur.pos
  | .error e => ∃ stop depth moves, ran = some (.error e, ⟨before.buf, stop, depth, before.moves ++ moves⟩) ∧
      Trail before.buf.length before.pos moves stop

def Follows {α : Type} (depth : Nat) (run : Run α) (reader : Reader Raised α) : Prop :=
  ∀ m : Machine, m.depth = depth → m.pos ≤ m.buf.length → Ends m (run m) (reader ⟨m.pos, m.buf.drop m.pos⟩)

theorem follows_pure {α : Type} (depth : Nat) (value : α) : Follows depth (pure value) (pure value) := by
  intro m _ bounded
  exact ⟨[], by rw [List.append_nil]; rfl, rfl, rfl, bounded⟩

theorem follows_bind {α β : Type} (depth : Nat) (first : Run α) (next : α → Run β) (reader : Reader Raised α)
    (later : α → Reader Raised β) (followsFirst : Follows depth first reader)
    (followsNext : ∀ value, Follows depth (next value) (later value)) : Follows depth (first >>= next) (reader >>= later) := by
  intro m level bounded
  have here := followsFirst m level bounded
  rw [machine_bind, run_bind]
  cases result : reader ⟨m.pos, m.buf.drop m.pos⟩ with
  | error e =>
    rw [result] at here
    obtain ⟨stop, below, moves, ran, trail⟩ := here
    rw [ran]
    exact ⟨stop, below, moves, rfl, trail⟩
  | ok pair =>
    obtain ⟨value, cur⟩ := pair
    rw [result] at here
    obtain ⟨moves, ran, rest, trail⟩ := here
    rw [ran]
    have after := followsNext value ⟨m.buf, cur.pos, m.depth, m.moves ++ moves⟩ level (trail_end _ _ _ _ trail).2
    simp only at after ⊢
    have same : cur = ⟨cur.pos, m.buf.drop cur.pos⟩ := by rw [← rest]
    rw [same]
    cases ended : later value ⟨cur.pos, m.buf.drop cur.pos⟩ with
    | error e =>
      rw [ended] at after
      obtain ⟨stop, below, more, ranNext, trailNext⟩ := after
      exact ⟨stop, below, moves ++ more, by rw [ranNext, List.append_assoc], trail_append _ _ _ _ _ _ trail trailNext⟩
    | ok pair =>
      rw [ended] at after
      obtain ⟨more, ranNext, restNext, trailNext⟩ := after
      exact ⟨moves ++ more, by rw [ranNext, List.append_assoc], restNext, trail_append _ _ _ _ _ _ trail trailNext⟩

theorem follows_map_m {α ι : Type} (depth : Nat) (run : ι → Run α) (reader : ι → Reader Raised α) (items : List ι)
    (each : ∀ item ∈ items, Follows depth (run item) (reader item)) :
    Follows depth (items.mapM run) (items.mapM reader) := by
  induction items with
  | nil => exact follows_pure depth []
  | cons item others ih =>
    rw [List.mapM_cons, List.mapM_cons]
    refine follows_bind depth _ _ _ _ (each item (by simp)) fun value => ?_
    refine follows_bind depth _ _ _ _ (ih fun other inside => each other (by simp [inside])) fun values => ?_
    exact follows_pure depth _

theorem follows_throw {α : Type} (depth : Nat) (e : Raised) : Follows (α := α) depth (throw e) (throw e) := by
  intro m _ bounded
  exact ⟨m.pos, m.depth, [], by rw [List.append_nil]; rfl, rfl, bounded⟩

theorem follows_refuse {α : Type} (depth : Nat) (complaint : Complaint) (back : Nat) (path : Path) :
    Follows (α := α) depth (runRefuse complaint back path) (refuse complaint back path) := by
  intro m _ bounded
  exact ⟨m.pos, m.depth, [], by rw [List.append_nil]; rfl, rfl, bounded⟩

variable (depth : Nat) (n : Int) (path : Path)

theorem follows_take : Follows depth (runTake n path) (take n path) := by
  intro m _ bounded
  have left : m.remaining = (m.buf.drop m.pos).length := by
    rw [Machine.remaining, List.length_drop]
    omega
  rw [runTake, take, left]
  by_cases outside : n < 0 ∨ n > (m.buf.drop m.pos).length
  · rw [if_pos outside, if_pos outside]
    exact ⟨m.pos, m.depth, [], by simp, rfl, bounded⟩
  · rw [if_neg outside, if_neg outside]
    rw [List.length_drop] at outside
    have inside : m.pos + n.toNat ≤ m.buf.length := by omega
    exact ⟨[.took m.pos n.toNat], rfl, List.drop_drop, rfl, inside, rfl, inside⟩

theorem follows_byte : Follows depth (runByte path) (takeByte path) :=
  follows_bind depth _ _ _ _ (follows_take depth 1 path) fun _ => follows_pure depth _

theorem follows_count (depth n : Nat) (minElem : Int) (path : Path) :
    Follows depth
      (do
        let left ← runRemaining
        if n > left then runRefuse (.lengthExceeds n left) 4 path
        else if 0 < minElem ∧ (n : Int) > left / minElem then runRefuse (.lengthExceedsFloor n left minElem) 4 path
        else
          record (.counted n left)
          return n)
      (do
        let left ← remaining
        if n > left then refuse (.lengthExceeds n left) 4 path
        else if 0 < minElem ∧ (n : Int) > left / minElem then refuse (.lengthExceedsFloor n left minElem) 4 path
        else return n) := by
  intro m level bounded
  have left : m.remaining.toNat = (m.buf.drop m.pos).length := by
    rw [Machine.remaining, List.length_drop]
    omega
  rw [machine_bind, run_bind]
  simp only [runRemaining, remaining, left]
  by_cases beyond : n > (m.buf.drop m.pos).length
  · rw [if_pos beyond, if_pos beyond]
    exact follows_refuse depth _ 4 path m level bounded
  · rw [if_neg beyond, if_neg beyond]
    by_cases floor : 0 < minElem ∧ (n : Int) > (m.buf.drop m.pos).length / minElem
    · rw [if_pos floor, if_pos floor]
      exact follows_refuse depth _ 4 path m level bounded
    · rw [if_neg floor, if_neg floor]
      exact ⟨[.counted n (m.buf.drop m.pos).length], rfl, rfl, List.length_drop, by omega, rfl, bounded⟩

theorem follows_seq_len (minElem : Int) (path : Path) :
    Follows depth (runSeqLen minElem path) (readSeqLen minElem path) :=
  follows_bind depth _ _ _ _ (follows_take depth 4 path) fun raw => follows_count depth (leNat raw) minElem path

theorem follows_descend (body : Run Value) (reader : Reader Raised Value)
    (low : depth < maxDecodeDepth) (follows : Follows (depth + 1) body reader) :
    Follows depth (runDescend path body) reader := by
  intro m level bounded
  have here := follows { m with depth := m.depth + 1, moves := m.moves ++ [.entered (m.depth + 1)] }
    (by rw [level]) bounded
  simp only at here
  rw [runDescend, if_neg (by omega)]
  cases result : reader ⟨m.pos, m.buf.drop m.pos⟩ with
  | error e =>
    rw [result] at here
    obtain ⟨stop, below, moves, ran, trail⟩ := here
    rw [ran]
    refine ⟨stop, below - 1, .entered (m.depth + 1) :: moves, by simp, ?_, trail⟩
    omega
  | ok pair =>
    rw [result] at here
    obtain ⟨moves, ran, rest, trail⟩ := here
    rw [ran]
    refine ⟨.entered (m.depth + 1) :: moves, by simp, rest, ?_, trail⟩
    omega

theorem follows_too_deep (body : Run Value) (full : maxDecodeDepth ≤ depth) :
    Follows depth (runDescend path body) (refuse (.tooDeep maxDecodeDepth) 0 path) := by
  intro m level bounded
  rw [runDescend, if_pos (by omega)]
  exact ⟨m.pos, m.depth + 1, [], by rw [List.append_nil]; rfl, rfl, bounded⟩

theorem follows_int (depth width : Nat) (signed : Bool) (path : Path) :
    Follows depth (runInt width signed path) (readInt width signed path) :=
  follows_bind depth _ _ _ _ (follows_take depth width path) fun _ => follows_pure depth _

theorem follows_float (depth width : Nat) (path : Path) : Follows depth (runFloat width path) (readFloat width path) := by
  refine follows_bind depth _ _ _ _ (follows_take depth width path) fun bits => ?_
  split
  · exact follows_refuse depth _ _ path
  · exact follows_pure depth _

theorem follows_bool : Follows depth (runBool path) (readBool path) := by
  refine follows_bind depth _ _ _ _ (follows_byte depth path) fun byte => ?_
  split
  · exact follows_pure depth _
  · exact follows_refuse depth _ _ path

theorem follows_str : Follows depth (runStr path) (readStr path) := by
  refine follows_bind depth _ _ _ _ (follows_seq_len depth 1 path) fun n => ?_
  refine follows_bind depth _ _ _ _ (follows_take depth n path) fun raw => ?_
  cases utf8Decode raw with
  | none => exact follows_refuse depth _ _ path
  | some s => exact follows_pure depth _

theorem follows_bytes : Follows depth (runBytes path) (readBytes path) := by
  refine follows_bind depth _ _ _ _ (follows_seq_len depth 1 path) fun n => ?_
  exact follows_bind depth _ _ _ _ (follows_take depth n path) fun _ => follows_pure depth _

theorem follows_fixed_bytes : Follows depth (runFixedBytes n path) (readFixedBytes n path) :=
  follows_bind depth _ _ _ _ (follows_take depth n path) fun _ => follows_pure depth _

theorem follows_pubkey : Follows depth (runPubkey path) (readPubkey path) := by
  refine follows_bind depth _ _ _ _ (follows_take depth 32 path) fun raw => ?_
  unfold pubkeyFrom
  cases addressOf raw with
  | error e => exact follows_throw depth e
  | ok key => exact follows_pure depth _

def Below (depth : Nat) (next : NodeRun) (reader : NodeReader) : Prop :=
  ∀ node path, Follows depth (next node path) (reader node path)

theorem follows_option (wrap : Value → Value) (inner : Node) (path : Path) (next : NodeRun) (reader : NodeReader)
    (below : Below depth next reader) : Follows depth (runOption wrap inner path next) (readOption wrap inner path reader) := by
  refine follows_bind depth _ _ _ _ (follows_byte depth path) fun tag => ?_
  split
  · exact follows_pure depth _
  · split
    · exact follows_bind depth _ _ _ _ (below inner path) fun _ => follows_pure depth _
    · exact follows_refuse depth _ _ path

theorem follows_items (elem : Node) (n : Nat) (path : Path) (next : NodeRun) (reader : NodeReader)
    (below : Below depth next reader) : Follows depth (runItems elem n path next) (readItems elem n path reader) :=
  follows_bind depth _ _ _ _ (follows_map_m depth _ _ _ fun _ _ => below elem _) fun _ => follows_pure depth _

theorem follows_vec (minElem : Int) (elem : Node) (path : Path) (next : NodeRun) (reader : NodeReader)
    (below : Below depth next reader) :
    Follows depth (runVec (some minElem) elem path next) (readVec minElem elem path reader) :=
  follows_bind depth _ _ _ _ (follows_seq_len depth minElem path) fun n => follows_items depth elem n path next reader below

variable (env : Env)

theorem follows_class (cls : Name) (path : Path) (next : NodeRun) (reader : NodeReader)
    (below : Below depth next reader) : Follows depth (runClass env cls path next) (readClass env cls path reader) := by
  rw [runClass, readClass]
  cases env.lookup cls with
  | none => exact follows_throw depth .keyError
  | some compiled =>
    cases compiled with
    | struct fields =>
      refine follows_bind depth _ _ _ _ (follows_map_m depth _ _ _ fun entry _ => below entry.2 _) fun _ => ?_
      exact follows_pure depth _
    | intEnum members =>
      refine follows_bind depth _ _ _ _ (follows_byte depth path) fun tag => ?_
      split
      · exact follows_pure depth _
      · exact follows_refuse depth _ _ path
    | borshEnum variants =>
      refine follows_bind depth _ _ _ _ (follows_byte depth path) fun tag => ?_
      cases variants.find tag.toNat with
      | none => exact follows_refuse depth _ _ path
      | some variant =>
        refine follows_bind depth _ _ _ _ (follows_map_m depth _ _ _ fun entry _ => below entry.2 _) fun _ => ?_
        exact follows_pure depth _

def unmeasured (env : Env) (stack : List Node) : List Name :=
  (env.map Prod.fst).filter fun cls => decide (Node.ref cls ∉ stack)

theorem unmeasured_le (stack more : List Node) :
    (unmeasured env (stack ++ more)).length ≤ (unmeasured env stack).length := by
  refine (List.monotone_filter_right _ fun cls outside => ?_).length_le
  rw [decide_eq_true_eq, List.mem_append, not_or] at outside
  exact decide_eq_true outside.1

theorem unmeasured_lt (stack : List Node) (cls : Name) (compiled : ClassNode)
    (found : env.lookup cls = some compiled) (outside : Node.ref cls ∉ stack) :
    (unmeasured env (stack ++ [.ref cls])).length < (unmeasured env stack).length := by
  have smaller : unmeasured env (stack ++ [.ref cls]) = (unmeasured env stack).filter fun other => other ≠ cls := by
    simp only [unmeasured, List.filter_filter]
    refine List.filter_congr fun other _ => ?_
    rw [← Bool.decide_and, decide_eq_decide, List.mem_append, List.mem_singleton, Node.ref.injEq]
    tauto
  rw [smaller]
  refine List.length_filter_lt_length_iff_exists.mpr ⟨cls, List.mem_filter.mpr ⟨?_, decide_eq_true outside⟩, by simp⟩
  exact List.mem_map.mpr ⟨(cls, compiled), lookup_mem env cls compiled found, rfl⟩

theorem map_m_some {α β : Type} (run : α → Option β) (value : α → β) (items : List α)
    (each : ∀ item ∈ items, run item = some (value item)) : items.mapM run = some (items.map value) := by
  induction items with
  | nil => rfl
  | cons item others ih =>
    rw [List.mapM_cons, each item (by simp), ih fun other inside => each other (by simp [inside])]
    rfl

theorem min_node_ends (minRef : List Node → Name → Option Int) (known : List Node → Name → Int) (node : Node) (stack : List Node)
    (refs : ∀ more cls, minRef (stack ++ more) cls = some (known (stack ++ more) cls)) :
    runMinNode minRef node stack = some (minNode known node stack) := by
  induction node generalizing stack with
  | fixedArray elem n ih =>
    rw [runMinNode, minNode]
    by_cases again : Node.fixedArray elem n ∈ stack
    · rw [if_pos again, if_pos again]
    · have inner := ih (stack ++ [.fixedArray elem n]) fun more cls => by
        rw [List.append_assoc]
        exact refs _ cls
      rw [if_neg again, if_neg again, inner]
      rfl
  | ref cls =>
    have here := refs [] cls
    rwa [List.append_nil] at here
  | _ => rfl

theorem min_fields_ends (next : Node → List Node → Option Int) (known : Node → List Node → Int) (fields : Fields)
    (stack : List Node) (each : ∀ node, next node stack = some (known node stack)) :
    runMinFields next stack fields = some (minFields known fields stack) := by
  rw [runMinFields, map_m_some _ (fun node => known node stack) fields.nodes fun node _ => each node]
  rfl

theorem min_class_ends (next : Node → List Node → Option Int) (known : Node → List Node → Int) (stack : List Node)
    (cls : Name) (each : ∀ compiled, env.lookup cls = some compiled → Node.ref cls ∉ stack →
      ∀ node, next node (stack ++ [.ref cls]) = some (known node (stack ++ [.ref cls]))) :
    runMinClass env next stack cls = some (minClass env known stack cls) := by
  rw [runMinClass, minClass]
  cases found : env.lookup cls with
  | none => rfl
  | some compiled =>
    cases compiled with
    | intEnum members => rfl
    | struct fields =>
      simp only
      by_cases again : Node.ref cls ∈ stack
      · rw [if_pos again, if_pos again]
      · rw [if_neg again, if_neg again]
        exact min_fields_ends next known fields _ (each _ found again)
    | borshEnum variants =>
      simp only
      by_cases again : Node.ref cls ∈ stack
      · rw [if_pos again, if_pos again]
      · rw [if_neg again, if_neg again, map_m_some _
          (fun variant => minFields known variant.fields (stack ++ [.ref cls])) variants.entries fun variant _ =>
            min_fields_ends next known variant.fields _ (each _ found again)]
        rfl

-- Each class is entered once, so that fuel for the classes off the stack is enough.
theorem run_min_ends (fuel more : Nat) (node : Node) (stack : List Node)
    (enough : (unmeasured env stack).length < fuel) (enoughMore : (unmeasured env stack).length < more) :
    runMin env fuel node stack = some (minWire env more node stack) := by
  induction fuel generalizing more node stack with
  | zero => omega
  | succ fuel ih =>
    cases more with
    | zero => omega
    | succ more =>
      refine min_node_ends _ _ node stack fun extra cls => ?_
      have fewer := unmeasured_le env stack extra
      refine min_class_ends env _ _ _ cls fun compiled found outside node => ?_
      have strictly := unmeasured_lt env (stack ++ extra) cls compiled found outside
      exact ih more node _ (by omega) (by omega)

theorem min_wire_ends (fuel : Nat) (node : Node) (enough : env.length < fuel) :
    runMin env fuel node [] = some (minWireSize env node) := by
  have all : (unmeasured env []).length ≤ env.length := by
    have shorter := List.length_filter_le (fun cls => decide (Node.ref cls ∉ ([] : List Node))) (env.map Prod.fst)
    rwa [List.length_map] at shorter
  exact run_min_ends env fuel (env.length + 1) node [] (by omega) (by omega)

theorem read_follows (fuel room depth : Nat) (budget : depth + room = maxDecodeDepth)
    (enough : room + env.length < fuel) : Below depth (runRead env fuel) (read env room) := by
  induction fuel generalizing room depth with
  | zero => omega
  | succ fuel ih =>
    intro node path
    have composite : ∀ (body : NodeRun → Run Value) (reader : NodeReader → Reader Raised Value),
        (∀ next below, 0 < room → Below (depth + 1) next below → Follows (depth + 1) (body next) (reader below)) →
        Follows depth (runDescend path (body (runRead env fuel))) (descend (levelBelow (read env) room) path reader) := by
      intro body reader inside
      cases room with
      | zero => exact follows_too_deep depth path _ (by omega)
      | succ room =>
        exact follows_descend depth path _ _ (by omega)
          (inside _ _ (by omega) (ih room (depth + 1) (by omega) (by omega)))
    rw [read_unfold]
    cases node with
    | int width signed => exact follows_int depth width signed path
    | float width => exact follows_float depth width path
    | bool => exact follows_bool depth path
    | str => exact follows_str depth path
    | bytes => exact follows_bytes depth path
    | fixedBytes n => exact follows_fixed_bytes depth n path
    | pubkey => exact follows_pubkey depth path
    | option inner => exact composite _ _ fun next below _ agree => follows_option _ id inner path next below agree
    | opt inner => exact composite _ _ fun next below _ agree => follows_option _ .opt inner path next below agree
    | vec elem =>
      refine composite (fun next => runVec (runMin env fuel elem []) elem path next) _ fun next below left agree => ?_
      rw [min_wire_ends env fuel elem (by omega)]
      exact follows_vec _ (minWireSize env elem) elem path next below agree
    | fixedArray elem n => exact composite _ _ fun next below _ agree => follows_items _ elem n.toNat path next below agree
    | ref cls => exact composite _ _ fun next below _ agree => follows_class _ env cls path next below agree

def OnlyBorsh {α : Type} (reader : Reader Raised α) : Prop :=
  ∀ cur e, reader cur = .error e → ∃ complaint offset path, e = .borshError complaint offset path

theorem borsh_pure {α : Type} (value : α) : OnlyBorsh (pure value) := by
  intro cur e raised
  cases raised

theorem borsh_refuse {α : Type} (complaint : Complaint) (back : Nat) (path : Path) :
    OnlyBorsh (refuse (α := α) complaint back path) := by
  intro cur e raised
  cases raised
  exact ⟨_, _, _, rfl⟩

theorem borsh_take : OnlyBorsh (take n path) := by
  intro cur e raised
  rw [take] at raised
  split at raised
  · cases raised
    exact ⟨_, _, _, rfl⟩
  · cases raised

theorem borsh_bind {α β : Type} (first : Reader Raised α) (next : α → Reader Raised β) (only : OnlyBorsh first)
    (onlyNext : ∀ value, OnlyBorsh (next value)) : OnlyBorsh (first >>= next) := by
  intro cur e raised
  rw [run_bind] at raised
  cases result : first cur with
  | error other =>
    rw [result] at raised
    cases raised
    exact only cur e result
  | ok pair =>
    rw [result] at raised
    exact onlyNext pair.1 pair.2 e raised

theorem borsh_map_m {α ι : Type} (reader : ι → Reader Raised α) (items : List ι)
    (each : ∀ item ∈ items, OnlyBorsh (reader item)) : OnlyBorsh (items.mapM reader) := by
  induction items with
  | nil => exact borsh_pure []
  | cons item others ih =>
    rw [List.mapM_cons]
    refine borsh_bind _ _ (each item (by simp)) fun value => ?_
    exact borsh_bind _ _ (ih fun other inside => each other (by simp [inside])) fun _ => borsh_pure _

theorem borsh_byte : OnlyBorsh (takeByte path) :=
  borsh_bind _ _ (borsh_take 1 path) fun _ => borsh_pure _

theorem borsh_seq_len (minElem : Int) (path : Path) : OnlyBorsh (readSeqLen minElem path) := by
  refine borsh_bind _ _ (borsh_take 4 path) fun raw => ?_
  refine borsh_bind _ _ (fun cur e raised => by cases raised) fun left => ?_
  split
  · exact borsh_refuse _ _ path
  · split
    · exact borsh_refuse _ _ path
    · exact borsh_pure _

theorem borsh_pubkey : OnlyBorsh (readPubkey path) := by
  intro cur e raised
  rw [readPubkey, run_bind] at raised
  cases result : take 32 path cur with
  | error other =>
    rw [result] at raised
    cases raised
    exact borsh_take 32 path cur e result
  | ok pair =>
    obtain ⟨bytes, _, _, same, size⟩ := take_splits 32 path cur pair.1 pair.2 result
    have width : pair.1.length = 32 := by
      rw [same]
      omega
    rw [result] at raised
    simp only [pubkeyFrom, addressOf, dif_pos width] at raised
    cases raised

theorem borsh_class (cls : Name) (path : Path) (next : NodeReader) (compiled : ClassNode)
    (found : env.lookup cls = some compiled) (each : ∀ node ∈ compiled.nodes, ∀ path, OnlyBorsh (next node path)) :
    OnlyBorsh (readClass env cls path next) := by
  rw [readClass, found]
  cases compiled with
  | struct fields =>
    refine borsh_bind _ _ (borsh_map_m _ _ fun entry inside => ?_) fun _ => borsh_pure _
    exact each entry.2 (List.mem_map_of_mem inside) _
  | intEnum members =>
    refine borsh_bind _ _ (borsh_byte path) fun tag => ?_
    split
    · exact borsh_pure _
    · exact borsh_refuse _ _ path
  | borshEnum variants =>
    refine borsh_bind _ _ (borsh_byte path) fun tag => ?_
    cases isVariant : variants.find tag.toNat with
    | none => exact borsh_refuse _ _ path
    | some variant =>
      have member : variant ∈ variants.entries := List.mem_of_find?_eq_some isVariant
      refine borsh_bind _ _ (borsh_map_m _ _ fun entry inside => ?_) fun _ => borsh_pure _
      exact each entry.2 (List.mem_flatMap.mpr ⟨variant, member, List.mem_map_of_mem inside⟩) _

theorem borsh_option (wrap : Value → Value) (inner : Node) (path : Path) (next : NodeReader)
    (deeper : OnlyBorsh (next inner path)) : OnlyBorsh (readOption wrap inner path next) := by
  refine borsh_bind _ _ (borsh_byte path) fun tag => ?_
  split
  · exact borsh_pure _
  · split
    · exact borsh_bind _ _ deeper fun _ => borsh_pure _
    · exact borsh_refuse _ _ path

theorem borsh_items (elem : Node) (n : Nat) (path : Path) (next : NodeReader) (deeper : ∀ path, OnlyBorsh (next elem path)) :
    OnlyBorsh (readItems elem n path next) :=
  borsh_bind _ _ (borsh_map_m _ _ fun _ _ => deeper _) fun _ => borsh_pure _

structure TypeGraph where
  env : Env
  root : Node
  rooted : ∀ cls ∈ root.refs, (env.lookup cls).isSome = true
  closed : ∀ cls compiled, env.lookup cls = some compiled → ∀ ref ∈ compiled.refs, (env.lookup ref).isSome = true

theorem grown_graph (table : Table) (before env : Env) (grown : Grown table [] before env)
    (closed : ∀ cls compiled, before.lookup cls = some compiled → ∀ ref ∈ compiled.refs, (before.lookup ref).isSome = true)
    (node : Node) (refs : KnownRefs [] node.refs env) : ∃ graph : TypeGraph, graph.env = env ∧ graph.root = node := by
  have settled : ∀ ref, Known [] env ref → (env.lookup ref).isSome = true := fun ref known => known.resolve_right (by simp)
  refine ⟨⟨env, node, fun cls inside => settled cls (refs cls inside), fun cls compiled found ref inside => ?_⟩, rfl, rfl⟩
  rcases grown.added cls compiled found with earlier | ⟨_, _, _, known⟩
  · exact settled ref (known_grown table [] before env grown ref (.inl (closed cls compiled earlier ref inside)))
  · exact settled ref (known ref inside)

theorem compiled_graph (table : Table) (place : Text) (ann : Ann) (before after : Env) (node : Node)
    (closed : ∀ cls compiled, before.lookup cls = some compiled → ∀ ref ∈ compiled.refs, (before.lookup ref).isSome = true)
    (ran : compileField table place ann before = .ok (node, after)) :
    ∃ graph : TypeGraph, graph.env = after ∧ graph.root = node := by
  obtain ⟨grown, _, refs⟩ := field_runs table place ann before node after ran
  exact grown_graph table before after grown closed node refs

-- Whatever was compiled before, in any order, each node that compile_field has returned
-- is the root of a whole graph.
theorem compiled_graphs (table : Table) (asked : List (Text × Ann)) (nodes : List Node) (env : Env)
    (ran : (asked.mapM fun field => compileField table field.1 field.2) [] = .ok (nodes, env)) :
    List.Forall₂ (fun field node => lower field.2 = some node ∧ ∃ graph : TypeGraph, graph.env = env ∧ graph.root = node)
      asked nodes := by
  obtain ⟨grown, each⟩ := runs_map_m table [] _ asked (fun field node env => lower field.2 = some node ∧ KnownRefs [] node.refs env)
    (fun field node before after grown held => ⟨held.1, known_refs_grown table [] _ before after grown held.2⟩)
    (fun field _ => field_runs table field.1 field.2) [] nodes env ran
  exact each.imp fun field node held => ⟨held.1, grown_graph table [] env grown (by simp) node held.2⟩

def treeTable : Table :=
  [(['T'], .dataclass (.ok ⟨[(['l'], .list (.cls ['T'])), (['k'], .cls ['K'])], by decide⟩) none), (['K'], .intEnum [0, 1])]

theorem tree_compiled :
    let ran := (([(['p'], .cls ['T']), (['q'], .optional (.cls ['K']))] : List (Text × Ann)).mapM fun field =>
      compileField treeTable field.1 field.2) []
    ∃ env, ran = .ok ([.ref ['T'], .option (.ref ['K'])], env) ∧ ∃ graph : TypeGraph, graph.env = env ∧ graph.root = .ref ['T'] := by
  refine ⟨_, rfl, ?_⟩
  have graphs := compiled_graphs treeTable [(['p'], .cls ['T']), (['q'], .optional (.cls ['K']))] _ _ rfl
  cases graphs with
  | cons first _ => exact first.2

theorem borsh_read (graph : TypeGraph) (room : Nat) (node : Node) (path : Path)
    (known : ∀ cls ∈ node.refs, (graph.env.lookup cls).isSome = true) : OnlyBorsh (read graph.env room node path) := by
  induction room using Nat.strong_induction_on generalizing node path with
  | _ room ih =>
    have composite : ∀ body : NodeReader → Reader Raised Value,
        (∀ next, (∀ node path, (∀ cls ∈ node.refs, (graph.env.lookup cls).isSome = true) → OnlyBorsh (next node path)) →
          OnlyBorsh (body next)) → OnlyBorsh (descend (levelBelow (read graph.env) room) path body) := by
      intro body inside
      cases room with
      | zero => exact borsh_refuse _ _ path
      | succ room => exact inside _ fun node path known => ih room (Nat.lt_succ_self room) node path known
    rw [read_unfold]
    cases node with
    | int width signed => exact borsh_bind _ _ (borsh_take _ path) fun _ => borsh_pure _
    | float width =>
      refine borsh_bind _ _ (borsh_take _ path) fun bits => ?_
      split
      · exact borsh_refuse _ _ path
      · exact borsh_pure _
    | bool =>
      refine borsh_bind _ _ (borsh_byte path) fun byte => ?_
      split
      · exact borsh_pure _
      · exact borsh_refuse _ _ path
    | str =>
      refine borsh_bind _ _ (borsh_seq_len 1 path) fun n => borsh_bind _ _ (borsh_take n path) fun raw => ?_
      cases utf8Decode raw with
      | none => exact borsh_refuse _ _ path
      | some s => exact borsh_pure _
    | bytes =>
      exact borsh_bind _ _ (borsh_seq_len 1 path) fun n => borsh_bind _ _ (borsh_take n path) fun _ => borsh_pure _
    | fixedBytes n => exact borsh_bind _ _ (borsh_take n path) fun _ => borsh_pure _
    | pubkey => exact borsh_pubkey path
    | option inner => exact composite _ fun next deeper => borsh_option id inner path next (deeper inner path known)
    | opt inner => exact composite _ fun next deeper => borsh_option .opt inner path next (deeper inner path known)
    | vec elem =>
      refine composite _ fun next deeper => borsh_bind _ _ (borsh_seq_len _ path) fun n => ?_
      exact borsh_items elem n path next fun path => deeper elem path known
    | fixedArray elem n => exact composite _ fun next deeper => borsh_items elem _ path next fun path => deeper elem path known
    | ref cls =>
      obtain ⟨compiled, found⟩ := Option.isSome_iff_exists.mp (known cls (by simp [Node.refs]))
      refine composite _ fun next deeper => borsh_class graph.env cls path next compiled found fun node inside path => ?_
      exact deeper node path fun ref isRef =>
        graph.closed cls compiled found ref (List.mem_flatMap.mpr ⟨node, inside, isRef⟩)

theorem decode_safe (graph : TypeGraph) (raw : Bytes) (mode : Mode) (more : Nat) :
    ∃ result after,
      runDecode graph.env (maxDecodeDepth + graph.env.length + 1 + more) raw graph.root mode = some (result, after) ∧
      result = decode graph.env raw graph.root mode ∧
      ((∃ value, result = .ok value) ∨ ∃ complaint offset path, result = .error (.borshError complaint offset path)) ∧
      after.buf = raw ∧ Trail raw.length 0 after.moves after.pos ∧
      (∀ value, result = .ok value → after.pos ≤ raw.length ∧ (mode = .ixData → after.pos = raw.length)) := by
  have ends := read_follows graph.env (maxDecodeDepth + graph.env.length + 1 + more) maxDecodeDepth 0 (by omega) (by omega)
    graph.root [] ⟨raw, 0, 0, []⟩ rfl (Nat.zero_le _)
  simp only [List.drop_zero] at ends
  rw [runDecode, decode]
  cases result : read graph.env maxDecodeDepth graph.root [] ⟨0, raw⟩ with
  | error e =>
    rw [result] at ends
    obtain ⟨stop, depth, moves, ran, trail⟩ := ends
    obtain ⟨complaint, offset, path, rfl⟩ := borsh_read graph maxDecodeDepth graph.root [] graph.rooted _ e result
    rw [ran]
    exact ⟨_, _, rfl, rfl, .inr ⟨complaint, offset, path, rfl⟩, rfl, trail, fun value impossible => by cases impossible⟩
  | ok pair =>
    obtain ⟨value, cur⟩ := pair
    rw [result] at ends
    obtain ⟨moves, ran, rest, trail⟩ := ends
    rw [ran]
    have inside := (trail_end _ _ _ _ trail).2
    simp only
    by_cases trailing : mode = .ixData ∧ cur.pos ≠ raw.length
    · rw [if_pos trailing, if_pos trailing]
      exact ⟨_, _, rfl, rfl, .inr ⟨_, _, _, rfl⟩, rfl, trail, fun value impossible => by cases impossible⟩
    · rw [if_neg trailing, if_neg trailing]
      refine ⟨_, _, rfl, rfl, .inl ⟨value, rfl⟩, rfl, trail, fun _ _ => ⟨inside, fun strict => ?_⟩⟩
      by_contra different
      exact trailing ⟨strict, different⟩

end WakeSol.Codec
