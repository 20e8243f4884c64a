import WakeSol.Codec.Emission
import WakeSol.Codec.Safety

/- The length floor of a layout. A type that is met again while it is measured
   counts nothing, so the measure ends on a cyclic table and stays below whatever
   is written; the checks on a vector's length follow. -/
set_option autoImplicit false

namespace WakeSol.Codec

open TextLib RadixLib EndianLib WireLib

theorem min_ends_anywhere (env : Env) (fuel : Nat) (node : Node) (stack : List Node) (enough : env.length < fuel) :
    runMin env fuel node stack = some (minWire env fuel node stack) := by
  have all : (unmeasured env stack).length ≤ env.length := by
    have shorter := List.length_filter_le (fun cls => decide (Node.ref cls ∉ stack)) (env.map Prod.fst)
    rwa [List.length_map] at shorter
  exact run_min_ends env fuel fuel node stack (by omega) (by omega)

theorem encoded_floor (env : Env) (fuel : Nat) (node : Node) (stack : List Node) (value : Value) (raw : Bytes)
    (encoded : encode env value node = .ok raw) : minWire env fuel node stack ≤ raw.length :=
  emission_min env fuel node stack value raw ((encode_emission env node value raw).mp encoded)

theorem vec_length_accepted (env : Env) (elem : Node) (value : Value) (raw : Bytes)
    (encoded : encode env value (.vec elem) = .ok raw) (positive : 0 < minWireSize env elem) (path : Path) (pos : Nat)
    (after : Bytes) : ∃ items, pyItems value = .ok items ∧
      readSeqLen (minWireSize env elem) path ⟨pos, raw ++ after⟩ = .ok (items.length, ⟨pos + 4, raw.drop 4 ++ after⟩) := by
  have emission := (encode_emission env _ value raw).mp encoded
  obtain ⟨items, body, found, small, rfl, wire⟩ := emission_outlined env _ value raw emission
  have floor := min_items elem (minWireSize env elem) (Emission env) (fun value raw => emission_min env _ elem [] value raw)
    items body wire
  have grows : (items.length : Int) ≤ items.length * minWireSize env elem := le_mul_of_one_le_right (by omega) positive
  have behind : (leBytes 4 items.length ++ body).drop 4 = body := by
    rw [← le_bytes_length 4 items.length]
    exact List.drop_left
  refine ⟨items, found, ?_⟩
  rw [behind, List.append_assoc]
  apply seq_len_runs
  · exact small
  · rw [List.length_append]
    omega
  · intro _
    rw [List.length_append]
    push_cast
    omega

-- The measure without the cut at an array. The source tells array nodes apart by
-- identity, so it cuts at some of the arrays that are equal here, and the two
-- extremes agree: an array is met again only below a class that is cut itself.
def uncutNode (minRef : List Node → Name → Int) : Node → List Node → Int
  | .fixedArray elem n, stack => n * uncutNode minRef elem (stack ++ [.fixedArray elem n])
  | .ref cls, stack => minRef stack cls
  | node, stack => minNode minRef node stack

def uncutWire (env : Env) : Nat → Node → List Node → Int
  | 0 => uncutNode fun _ _ => 0
  | fuel + 1 => uncutNode (minClass env (uncutWire env fuel))

def baseOf : Node → Option Name
  | .fixedArray elem _ => baseOf elem
  | .ref cls => some cls
  | _ => none

def Recurs (env : Env) (cls : Name) : Prop :=
  (∃ fields, env.lookup cls = some (.struct fields)) ∨ ∃ variants, env.lookup cls = some (.borshEnum variants)

-- The stack on the way to a node: for an array on it, either its class was entered,
-- or the node is still a part of the array.
structure OnTheWay (env : Env) (stack : List Node) (node : Node) : Prop where
  arrays : ∀ elem n, Node.fixedArray elem n ∈ stack →
    (∃ cls, baseOf elem = some cls ∧ Node.ref cls ∈ stack) ∨ (baseOf node = baseOf elem ∧ sizeOf node ≤ sizeOf elem)
  classes : ∀ cls, Node.ref cls ∈ stack → Recurs env cls

theorem way_elem (env : Env) (stack : List Node) (elem : Node) (n : Int) (way : OnTheWay env stack (.fixedArray elem n)) :
    OnTheWay env (stack ++ [.fixedArray elem n]) elem := by
  refine ⟨fun inner count inside => ?_, fun cls inside => way.classes cls (by simpa using inside)⟩
  rcases List.mem_append.mp inside with earlier | here
  · rcases way.arrays inner count earlier with ⟨cls, isBase, entered⟩ | ⟨same, smaller⟩
    · exact .inl ⟨cls, isBase, List.mem_append_left _ entered⟩
    · refine .inr ⟨same, ?_⟩
      simp only [Node.fixedArray.sizeOf_spec] at smaller
      omega
  · cases List.mem_singleton.mp here
    exact .inr ⟨rfl, Nat.le_refl _⟩

theorem way_field (env : Env) (stack : List Node) (cls : Name) (node : Node) (way : OnTheWay env stack (.ref cls))
    (recurs : Recurs env cls) : OnTheWay env (stack ++ [.ref cls]) node := by
  refine ⟨fun elem n inside => .inl ?_, fun other inside => ?_⟩
  · rcases way.arrays elem n (by simpa using inside) with ⟨base, isBase, entered⟩ | ⟨same, _⟩
    · exact ⟨base, isBase, List.mem_append_left _ entered⟩
    · exact ⟨cls, same.symm, by simp⟩
  · rcases List.mem_append.mp inside with earlier | here
    · exact way.classes other earlier
    · cases List.mem_singleton.mp here
      exact recurs

theorem uncut_zero (minRef : List Node → Name → Int) (cls : Name)
    (cut : ∀ stack, Node.ref cls ∈ stack → minRef stack cls = 0) (node : Node) (isBase : baseOf node = some cls)
    (stack : List Node) (entered : Node.ref cls ∈ stack) : uncutNode minRef node stack = 0 := by
  induction node generalizing stack with
  | fixedArray elem n ih => rw [uncutNode, ih isBase _ (List.mem_append_left _ entered), Int.mul_zero]
  | ref other =>
    cases isBase
    exact cut stack entered
  | _ => cases isBase

theorem uncut_node (env : Env) (minRef other : List Node → Name → Int)
    (cut : ∀ cls, Recurs env cls → ∀ stack, Node.ref cls ∈ stack → other stack cls = 0)
    (refs : ∀ stack cls, OnTheWay env stack (.ref cls) → minRef stack cls = other stack cls) (node : Node) (stack : List Node)
    (way : OnTheWay env stack node) : minNode minRef node stack = uncutNode other node stack := by
  induction node generalizing stack with
  | fixedArray elem n ih =>
    rw [minNode]
    by_cases again : Node.fixedArray elem n ∈ stack
    · rw [if_pos again]
      rcases way.arrays elem n again with ⟨cls, isBase, entered⟩ | ⟨_, smaller⟩
      · exact (uncut_zero other cls (cut cls (way.classes cls entered)) (.fixedArray elem n) isBase stack entered).symm
      · simp only [Node.fixedArray.sizeOf_spec] at smaller
        omega
    · rw [if_neg again, uncutNode, ih _ (way_elem env stack elem n way)]
  | ref cls => exact refs stack cls way
  | _ => rfl

theorem uncut_class (env : Env) (next other : Node → List Node → Int)
    (each : ∀ node stack, OnTheWay env stack node → next node stack = other node stack) (stack : List Node) (cls : Name)
    (way : OnTheWay env stack (.ref cls)) : minClass env next stack cls = minClass env other stack cls := by
  have fields : Recurs env cls → ∀ fields : Fields,
      minFields next fields (stack ++ [.ref cls]) = minFields other fields (stack ++ [.ref cls]) := by
    intro recurs fields
    rw [minFields, minFields]
    exact congrArg List.sum (List.map_congr_left fun node _ => each node _ (way_field env stack cls node way recurs))
  rw [minClass, minClass]
  cases found : env.lookup cls with
  | none => rfl
  | some compiled =>
    cases compiled with
    | intEnum members => rfl
    | struct own => simp only [fields (.inl ⟨own, found⟩)]
    | borshEnum variants => simp only [fields (.inr ⟨variants, found⟩)]

theorem cut_class (env : Env) (next : Node → List Node → Int) (cls : Name) (recurs : Recurs env cls) (stack : List Node)
    (entered : Node.ref cls ∈ stack) : minClass env next stack cls = 0 := by
  rw [minClass]
  rcases recurs with ⟨fields, found⟩ | ⟨variants, found⟩
  · simp only [found, if_pos entered]
  · simp only [found, if_pos entered]

theorem uncut_wire (env : Env) (fuel : Nat) (node : Node) (stack : List Node) (way : OnTheWay env stack node) :
    minWire env fuel node stack = uncutWire env fuel node stack := by
  induction fuel generalizing node stack with
  | zero => exact uncut_node env _ _ (fun _ _ _ _ => rfl) (fun _ _ _ => rfl) node stack way
  | succ fuel ih =>
    refine uncut_node env _ _ (cut_class env _) (fun stack cls way => ?_) node stack way
    exact uncut_class env _ _ (fun node stack way => ih node stack way) stack cls way

theorem length_floor_sound (env : Env) :
    (∀ fuel node stack, env.length < fuel → runMin env fuel node stack = some (minWire env fuel node stack)) ∧
    (∀ fuel node, env.length < fuel → runMin env fuel node [] = some (minWireSize env node)) ∧
    (∀ node, minWireSize env node = uncutWire env (env.length + 1) node []) ∧
    (∀ node value raw, encode env value node = .ok raw → minWireSize env node ≤ raw.length) ∧
    (∀ elem value raw, encode env value (.vec elem) = .ok raw → 0 < minWireSize env elem → ∀ path pos after,
      ∃ items, pyItems value = .ok items ∧
        readSeqLen (minWireSize env elem) path ⟨pos, raw ++ after⟩ = .ok (items.length, ⟨pos + 4, raw.drop 4 ++ after⟩)) := by
  refine ⟨min_ends_anywhere env, fun fuel node enough => min_wire_ends env fuel node enough, fun node => ?_, ?_,
    vec_length_accepted env⟩
  · exact uncut_wire env _ node [] ⟨by simp, by simp⟩
  · exact fun node value raw encoded => encoded_floor env _ node [] value raw encoded

end WakeSol.Codec
