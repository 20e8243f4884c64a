import Mathlib.Data.List.Basic

/- Ordered trees with any number of children, their pre-order, and the stack of
   open nodes that rebuilds a tree from a depth-tagged pre-order in one pass. -/
set_option autoImplicit false

namespace RoseLib

inductive Rose (α : Type) where
  | node (label : α) (children : List (Rose α))

section Order

variable {α β : Type}

def Rose.label : Rose α → α
  | .node label _ => label

def Rose.children : Rose α → List (Rose α)
  | .node _ children => children

mutual
def preorder : Rose α → List α
  | .node label children => label :: forestPreorder children
def forestPreorder : List (Rose α) → List α
  | [] => []
  | tree :: rest => preorder tree ++ forestPreorder rest
end

mutual
def tagged (depth : Nat) : Rose α → List (Nat × α)
  | .node label children => (depth, label) :: forestTagged (depth + 1) children
def forestTagged (depth : Nat) : List (Rose α) → List (Nat × α)
  | [] => []
  | tree :: rest => tagged depth tree ++ forestTagged depth rest
end

mutual
def mapDepth (f : Nat → α → β) (depth : Nat) : Rose α → Rose β
  | .node label children => .node (f depth label) (forestMapDepth f (depth + 1) children)
def forestMapDepth (f : Nat → α → β) (depth : Nat) : List (Rose α) → List (Rose β)
  | [] => []
  | tree :: rest => mapDepth f depth tree :: forestMapDepth f depth rest
end

theorem forest_preorder_append (left right : List (Rose α)) :
    forestPreorder (left ++ right) = forestPreorder left ++ forestPreorder right := by
  induction left with
  | nil => rfl
  | cons tree rest ih => simp [forestPreorder, ih]

theorem mem_forest_preorder (forest : List (Rose α)) (label : α) :
    label ∈ forestPreorder forest ↔ ∃ tree ∈ forest, label ∈ preorder tree := by
  induction forest with
  | nil => simp [forestPreorder]
  | cons tree rest ih => simp [forestPreorder, ih]

variable (depth : Nat)

theorem forest_tagged_append (left right : List (Rose α)) :
    forestTagged depth (left ++ right) = forestTagged depth left ++ forestTagged depth right := by
  induction left with
  | nil => rfl
  | cons tree rest ih => simp [forestTagged, ih]

mutual
theorem tagged_preorder (depth : Nat) (tree : Rose α) : (tagged depth tree).map Prod.snd = preorder tree := by
  cases tree with
  | node label children => rw [tagged, preorder, List.map_cons, forest_tagged_preorder]
theorem forest_tagged_preorder (depth : Nat) (forest : List (Rose α)) :
    (forestTagged depth forest).map Prod.snd = forestPreorder forest := by
  cases forest with
  | nil => rfl
  | cons tree rest => rw [forestTagged, forestPreorder, List.map_append, tagged_preorder, forest_tagged_preorder]
end

mutual
theorem tagged_map_depth (f : Nat → α → β) (depth : Nat) (tree : Rose α) :
    tagged depth (mapDepth f depth tree) = (tagged depth tree).map fun pair => (pair.1, f pair.1 pair.2) := by
  cases tree with
  | node label children =>
    simp only [mapDepth, tagged, List.map_cons, forest_tagged_map_depth f (depth + 1) children]
theorem forest_tagged_map_depth (f : Nat → α → β) (depth : Nat) (forest : List (Rose α)) :
    forestTagged depth (forestMapDepth f depth forest) =
      (forestTagged depth forest).map fun pair => (pair.1, f pair.1 pair.2) := by
  cases forest with
  | nil => rfl
  | cons tree rest =>
    simp only [forestMapDepth, forestTagged, List.map_append, tagged_map_depth f depth tree,
      forest_tagged_map_depth f depth rest]
end

def Rose.push (tree child : Rose α) : Rose α :=
  match tree with
  | .node label children => .node label (children ++ [child])

def Rose.pushAll (tree : Rose α) (more : List (Rose α)) : Rose α :=
  match tree with
  | .node label children => .node label (children ++ more)

theorem push_preorder (tree child : Rose α) : preorder (tree.push child) = preorder tree ++ preorder child := by
  cases tree with
  | node label children => simp [Rose.push, preorder, forest_preorder_append, forestPreorder]

theorem push_push_all (tree child : Rose α) (more : List (Rose α)) :
    (tree.push child).pushAll more = tree.pushAll (child :: more) := by
  cases tree with
  | node label children => simp [Rose.push, Rose.pushAll]

theorem push_all_nil (tree : Rose α) : tree.pushAll [] = tree := by
  cases tree with
  | node label children => simp [Rose.pushAll]

inductive OneWay (marked : α → Prop) : List (Rose α) → Prop where
  | clear (forest : List (Rose α)) (none : ∀ label ∈ forestPreorder forest, ¬ marked label) : OneWay marked forest
  | down (before after : List (Rose α)) (label : α) (children : List (Rose α))
      (noneBefore : ∀ label ∈ forestPreorder before, ¬ marked label)
      (noneAfter : ∀ label ∈ forestPreorder after, ¬ marked label) (below : OneWay marked children) :
      OneWay marked (before ++ .node label children :: after)

end Order

section Stack

variable {α : Type}

-- The open path from the node on top down to the root; parents are nearest
-- first, so the node on top stands at depth parents.length + 1.
structure OpenPath (α : Type) where
  top : Rose α
  parents : List (Rose α)

def closeFrom (depth : Nat) (top : Rose α) : List (Rose α) → OpenPath α
  | [] => ⟨top, []⟩
  | parent :: rest =>
    if depth ≤ rest.length + 2 then closeFrom depth (parent.push top) rest else ⟨top, parent :: rest⟩

def collapseFrom (top : Rose α) : List (Rose α) → Rose α
  | [] => top
  | parent :: rest => collapseFrom (parent.push top) rest

def OpenPath.closeTo (depth : Nat) (path : OpenPath α) : OpenPath α := closeFrom depth path.top path.parents

def OpenPath.collapse (path : OpenPath α) : Rose α := collapseFrom path.top path.parents

def OpenPath.open (path : OpenPath α) (tree : Rose α) : OpenPath α := ⟨tree, path.top :: path.parents⟩

def advance (path : OpenPath α) (entry : Nat × α) : OpenPath α :=
  (path.closeTo entry.1).open (.node entry.2 [])

def rebuild (root : Rose α) (entries : List (Nat × α)) : Rose α :=
  (entries.foldl advance ⟨root, []⟩).collapse

def parentsPreorder : List (Rose α) → List α
  | [] => []
  | parent :: rest => parentsPreorder rest ++ preorder parent

def OpenPath.preorder (path : OpenPath α) : List α := parentsPreorder path.parents ++ RoseLib.preorder path.top

variable (depth : Nat) (top : Rose α) (parents : List (Rose α))

theorem close_from_preorder : (closeFrom depth top parents).preorder = parentsPreorder parents ++ preorder top := by
  induction parents generalizing top with
  | nil => rfl
  | cons parent rest ih =>
    by_cases closing : depth ≤ rest.length + 2
    · rw [closeFrom, if_pos closing, ih, push_preorder]
      simp [parentsPreorder]
    · rw [closeFrom, if_neg closing]
      rfl

theorem collapse_from_preorder : preorder (collapseFrom top parents) = parentsPreorder parents ++ preorder top := by
  induction parents generalizing top with
  | nil => rfl
  | cons parent rest ih =>
    rw [collapseFrom, ih, push_preorder]
    simp [parentsPreorder]

theorem advance_preorder (path : OpenPath α) (entry : Nat × α) :
    (advance path entry).preorder = path.preorder ++ [entry.2] := by
  have closed := close_from_preorder entry.1 path.top path.parents
  simp only [OpenPath.preorder] at closed
  simp [advance, OpenPath.open, OpenPath.preorder, OpenPath.closeTo, parentsPreorder, preorder, forestPreorder, closed]

theorem fold_preorder (entries : List (Nat × α)) (path : OpenPath α) :
    (entries.foldl advance path).preorder = path.preorder ++ entries.map Prod.snd := by
  induction entries generalizing path with
  | nil => simp
  | cons entry rest ih =>
    rw [List.foldl_cons, ih, advance_preorder]
    simp

theorem rebuild_preorder (root : Rose α) (entries : List (Nat × α)) :
    preorder (rebuild root entries) = preorder root ++ entries.map Prod.snd := by
  rw [rebuild, OpenPath.collapse, collapse_from_preorder]
  exact fold_preorder entries ⟨root, []⟩

theorem close_from_close_from (low high : Nat) (le : low ≤ high) (top : Rose α) (parents : List (Rose α)) :
    (closeFrom high top parents).closeTo low = closeFrom low top parents := by
  induction parents generalizing top with
  | nil => rfl
  | cons parent rest ih =>
    by_cases closing : high ≤ rest.length + 2
    · rw [closeFrom, if_pos closing, ih, closeFrom, if_pos (Nat.le_trans le closing)]
    · rw [closeFrom, if_neg closing]
      rfl

theorem close_to_close_to (low high : Nat) (le : low ≤ high) (path : OpenPath α) :
    (path.closeTo high).closeTo low = path.closeTo low :=
  close_from_close_from low high le path.top path.parents

theorem collapse_close_from : (closeFrom depth top parents).collapse = collapseFrom top parents := by
  induction parents generalizing top with
  | nil => rfl
  | cons parent rest ih =>
    by_cases closing : depth ≤ rest.length + 2
    · rw [closeFrom, if_pos closing, ih]
      rfl
    · rw [closeFrom, if_neg closing]
      rfl

theorem close_to_here (deeper : parents.length + 1 < depth) : closeFrom depth top parents = ⟨top, parents⟩ := by
  cases parents with
  | nil => rfl
  | cons parent rest =>
    rw [closeFrom, if_neg]
    simp only [List.length_cons] at deeper
    omega

theorem close_to_parent (top parent : Rose α) (rest : List (Rose α)) (here : rest.length + 2 = depth) :
    closeFrom depth top (parent :: rest) = ⟨parent.push top, rest⟩ := by
  rw [closeFrom, if_pos (by omega)]
  exact close_to_here depth _ rest (by omega)

-- The path is described by what it becomes once every node deeper than the
-- forest's parent is closed, so the statement survives the pending closes.
mutual
theorem fold_tagged (depth : Nat) (tree : Rose α) (path : OpenPath α) (top : Rose α) (parents : List (Rose α))
    (closed : path.closeTo (depth + 1) = ⟨top, parents⟩) (aligned : parents.length + 1 = depth) :
    ((tagged (depth + 1) tree).foldl advance path).closeTo (depth + 1) = ⟨top.push tree, parents⟩ := by
  cases tree with
  | node label children =>
    have opened : (advance path (depth + 1, label)).closeTo (depth + 2) = ⟨.node label [], top :: parents⟩ := by
      rw [advance, closed]
      exact close_to_here (depth + 2) (.node label []) (top :: parents) (by rw [List.length_cons]; omega)
    have filled := fold_forest_tagged (depth + 1) children (advance path (depth + 1, label)) (.node label [])
      (top :: parents) opened (by rw [List.length_cons]; omega)
    rw [tagged, List.foldl_cons, ← close_to_close_to (depth + 1) (depth + 2) (by omega), filled]
    simp only [Rose.pushAll, List.nil_append, OpenPath.closeTo]
    exact close_to_parent _ _ _ _ (by omega)
theorem fold_forest_tagged (depth : Nat) (forest : List (Rose α)) (path : OpenPath α) (top : Rose α)
    (parents : List (Rose α)) (closed : path.closeTo (depth + 1) = ⟨top, parents⟩)
    (aligned : parents.length + 1 = depth) :
    ((forestTagged (depth + 1) forest).foldl advance path).closeTo (depth + 1) = ⟨top.pushAll forest, parents⟩ := by
  cases forest with
  | nil => simpa [forestTagged, push_all_nil] using closed
  | cons tree rest =>
    have first := fold_tagged depth tree path top parents closed aligned
    rw [forestTagged, List.foldl_append, fold_forest_tagged depth rest _ (top.push tree) parents first aligned,
      push_push_all]
end

theorem rebuild_tagged (label : α) (children : List (Rose α)) :
    rebuild (.node label []) (forestTagged 2 children) = .node label children := by
  have folded := fold_forest_tagged 1 children ⟨.node label [], []⟩ (.node label []) [] rfl rfl
  have collapsed := congrArg OpenPath.collapse folded
  rw [OpenPath.closeTo, collapse_close_from] at collapsed
  simpa [rebuild, OpenPath.collapse, collapseFrom, Rose.pushAll] using collapsed

end Stack

end RoseLib
