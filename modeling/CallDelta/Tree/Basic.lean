/-!
# Syntax trees

A syntax tree is a numbered list of nodes, and a node is named by its number. Node 0 is the root,
and a node enters the list after its parent, so a parent always has the smaller number. Each node
keeps the number of its parent and the numbers of its children, and the tree carries the proof that
the two agree:

* `Tree.parent_lt`: a parent has a smaller number than its child;
* `Tree.parent_isSome`: only node 0 is without a parent;
* `Tree.children_eq`: the children of a node are the nodes that name it as their parent, in
  increasing order.

Walks over a tree end because of these facts: upward the numbers fall (`Tree.lt_of_parent?`),
downward they rise and stay below the size (`Tree.lt_of_mem_children`).
-/

namespace CallDelta

/-- The part a node plays for calls. The grammar's own word for the node is its type name. -/
inductive NodeKind where
  /-- A call. Its children are the callee and then the arguments. -/
  | callExpression
  /-- An identifier. Its only child is the token with the spelling. -/
  | identifierWrapper
  /-- The spelling of an identifier. -/
  | tokenLeaf
  /-- Anything else. -/
  | other
  deriving DecidableEq

/-- A stretch of source text, in bytes and in rows and columns. -/
structure Span where
  startByte : Nat
  endByte : Nat
  startRow : Nat
  startCol : Nat
  endRow : Nat
  endCol : Nat
  deriving DecidableEq

/-- A span is shown by its bytes. -/
def Span.text (s : Span) : String :=
  "[" ++ toString s.startByte ++ "," ++ toString s.endByte ++ "]"

/-- What a node says about itself, apart from its place in a tree. -/
structure NodeData where
  kind : NodeKind
  typeName : String
  label : Option String := none
  span : Option Span := none
  deriving DecidableEq

/-- A node in its place. -/
structure Node extends NodeData where
  parent : Option Nat
  children : List Nat
  deriving DecidableEq

/-- A node without children is a leaf. -/
def Node.isLeaf (n : Node) : Bool := n.children.isEmpty

/-- The parent that a list of nodes gives to number `i`. -/
def parentIn (nodes : Array Node) (i : Nat) : Option Nat := nodes[i]?.bind (·.parent)

/-- A syntax tree. -/
structure Tree where
  nodes : Array Node
  size_pos : 0 < nodes.size
  parent_lt : ∀ i p, parentIn nodes i = some p → p < i
  parent_isSome : ∀ i, 0 < i → i < nodes.size → (parentIn nodes i).isSome
  children_eq : ∀ i (h : i < nodes.size),
    nodes[i].children = (List.range nodes.size).filter (fun j => parentIn nodes j = some i)

namespace Tree

/-! ## Looking at a tree -/

/-- The number of nodes. -/
def size (t : Tree) : Nat := t.nodes.size

/-- The root is node 0. -/
def root (_ : Tree) : Nat := 0

/-- All nodes in the order of their numbers, so that ancestors come before descendants. -/
def ids (t : Tree) : List Nat := List.range t.size

/-- The node with a number, if there is one. -/
def get? (t : Tree) (i : Nat) : Option Node := t.nodes[i]?

/-- The kind of a node. -/
def kind? (t : Tree) (i : Nat) : Option NodeKind := (t.get? i).map (·.kind)

/-- The type name of a node, empty for an unknown number. -/
def typeName (t : Tree) (i : Nat) : String := ((t.get? i).map (·.typeName)).getD ""

/-- The label of a node, if the node is known and has one. -/
def label? (t : Tree) (i : Nat) : Option String := (t.get? i).bind (·.label)

/-- The span of a node, if the node is known and has one. -/
def span? (t : Tree) (i : Nat) : Option Span := (t.get? i).bind (·.span)

/-- The parent of a node. The root and unknown numbers have none. -/
def parent? (t : Tree) (i : Nat) : Option Nat := (t.get? i).bind (·.parent)

/-- The children of a node from left to right. Unknown numbers have none. -/
def children (t : Tree) (i : Nat) : List Nat := ((t.get? i).map (·.children)).getD []

theorem parent?_eq (t : Tree) (i : Nat) : t.parent? i = parentIn t.nodes i := rfl

/-- Upward the numbers fall. -/
theorem lt_of_parent? {t : Tree} {i p : Nat} (h : t.parent? i = some p) : p < i :=
  t.parent_lt i p h

/-- Only known nodes have a parent. -/
theorem lt_size_of_parent? {t : Tree} {i p : Nat} (h : t.parent? i = some p) : i < t.size := by
  unfold parent? get? at h
  cases hi : t.nodes[i]? with
  | none => simp [hi] at h
  | some n => exact (Array.getElem?_eq_some_iff.mp hi).1

/-- The children of a node are exactly the nodes that name it as their parent. -/
theorem mem_children {t : Tree} {i c : Nat} : c ∈ t.children i ↔ t.parent? c = some i := by
  unfold children get?
  by_cases hi : i < t.nodes.size
  · rw [Array.getElem?_eq_getElem hi]
    simp only [Option.map_some, Option.getD_some, t.children_eq i hi, List.mem_filter,
      List.mem_range, decide_eq_true_eq, parent?_eq]
    exact ⟨fun h => h.2, fun h => ⟨lt_size_of_parent? h, h⟩⟩
  · rw [Array.getElem?_eq_none (by omega)]
    simp only [Option.map_none, Option.getD_none, List.not_mem_nil, false_iff]
    intro h
    exact hi (Nat.lt_trans (lt_of_parent? h) (lt_size_of_parent? h))

/-- Downward the numbers rise. -/
theorem lt_of_mem_children {t : Tree} {i c : Nat} (h : c ∈ t.children i) : i < c :=
  lt_of_parent? (mem_children.mp h)

theorem lt_size_of_mem_children {t : Tree} {i c : Nat} (h : c ∈ t.children i) : c < t.size :=
  lt_size_of_parent? (mem_children.mp h)

/-! ## Growing a tree -/

/-- The tree with one node. -/
def single (data : NodeData) : Tree where
  nodes := #[{ data with parent := none, children := [] }]
  size_pos := by simp
  parent_lt i p h := by
    unfold parentIn at h
    match i with
    | 0 => simp at h
    | i + 1 => simp at h
  parent_isSome i h₀ h₁ := by
    simp at h₁
    omega
  children_eq i h := by
    have hi : i = 0 := by simpa using h
    subst hi
    simp [parentIn, List.range_succ]

/-- The list of nodes with one more node, as the last child of `parent`. -/
def grow (nodes : Array Node) (parent : Nat) (data : NodeData) : Array Node :=
  (nodes.modify parent (fun n => { n with children := n.children ++ [nodes.size] })).push
    { data with parent := some parent, children := [] }

@[simp] theorem size_grow (nodes : Array Node) (parent : Nat) (data : NodeData) :
    (grow nodes parent data).size = nodes.size + 1 := by
  simp [grow]

theorem parentIn_grow (nodes : Array Node) (parent : Nat) (data : NodeData) (i : Nat) :
    parentIn (grow nodes parent data) i =
      if i = nodes.size then some parent else parentIn nodes i := by
  unfold parentIn grow
  by_cases hi : i = nodes.size
  · rw [if_pos hi, hi, Array.getElem?_push, if_pos (by simp)]
    rfl
  · rw [if_neg hi, Array.getElem?_push, if_neg (by simpa using hi), Array.getElem?_modify]
    by_cases hp : parent = i
    · rw [if_pos hp]
      cases nodes[i]? <;> rfl
    · rw [if_neg hp]

theorem children_grow (nodes : Array Node) (parent : Nat) (data : NodeData) (i : Nat)
    (h : i < nodes.size) (h' : i < (grow nodes parent data).size) :
    (grow nodes parent data)[i].children =
      nodes[i].children ++ if parent = i then [nodes.size] else [] := by
  simp only [grow, Array.getElem_push, Array.size_modify, h, dite_true, Array.getElem_modify]
  by_cases hp : parent = i <;> simp [hp]

theorem children_grow_size (nodes : Array Node) (parent : Nat) (data : NodeData)
    (h : nodes.size < (grow nodes parent data).size) :
    (grow nodes parent data)[nodes.size].children = [] := by
  simp [grow, Array.getElem_push]

/-- The tree with one more node, as the last child of `parent`. The new node's number is the old
size. There is no such tree if `parent` is not a node. -/
def add? (t : Tree) (parent : Nat) (data : NodeData) : Option Tree :=
  if h : parent < t.nodes.size then
    some
      { nodes := grow t.nodes parent data
        size_pos := by simp
        parent_lt := by
          intro i p hp
          rw [parentIn_grow] at hp
          split at hp
          · simp at hp
            omega
          · exact t.parent_lt i p hp
        parent_isSome := by
          intro i h₀ h₁
          rw [parentIn_grow]
          split
          · rfl
          · rw [size_grow] at h₁
            exact t.parent_isSome i h₀ (by omega)
        children_eq := by
          intro i hi
          rw [size_grow, List.range_succ, List.filter_append]
          have hold : ∀ j ∈ List.range t.nodes.size,
              decide (parentIn (grow t.nodes parent data) j = some i)
                = decide (parentIn t.nodes j = some i) := by
            intro j hj
            rw [parentIn_grow, if_neg (by simp at hj; omega)]
          rw [List.filter_congr hold]
          by_cases hin : i < t.nodes.size
          · rw [children_grow _ _ _ i hin, t.children_eq i hin]
            congr 1
            by_cases hp : parent = i
            · simp [parentIn_grow, hp]
            · simp [parentIn_grow, hp]
          · have hi' : i = t.nodes.size := by
              rw [size_grow] at hi
              omega
            subst hi'
            rw [children_grow_size]
            symm
            rw [List.append_eq_nil_iff]
            constructor
            · rw [List.filter_eq_nil_iff]
              intro j hj
              simp only [decide_eq_true_eq]
              intro hp
              have := t.parent_lt j _ hp
              simp at hj
              omega
            · simp [parentIn_grow]
              omega }
  else
    none

/-- As `add?`, with the tree left as it is if `parent` is not a node. -/
def add (t : Tree) (parent : Nat) (data : NodeData) : Tree := (t.add? parent data).getD t

end Tree

end CallDelta
