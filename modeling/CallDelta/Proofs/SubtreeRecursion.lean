import CallDelta.Proofs.Ancestry
import CallDelta.Proofs.RoseOfTree
import Mathlib.Data.List.Fold
import Mathlib.Logic.Function.Iterate

/-!
# Recursion on subtrees

A tree is an array of numbered nodes. Its measures are worked out in one pass over the array, and
its walks keep a stack. Both come to a recursion on the rose tree below a node, because whatever is
worked out at each node from its children is such a recursion (`Tree.eq_fold`).

* `Tree.height_measures_eq`, `Tree.size_measures_eq`: the table of measures holds heights and
  numbers of nodes
* `Tree.preOrder_eq_numbers`, `Tree.postOrder_eq_numbers`: the walks list the numbers of the subtree
  by recursion
* `Tree.getElem?_walk`: a walk meets one node in each turn, until its stack is empty
-/

namespace CallDelta

namespace Rose

variable {α β : Type}

mutual

/-- Works out a value for a rose tree from those of the rose trees below its top. -/
def fold (f : α → List β → β) : Rose α → β
  | node a rs => f a (foldAll f rs)

/-- The values for a list of rose trees. -/
def foldAll (f : α → List β → β) : List (Rose α) → List β
  | [] => []
  | r :: rs => fold f r :: foldAll f rs

end

theorem foldAll_eq_map (f : α → List β → β) (rs : List (Rose α)) :
    foldAll f rs = rs.map (fold f) := by
  induction rs with
  | nil => rfl
  | cons r rs ih => rw [foldAll, ih, List.map_cons]

theorem fold_node (f : α → List β → β) (a : α) (rs : List (Rose α)) :
    (node a rs).fold f = f a (rs.map (fold f)) := by
  rw [fold, foldAll_eq_map]

/-- The number of levels. A leaf has one. -/
def height (r : Rose α) : Nat := r.fold fun _ heights => 1 + heights.foldr max 0

/-- The number of values. -/
def size (r : Rose α) : Nat := r.fold fun _ sizes => 1 + sumOf sizes

/-- The values from left to right, each before those below it. -/
def preOrder (r : Rose α) : List α := r.fold fun a below => a :: below.flatten

/-- The values from left to right, each after those below it. -/
def postOrder (r : Rose α) : List α := r.fold fun a below => below.flatten ++ [a]

end Rose

namespace Tree

variable {t : Tree} {α β : Type} {i j : Nat}

/-- What is worked out at each node from its children is a recursion on the rose tree below the
node. -/
theorem eq_fold {T : Nat → Rose α} {v : Nat → α}
    (hT : ∀ i, T i = .node (v i) ((t.children i).map T)) {f : α → List β → β} {g : Nat → β}
    (hg : ∀ i, i < t.size → g i = f (v i) ((t.children i).map g))
    (hi : i < t.size) : g i = (T i).fold f := by
  -- the numbers need not follow the order of the tree, so that the induction goes from the children
  -- up
  induction i using induction_children (t := t) with
  | h i ih =>
    have hbelow : (t.children i).map g = ((t.children i).map T).map (Rose.fold f) := by
      rw [List.map_map]
      exact List.map_congr_left fun c hc => ih c hc (lt_size_of_mem_children hc)
    rw [hg i hi, hT i, Rose.fold_node, hbelow]

/-! ## Measures -/

theorem height_measures_eq (hi : i < t.size) : (t.measures.of i).height = (t.rose i).height := by
  refine eq_fold t.rose_eq (g := fun i => (t.measures.of i).height) ?_ hi
  intro i hi
  show _ = 1 + ((t.children i).map fun c => (t.measures.of c).height).foldr max 0
  rw [← List.foldl_eq_foldr, of_measures hi]
  simp [Measure.ofChildren, Function.comp_def]

theorem size_measures_eq (hi : i < t.size) : (t.measures.of i).size = (t.rose i).size := by
  refine eq_fold t.rose_eq (g := fun i => (t.measures.of i).size) ?_ hi
  intro i hi
  show _ = 1 + sumOf ((t.children i).map fun c => (t.measures.of c).size)
  rw [of_measures hi]
  simp [Measure.ofChildren, Function.comp_def]

/-- **Known nodes are isomorphic exactly if the ordered trees of type names and labels below them
are equal. Then they have the same height, size and digest, and walks in pre-order from them meet
isomorphic nodes in each step. Height and size are those of the ordered tree.** -/
theorem isomorphic_iff_same_contents {src dst : Tree} {s d : Nat} (hs : s < src.size)
    (hd : d < dst.size) :
    (isomorphic src s dst d = true ↔
        (src.rose s).map (·.content) = (dst.rose d).map (·.content)) ∧
      (isomorphic src s dst d = true →
        (src.measures.of s).height = (dst.measures.of d).height ∧
          (src.measures.of s).size = (dst.measures.of d).size ∧
          (src.measures.of s).digest = (dst.measures.of d).digest ∧
          (src.preOrder s).length = (dst.preOrder d).length ∧
          ∀ k a b : Nat, (src.preOrder s)[k]? = some a → (dst.preOrder d)[k]? = some b →
            isomorphic src a dst b = true) ∧
      ((src.measures.of s).height = (src.rose s).height ∧
        (src.measures.of s).size = (src.rose s).size) ∧
      (dst.measures.of d).height = (dst.rose d).height ∧
      (dst.measures.of d).size = (dst.rose d).size := by
  refine ⟨isomorphic_iff_rose hs hd, ?_, ⟨height_measures_eq hs, size_measures_eq hs⟩,
    height_measures_eq hd, size_measures_eq hd⟩
  intro h
  have hmeasures := measures_eq_of_isomorphic h
  have hwalk := forall₂_preOrder h
  refine ⟨by rw [hmeasures], by rw [hmeasures], by rw [hmeasures], hwalk.length_eq, ?_⟩
  intro k a b ha hb
  obtain ⟨hk, rfl⟩ := List.getElem?_eq_some_iff.mp ha
  obtain ⟨hk', rfl⟩ := List.getElem?_eq_some_iff.mp hb
  exact (List.forall₂_iff_get.mp hwalk).2 k hk hk'

/-- A block of two statements, each with one name, numbered in pre-order. -/
def blockInOrder : Tree :=
  ((single { kind := .other, typeName := "block" }).run
    [.add 0 { kind := .other, typeName := "statement" }, .identifier 1 "x",
      .add 0 { kind := .other, typeName := "statement" }, .identifier 4 "y"]).2

/-- The same block, with both statements numbered before the names and the names from the last. -/
def blockOutOfOrder : Tree :=
  ((single { kind := .other, typeName := "block" }).run
    [.add 0 { kind := .other, typeName := "statement" },
      .add 0 { kind := .other, typeName := "statement" }, .identifier 2 "y", .identifier 1 "x"]).2

/-- The numbers do not matter: the second names are isomorphic, as nodes 5 and 3 of the two
blocks. -/
theorem isomorphic_blocks_of_two_orders :
    let src := blockInOrder
    let dst := blockOutOfOrder
    src.preOrder 0 = [0, 1, 2, 3, 4, 5, 6] ∧ dst.preOrder 0 = [0, 1, 5, 6, 2, 3, 4] ∧
      isomorphic src 0 dst 0 = true ∧ (src.rose 0).map (·.content) = (dst.rose 0).map (·.content) ∧
      (src.measures.of 0).digest = (dst.measures.of 0).digest ∧ isomorphic src 5 dst 3 = true ∧
      (dst.measures.of 0).height = 4 ∧ (dst.measures.of 0).size = 7 := by
  intro src dst
  have hsrc : src.preOrder 0 = [0, 1, 2, 3, 4, 5, 6] := by decide +kernel
  have hdst : dst.preOrder 0 = [0, 1, 5, 6, 2, 3, 4] := by decide +kernel
  have hiso : isomorphic src 0 dst 0 = true := by decide +kernel
  obtain ⟨hcontents, hsame, -, hheight, hsize⟩ :=
    isomorphic_iff_same_contents (root_lt_size src) (root_lt_size dst)
  obtain ⟨-, -, hdigest, -, hstep⟩ := hsame hiso
  refine ⟨hsrc, hdst, hiso, hcontents.mp hiso, hdigest, ?_, hheight.trans (by decide +kernel),
    hsize.trans (by decide +kernel)⟩
  exact hstep 5 5 3 (by rw [root, hsrc]; rfl) (by rw [root, hdst]; rfl)

/-! ## Walks -/

/-- The rose tree of the numbers in a subtree. -/
def numbers (t : Tree) (i : Nat) : Rose Nat :=
  .node i ((t.children i).attach.map (fun c => t.numbers c.1))
termination_by t.size - i
decreasing_by
  have h₁ := lt_of_mem_children c.2
  have h₂ := lt_size_of_mem_children c.2
  omega

theorem numbers_eq (t : Tree) (i : Nat) : t.numbers i = .node i ((t.children i).map t.numbers) := by
  conv => rhs; rw [← List.attach_map_subtype_val (t.children i), List.map_map]
  rw [numbers]
  rfl

theorem preOrder_eq_numbers (hi : i < t.size) : t.preOrder i = (t.numbers i).preOrder :=
  eq_fold t.numbers_eq (fun _ hi => preOrder_eq_flatMap hi) hi

theorem postOrder_eq_numbers (hi : i < t.size) : t.postOrder i = (t.numbers i).postOrder :=
  eq_fold t.numbers_eq (fun _ hi => postOrder_eq_append hi) hi

/-- The stack of a walk after its next turn: the first node has been met, and its children take its
place, in the order of `arrange`. -/
def nextStack (t : Tree) (arrange : List Nat → List Nat) : List Nat → List Nat
  | [] => []
  | i :: rest => arrange (t.children i) ++ rest

/-- What a walk meets in a turn is on top of the stack after the turns before. After the last node
the stack is empty. -/
theorem getElem?_walk {arrange walk : List Nat → List Nat} (hnil : walk [] = [])
    (hcons : ∀ i rest, walk (i :: rest) = i :: walk (arrange (t.children i) ++ rest)) (k : Nat) :
    ∀ stack, (walk stack)[k]? = ((t.nextStack arrange)^[k] stack).head? := by
  -- one turn changes the stack, so that the induction on the turns is for all stacks
  induction k with
  | zero =>
    intro stack
    cases stack with
    | nil => rw [hnil]; rfl
    | cons i rest => rw [hcons]; rfl
  | succ k ih =>
    intro stack
    rw [Function.iterate_succ_apply]
    cases stack with
    | nil => rw [nextStack, ← ih, hnil, List.getElem?_nil, List.getElem?_nil]
    | cons i rest => rw [hcons, List.getElem?_cons_succ, ih, nextStack]

/-- A walk with this stack meets the nodes of a list, one in each turn, and after the last of them
its stack is empty. -/
structure GivesOut (t : Tree) (arrange : List Nat → List Nat) (stack order : List Nat) : Prop where
  head?_eq : ∀ k, ((t.nextStack arrange)^[k] stack).head? = order[k]?
  empty : (t.nextStack arrange)^[order.length] stack = []

theorem givesOut_walk {arrange walk : List Nat → List Nat} (hnil : walk [] = [])
    (hcons : ∀ i rest, walk (i :: rest) = i :: walk (arrange (t.children i) ++ rest))
    (stack : List Nat) : t.GivesOut arrange stack (walk stack) where
  head?_eq k := (getElem?_walk hnil hcons k stack).symm
  empty := by
    rw [← List.head?_eq_none_iff, ← getElem?_walk hnil hcons]
    exact List.getElem?_eq_none (Nat.le_refl _)

/-- A list of a node and of the nodes that it is above, each once. -/
structure ListsSubtree (t : Tree) (i : Nat) (order : List Nat) : Prop where
  nodup : order.Nodup
  mem_iff : ∀ j, j ∈ order ↔ j = i ∨ t.Above i j

theorem listsSubtree_preOrder (hi : i < t.size) : t.ListsSubtree i (t.preOrder i) where
  nodup := t.preOrder_nodup i
  mem_iff j := by
    rw [mem_preOrder_iff, above_iff_within]
    constructor
    · rintro ⟨-, hij⟩
      exact (Decidable.em (j = i)).imp_right fun hne => ⟨hij, Ne.symm hne⟩
    · rintro (rfl | ⟨hij, -⟩)
      · exact ⟨hi, .refl⟩
      · exact ⟨hi, hij⟩

theorem ListsSubtree.perm {order order' : List Nat} (h : t.ListsSubtree i order)
    (hperm : order'.Perm order) : t.ListsSubtree i order' where
  nodup := hperm.nodup_iff.mpr h.nodup
  mem_iff j := hperm.mem_iff.trans (h.mem_iff j)

/-- **From a known node the walks list the subtree as the recursion on it does, that is the node and
all nodes that it is above, each once. From an unknown number they list nothing. Either way the
stacks of the walks run empty; in post-order the stack gives out the list backwards.** -/
theorem walks_list_subtree (t : Tree) (i : Nat) :
    (i < t.size →
        t.preOrder i = (t.numbers i).preOrder ∧ t.postOrder i = (t.numbers i).postOrder ∧
          t.ListsSubtree i (t.preOrder i) ∧ t.ListsSubtree i (t.postOrder i)) ∧
      (t.size ≤ i → t.preOrder i = [] ∧ t.postOrder i = []) ∧
      t.GivesOut id (t.known i) (t.preOrder i) ∧
      t.GivesOut List.reverse (t.known i) (t.postOrder i).reverse := by
  refine ⟨?_, ?_, givesOut_walk t.visit_nil t.visit_cons _, ?_⟩
  · intro hi
    have hlists := listsSubtree_preOrder hi
    exact ⟨preOrder_eq_numbers hi, postOrder_eq_numbers hi, hlists,
      hlists.perm (t.postOrder_perm_preOrder i)⟩
  · intro hi
    have hempty := preOrder_of_le hi
    exact ⟨hempty, List.perm_nil.mp (hempty ▸ t.postOrder_perm_preOrder i)⟩
  · rw [postOrder, List.reverse_reverse]
    exact givesOut_walk (by rw [visitFromRight]) (fun i rest => by rw [visitFromRight]) _

end Tree

end CallDelta
