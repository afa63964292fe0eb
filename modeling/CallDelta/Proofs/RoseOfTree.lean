import CallDelta.Proofs.Isomorphism
import CallDelta.Tree.Growth

/-!
# Trees and rose trees

The subtree of a node is read back as a rose tree, without numbers. A rose tree that is grafted into
a tree is numbered in pre-order; grafting adds nodes behind the old ones and touches only the
children of the node that it grafts below (`Tree.GrowsBelow`), so that what is there can be read
back.

* `Tree.rose_ofRose`: a rose tree that is numbered and read back is itself
* `Tree.preOrder_ofRose`: its numbers follow the pre-order
* `Tree.everywhere_rose`: what holds everywhere in a rose tree holds at every node
* `isomorphic_iff_rose`: nodes are isomorphic if their rose trees agree in type names and labels
-/

namespace CallDelta

namespace Rose

variable {α β : Type}

mutual

/-- The rose tree with each value replaced. -/
def map (f : α → β) : Rose α → Rose β
  | node a rs => node (f a) (mapAll f rs)

/-- The same for a list of rose trees. -/
def mapAll (f : α → β) : List (Rose α) → List (Rose β)
  | [] => []
  | r :: rs => map f r :: mapAll f rs

end

theorem mapAll_eq_map (f : α → β) (rs : List (Rose α)) : mapAll f rs = rs.map (map f) := by
  induction rs with
  | nil => rfl
  | cons r rs ih => rw [mapAll, ih, List.map_cons]

theorem map_node (f : α → β) (a : α) (rs : List (Rose α)) :
    map f (node a rs) = node (f a) (rs.map (map f)) := by
  rw [map, mapAll_eq_map]

mutual

/-- Rose trees are compared value by value. -/
def decEq [DecidableEq α] : (r s : Rose α) → Decidable (r = s)
  | node a rs, node b ss =>
    match (inferInstance : Decidable (a = b)), decEqAll rs ss with
    | isTrue hab, isTrue hrs => isTrue (by rw [hab, hrs])
    | isFalse hab, _ => isFalse fun h => hab (node.inj h).1
    | _, isFalse hrs => isFalse fun h => hrs (node.inj h).2

/-- The same for lists of rose trees. -/
def decEqAll [DecidableEq α] : (rs ss : List (Rose α)) → Decidable (rs = ss)
  | [], [] => isTrue rfl
  | [], _ :: _ => isFalse nofun
  | _ :: _, [] => isFalse nofun
  | r :: rs, s :: ss =>
    match decEq r s, decEqAll rs ss with
    | isTrue hr, isTrue hrs => isTrue (by rw [hr, hrs])
    | isFalse hr, _ => isFalse fun h => hr (List.cons.inj h).1
    | _, isFalse hrs => isFalse fun h => hrs (List.cons.inj h).2

end

instance [DecidableEq α] : DecidableEq (Rose α) := decEq

mutual

/-- A rose tree and all rose trees in it, in pre-order. -/
def subtrees : Rose α → List (Rose α)
  | node a rs => node a rs :: subtreesAll rs

/-- The same for a list of rose trees. -/
def subtreesAll : List (Rose α) → List (Rose α)
  | [] => []
  | r :: rs => subtrees r ++ subtreesAll rs

end

theorem subtreesAll_eq_flatMap (rs : List (Rose α)) : subtreesAll rs = rs.flatMap subtrees := by
  induction rs with
  | nil => rfl
  | cons r rs ih => rw [subtreesAll, ih, List.flatMap_cons]

theorem subtrees_node (a : α) (rs : List (Rose α)) :
    (node a rs).subtrees = node a rs :: rs.flatMap subtrees := by
  rw [subtrees, subtreesAll_eq_flatMap]

/-- A rule about a value and what is below it holds at every place. -/
inductive Everywhere (P : α → List (Rose α) → Prop) : Rose α → Prop
  | node {a : α} {rs : List (Rose α)} :
    P a rs → (∀ r ∈ rs, Everywhere P r) → Everywhere P (.node a rs)

theorem everywhere_node_iff {P : α → List (Rose α) → Prop} {a : α} {rs : List (Rose α)} :
    Everywhere P (node a rs) ↔ P a rs ∧ ∀ r ∈ rs, Everywhere P r := by
  constructor
  · rintro ⟨ha, hrs⟩
    exact ⟨ha, hrs⟩
  · rintro ⟨ha, hrs⟩
    exact .node ha hrs

mutual

/-- A rule that can be checked at one place can be checked everywhere. -/
def decideEverywhere (P : α → List (Rose α) → Prop) [∀ a rs, Decidable (P a rs)] :
    (r : Rose α) → Decidable (r.Everywhere P)
  | node _ rs =>
    have : Decidable (∀ r ∈ rs, r.Everywhere P) := decideEverywhereAll P rs
    decidable_of_iff _ everywhere_node_iff.symm

/-- The same for a list of rose trees. -/
def decideEverywhereAll (P : α → List (Rose α) → Prop) [∀ a rs, Decidable (P a rs)] :
    (rs : List (Rose α)) → Decidable (∀ r ∈ rs, r.Everywhere P)
  | [] => isTrue fun _ hr => absurd hr List.not_mem_nil
  | r :: rs =>
    have : Decidable (r.Everywhere P) := decideEverywhere P r
    have : Decidable (∀ r ∈ rs, r.Everywhere P) := decideEverywhereAll P rs
    decidable_of_iff _ List.forall_mem_cons.symm

end

instance (P : α → List (Rose α) → Prop) [∀ a rs, Decidable (P a rs)] (r : Rose α) :
    Decidable (r.Everywhere P) := decideEverywhere P r

theorem everywhere_of_forall {P : α → List (Rose α) → Prop} (h : ∀ a rs, P a rs) :
    ∀ r : Rose α, r.Everywhere P
  | .node a rs => .node (h a rs) fun r _ => everywhere_of_forall h r

end Rose

theorem range'_append_of_le {a b c : Nat} (hab : a ≤ b) (hbc : b ≤ c) :
    List.range' a (b - a) ++ List.range' b (c - b) = List.range' a (c - a) := by
  obtain ⟨m, rfl⟩ := Nat.exists_eq_add_of_le hab
  obtain ⟨n, rfl⟩ := Nat.exists_eq_add_of_le hbc
  rw [Nat.add_sub_cancel_left, Nat.add_sub_cancel_left, List.range'_append_1, Nat.add_assoc,
    Nat.add_sub_cancel_left]

namespace Tree

variable {t t' : Tree} {i j p : Nat} {news : List Nat}

/-- What a node says about itself. An unknown number says nothing. -/
def data (t : Tree) (i : Nat) : NodeData :=
  ((t.get? i).map (·.toNodeData)).getD { kind := .other, typeName := "" }

theorem typeName_eq_data (t : Tree) (i : Nat) : t.typeName i = (t.data i).typeName := by
  unfold typeName data
  cases t.get? i <;> rfl

theorem label?_eq_data (t : Tree) (i : Nat) : t.label? i = (t.data i).label := by
  unfold label? data
  cases t.get? i <;> rfl

theorem span?_eq_data (t : Tree) (i : Nat) : t.span? i = (t.data i).span := by
  unfold span? data
  cases t.get? i <;> rfl

theorem kind?_eq_data (hi : i < t.size) : t.kind? i = some (t.data i).kind := by
  unfold kind? data get?
  rw [Array.getElem?_eq_getElem hi]
  rfl

theorem lt_size_of_kind? {kind : NodeKind} (h : t.kind? i = some kind) : i < t.size := by
  obtain ⟨_, hn, -⟩ := Option.map_eq_some_iff.mp h
  exact (Array.getElem?_eq_some_iff.mp hn).1

theorem lt_size_of_typeName (h : t.typeName i ≠ "") : i < t.size := by
  by_contra hi
  refine h ?_
  unfold typeName get?
  rw [Array.getElem?_eq_none (Nat.le_of_not_lt hi)]
  rfl

/-- The rose tree below a node. -/
def rose (t : Tree) (i : Nat) : Rose NodeData :=
  .node (t.data i) ((t.children i).attach.map (fun c => t.rose c.1))
termination_by t.size - i
decreasing_by
  have h₁ := lt_of_mem_children c.2
  have h₂ := lt_size_of_mem_children c.2
  omega

theorem rose_eq (t : Tree) (i : Nat) : t.rose i = .node (t.data i) ((t.children i).map t.rose) := by
  conv => rhs; rw [← List.attach_map_subtype_val (t.children i), List.map_map]
  rw [rose]
  rfl

theorem value_rose (t : Tree) (i : Nat) : (t.rose i).value = t.data i := by
  rw [rose_eq]
  rfl

theorem map_rose_visit (t : Tree) (stack : List Nat) :
    (t.visit stack).map t.rose = stack.flatMap (fun i => (t.rose i).subtrees) := by
  fun_induction visit t stack with
  | case1 => rfl
  | case2 i rest ih =>
    have hi : (t.rose i).subtrees =
        t.rose i :: (t.children i).flatMap (fun c => (t.rose c).subtrees) := by
      rw [rose_eq, Rose.subtrees_node, List.flatMap_map]
    rw [List.map_cons, ih, List.flatMap_append, List.flatMap_cons, hi, List.cons_append]

/-- A walk in pre-order meets the rose trees in the order in which they stand in each other. -/
theorem map_rose_preOrder (hi : i < t.size) : (t.preOrder i).map t.rose = (t.rose i).subtrees := by
  rw [preOrder_of_lt hi, map_rose_visit, List.flatMap_singleton]

theorem everywhere_rose {P : NodeData → List (Rose NodeData) → Prop} (h : (t.rose i).Everywhere P)
    (hij : t.Within i j) : P (t.data j) ((t.children j).map t.rose) := by
  have hall : (t.rose j).Everywhere P := by
    induction hij with
    | refl => exact h
    | @step j p hp _ ih =>
      rw [rose_eq, Rose.everywhere_node_iff] at ih
      exact ih.2 _ (List.mem_map_of_mem (mem_children.mpr hp))
  rw [rose_eq, Rose.everywhere_node_iff] at hall
  exact hall.1

/-! ## One more node -/

theorem size_add (hp : p < t.size) (data : NodeData) : (t.add p data).size = t.size + 1 := by
  have hp' : p < t.nodes.size := hp
  simp [add, add?, hp', size]

theorem get?_add (hp : p < t.size) (data : NodeData) (i : Nat) :
    (t.add p data).get? i = (grow t.nodes p data)[i]? := by
  have hp' : p < t.nodes.size := hp
  simp [add, add?, hp', get?]

theorem data_add_of_lt (hp : p < t.size) (data : NodeData) (hi : i < t.size) :
    (t.add p data).data i = t.data i := by
  have hne : ¬ i = t.nodes.size := Nat.ne_of_lt hi
  unfold Tree.data
  rw [get?_add hp, get?, grow, Array.getElem?_push, Array.size_modify, if_neg hne,
    Array.getElem?_modify]
  by_cases hpi : p = i
  · rw [if_pos hpi, Option.map_map]
    rfl
  · rw [if_neg hpi]

theorem data_add_size (hp : p < t.size) (data : NodeData) : (t.add p data).data t.size = data := by
  unfold Tree.data
  rw [get?_add hp, grow, Array.getElem?_push, Array.size_modify, size, if_pos rfl]
  rfl

theorem children_add_of_lt (hp : p < t.size) (data : NodeData) (hi : i < t.size) :
    (t.add p data).children i = t.children i ++ if p = i then [t.size] else [] := by
  have hi' : i < (grow t.nodes p data).size := by
    rw [size_grow]
    exact Nat.lt_succ_of_lt hi
  unfold children
  rw [get?_add hp, get?, Array.getElem?_eq_getElem hi', Array.getElem?_eq_getElem hi]
  exact children_grow t.nodes p data i hi hi'

theorem children_add_size (hp : p < t.size) (data : NodeData) :
    (t.add p data).children t.size = [] := by
  have hsize : t.nodes.size < (grow t.nodes p data).size := by
    rw [size_grow]
    exact Nat.lt_succ_self _
  unfold children
  rw [get?_add hp, size, Array.getElem?_eq_getElem hsize]
  exact children_grow_size t.nodes p data hsize

/-! ## Grafting -/

/-- Tree `t'` is `t` with more nodes, all of them below `p`, where `news` are its new children. -/
structure GrowsBelow (t t' : Tree) (p : Nat) (news : List Nat) : Prop where
  size_le : t.size ≤ t'.size
  data_eq : ∀ i, i < t.size → t'.data i = t.data i
  children_eq_of_ne : ∀ i, i < t.size → i ≠ p → t'.children i = t.children i
  children_parent : t'.children p = t.children p ++ news

theorem GrowsBelow.refl (t : Tree) (p : Nat) : GrowsBelow t t p [] where
  size_le := Nat.le_refl _
  data_eq _ _ := rfl
  children_eq_of_ne _ _ _ := rfl
  children_parent := (List.append_nil _).symm

theorem GrowsBelow.trans {t'' : Tree} {more : List Nat} (h : GrowsBelow t t' p news)
    (h' : GrowsBelow t' t'' p more) : GrowsBelow t t'' p (news ++ more) where
  size_le := Nat.le_trans h.size_le h'.size_le
  data_eq i hi := (h'.data_eq i (Nat.lt_of_lt_of_le hi h.size_le)).trans (h.data_eq i hi)
  children_eq_of_ne i hi hne :=
    (h'.children_eq_of_ne i (Nat.lt_of_lt_of_le hi h.size_le) hne).trans
      (h.children_eq_of_ne i hi hne)
  children_parent := by
    rw [h'.children_parent, h.children_parent, List.append_assoc]

/-- The new children are nodes. -/
theorem GrowsBelow.lt_size_of_mem (h : GrowsBelow t t' p news) (hi : i ∈ news) : i < t'.size := by
  have hmem : i ∈ t'.children p := by
    rw [h.children_parent]
    exact List.mem_append_right _ hi
  exact lt_size_of_mem_children hmem

/-- Behind the node that grows nothing changes. -/
theorem GrowsBelow.rose_eq (h : GrowsBelow t t' p news) (hi : i < t.size) (hpi : p < i) :
    t'.rose i = t.rose i := by
  induction i using induction_children (t := t) with
  | h i ih =>
    rw [Tree.rose_eq, Tree.rose_eq, h.data_eq i hi, h.children_eq_of_ne i hi (Nat.ne_of_gt hpi)]
    refine congrArg (Rose.node _) (List.map_congr_left fun c hc => ?_)
    exact ih c hc (lt_size_of_mem_children hc) (Nat.lt_trans hpi (lt_of_mem_children hc))

/-- Neither does a walk behind that node. -/
theorem GrowsBelow.visit_eq (h : GrowsBelow t t' p news) {stack : List Nat}
    (hstack : ∀ i ∈ stack, p < i ∧ i < t.size) : t'.visit stack = t.visit stack := by
  fun_induction visit t stack with
  | case1 => exact visit_nil t'
  | case2 i rest ih =>
    obtain ⟨hpi, hi⟩ := hstack i List.mem_cons_self
    rw [visit_cons, h.children_eq_of_ne i hi (Nat.ne_of_gt hpi), ih]
    intro j hj
    rcases List.mem_append.mp hj with hj | hj
    · exact ⟨Nat.lt_trans hpi (lt_of_mem_children hj), lt_size_of_mem_children hj⟩
    · exact hstack j (List.mem_cons_of_mem _ hj)

/-- A node with what is grafted below it. -/
theorem GrowsBelow.of_add (hp : p < t.size) {data : NodeData}
    (h : GrowsBelow (t.add p data) t' t.size news) : GrowsBelow t t' p [t.size] where
  size_le := by
    have := h.size_le
    rw [size_add hp] at this
    omega
  data_eq i hi := by
    have hi' : i < (t.add p data).size := by
      rw [size_add hp]
      omega
    rw [h.data_eq i hi', data_add_of_lt hp data hi]
  children_eq_of_ne i hi hne := by
    have hi' : i < (t.add p data).size := by
      rw [size_add hp]
      omega
    rw [h.children_eq_of_ne i hi' (Nat.ne_of_lt hi), children_add_of_lt hp data hi,
      if_neg (Ne.symm hne), List.append_nil]
  children_parent := by
    have hp' : p < (t.add p data).size := by
      rw [size_add hp]
      omega
    rw [h.children_eq_of_ne p hp' (Nat.ne_of_lt hp), children_add_of_lt hp data hp, if_pos rfl]

mutual

/-- A grafted rose tree is read back below the number of its top, and a walk from there counts its
nodes in order. -/
theorem graft_grows : ∀ (r : Rose NodeData) (t : Tree) (p : Nat), p < t.size →
    GrowsBelow t (t.graft p r) p [t.size] ∧ (t.graft p r).rose t.size = r ∧
      (t.graft p r).visit [t.size] = List.range' t.size ((t.graft p r).size - t.size)
  | .node data rs, t, p, hp => by
    have hsize := size_add hp data
    have hlt : t.size < (t.add p data).size := by omega
    obtain ⟨news, hgrows, hnews, hvisit⟩ := graftAll_grows rs (t.add p data) t.size hlt
    have hle := hgrows.size_le
    have hchildren := hgrows.children_parent
    rw [children_add_size hp, List.nil_append] at hchildren
    rw [graft]
    refine ⟨hgrows.of_add hp, ?_, ?_⟩
    · rw [Tree.rose_eq, hgrows.data_eq _ hlt, data_add_size hp, hchildren, hnews]
    · rw [visit_cons, hchildren, List.append_nil, hvisit, hsize, ← List.range'_succ]
      congr 1
      omega

theorem graftAll_grows : ∀ (rs : List (Rose NodeData)) (t : Tree) (p : Nat), p < t.size →
    ∃ news, GrowsBelow t (t.graftAll p rs) p news ∧ news.map (t.graftAll p rs).rose = rs ∧
      (t.graftAll p rs).visit news = List.range' t.size ((t.graftAll p rs).size - t.size)
  | [], t, p, _ => ⟨[], .refl t p, rfl, by rw [graftAll, visit_nil, Nat.sub_self, List.range'_zero]⟩
  | r :: rs, t, p, hp => by
    obtain ⟨hfirst, hr, hcount⟩ := graft_grows r t p hp
    obtain ⟨news, hrest, hnews, hvisit⟩ :=
      graftAll_grows rs (t.graft p r) p (Nat.lt_of_lt_of_le hp hfirst.size_le)
    have hlt : t.size < (t.graft p r).size := hfirst.lt_size_of_mem List.mem_cons_self
    rw [graftAll]
    refine ⟨t.size :: news, hfirst.trans hrest, ?_, ?_⟩
    · -- the first rose tree lies behind `p`, so the later ones leave it as it is
      rw [List.map_cons, hnews, hrest.rose_eq hlt hp, hr]
    · have hsame : ((t.graft p r).graftAll p rs).visit [t.size] = (t.graft p r).visit [t.size] :=
        hrest.visit_eq (by simpa using ⟨hp, hlt⟩)
      rw [← List.singleton_append, visit_append, hsame, hcount, hvisit,
        range'_append_of_le hfirst.size_le hrest.size_le]

end

/-- **A rose tree that is numbered and read back is itself.** -/
theorem rose_ofRose (r : Rose NodeData) : (ofRose r).rose (ofRose r).root = r := by
  obtain ⟨data, rs⟩ := r
  obtain ⟨news, hgrows, hnews, -⟩ := graftAll_grows rs (single data) 0 Nat.zero_lt_one
  rw [ofRose, root, rose_eq, hgrows.data_eq 0 Nat.zero_lt_one, hgrows.children_parent]
  exact congrArg (Rose.node data) hnews

/-- **A rose tree is numbered in pre-order.** -/
theorem preOrder_ofRose (r : Rose NodeData) :
    (ofRose r).preOrder (ofRose r).root = (ofRose r).ids := by
  obtain ⟨data, rs⟩ := r
  obtain ⟨news, hgrows, -, hvisit⟩ := graftAll_grows rs (single data) 0 Nat.zero_lt_one
  have hchildren : (ofRose (.node data rs)).children 0 = news := hgrows.children_parent
  have hpos : 0 < (ofRose (.node data rs)).size := root_lt_size _
  have hwalk : (ofRose (.node data rs)).visit news =
      List.range' (0 + 1) ((ofRose (.node data rs)).size - 1) := hvisit
  rw [preOrder_eq_cons (root_lt_size _), root, hchildren, hwalk, ← List.range'_succ, ids,
    List.range_eq_range', Nat.sub_add_cancel hpos]

end Tree

/-! ## Isomorphic nodes -/

/-- What matters for the comparison of nodes. -/
def NodeData.content (d : NodeData) : String × Option String := (d.typeName, d.label)

theorem forall₂_iff_map_eq {f g : Nat → Rose (String × Option String)} {R : Nat → Nat → Prop} :
    ∀ {xs ys : List Nat}, (∀ x ∈ xs, ∀ y ∈ ys, R x y ↔ f x = g y) →
      (List.Forall₂ R xs ys ↔ xs.map f = ys.map g)
  | [], [], _ => by simp
  | [], y :: ys, _ => by simp
  | x :: xs, [], _ => by simp
  | x :: xs, y :: ys, h => by
    have hrest : ∀ a ∈ xs, ∀ b ∈ ys, R a b ↔ f a = g b := fun a ha b hb =>
      h a (List.mem_cons_of_mem _ ha) b (List.mem_cons_of_mem _ hb)
    rw [List.forall₂_cons, List.map_cons, List.map_cons, List.cons.injEq, forall₂_iff_map_eq hrest,
      h x List.mem_cons_self y List.mem_cons_self]

/-- **Known nodes are isomorphic exactly if their rose trees agree in type names and labels.** -/
theorem isomorphic_iff_rose {src dst : Tree} {s d : Nat} (hs : s < src.size) (hd : d < dst.size) :
    Isomorphic src dst s d ↔ (src.rose s).map (·.content) = (dst.rose d).map (·.content) := by
  induction s using Tree.induction_children (t := src) generalizing d with
  | h s ih =>
    have hchildren : List.Forall₂ (Isomorphic src dst) (src.children s) (dst.children d) ↔
        (src.children s).map (fun c => (src.rose c).map (·.content)) =
          (dst.children d).map (fun c => (dst.rose c).map (·.content)) :=
      forall₂_iff_map_eq fun a ha b hb =>
        ih a ha (Tree.lt_size_of_mem_children ha) (Tree.lt_size_of_mem_children hb)
    rw [isomorphic_iff, src.rose_eq, dst.rose_eq, Rose.map_node, Rose.map_node, Rose.node.injEq,
      List.map_map, List.map_map, hchildren, NodeData.content, NodeData.content, Prod.mk.injEq,
      src.typeName_eq_data, dst.typeName_eq_data, src.label?_eq_data, dst.label?_eq_data]
    simp [hs, hd, and_assoc, Function.comp_def]

end CallDelta
