import CallDelta.Proofs.FreeSubtree
import CallDelta.Proofs.Linking
import Mathlib.Data.List.Basic

/-!
# The actions of an edit script

What a script says at a node is read off once, and later proofs do not open the script again.

* `EditScript.ofMapping_eq`: with the marks of the free subtrees the script says what their meaning
  asks for
* `EditScript.mem_atDestination_iff`, `EditScript.mem_atSource_iff`: the actions at a node, each
  with the condition under which it is taken
* `EditScript.ofMapping_eq_nil_iff`: the script is empty exactly if all nodes are paired and the
  pairs agree in labels and parents
-/

namespace CallDelta

namespace EditScript

variable {src dst : Tree} {m : Mapping} {s x : Nat} {a : Action}

/-! ## Marks and their meaning -/

/-- What happens to a destination node without a partner. -/
def insertion (dst : Tree) (m : Mapping) (x : Nat) : List Action :=
  insertionAt dst (dst.isFree m.hasDst) x

/-- The actions at a destination node. -/
def atDestination (src dst : Tree) (m : Mapping) (x : Nat) : List Action :=
  destinationActions src dst m (dst.isFree m.hasDst) x

/-- The actions at a source node. -/
def atSource (src : Tree) (m : Mapping) (s : Nat) : List Action :=
  sourceActions src m (src.isFree m.hasSrc) s

theorem insertion_eq :
    insertion dst m x =
      if !dst.isFree m.hasDst x then [.insertNode x (dst.parent? x) (dst.position x)]
      else if !dst.belowFree m.hasDst x then [.insertTree x (dst.parent? x) (dst.position x)]
      else [] := rfl

theorem atSource_eq :
    atSource src m s =
      if m.hasSrc s then []
      else if !src.isFree m.hasSrc s then [.deleteNode s]
      else if !src.belowFree m.hasSrc s then [.deleteTree s]
      else [] := rfl

/-- Marks are read at nodes of the tree only, so a table of them will do. -/
theorem any_freeMarks_parent? (t : Tree) (paired : Nat → Bool) (i : Nat) :
    (t.parent? i).any ((t.freeMarks paired).getD · false) = t.belowFree paired i := by
  unfold Tree.belowFree
  cases hp : t.parent? i with
  | none => rfl
  | some p =>
    exact Tree.getD_freeMarks (Nat.lt_trans (Tree.lt_of_parent? hp) (Tree.lt_size_of_parent? hp))

theorem destinationActions_freeMarks (hx : x < dst.size) :
    destinationActions src dst m ((dst.freeMarks m.hasDst).getD · false) x =
      atDestination src dst m x := by
  unfold atDestination destinationActions
  cases m.srcOf? x with
  | none =>
    simp only [insertionAt, any_freeMarks_parent?, Tree.getD_freeMarks hx]
    rfl
  | some s => rfl

theorem sourceActions_freeMarks (hs : s < src.size) :
    sourceActions src m ((src.freeMarks m.hasSrc).getD · false) s = atSource src m s := by
  simp only [atSource, sourceActions, any_freeMarks_parent?, Tree.getD_freeMarks hs]
  rfl

/-- **The script, with the free subtrees by their meaning.** -/
theorem ofMapping_eq (src dst : Tree) (m : Mapping) :
    ofMapping src dst m =
      dst.breadthFirst.flatMap (atDestination src dst m) ++
        (src.postOrder src.root).flatMap (atSource src m) := by
  have hdst : ∀ x ∈ dst.breadthFirst,
      destinationActions src dst m ((dst.freeMarks m.hasDst).getD · false) x =
        atDestination src dst m x :=
    fun x hx => destinationActions_freeMarks (Tree.mem_breadthFirst.mp hx)
  have hsrc : ∀ s ∈ src.postOrder src.root,
      sourceActions src m ((src.freeMarks m.hasSrc).getD · false) s = atSource src m s :=
    fun s hs => sourceActions_freeMarks (Tree.mem_postOrder_root.mp hs)
  unfold ofMapping
  dsimp only
  rw [List.flatMap_congr hdst, List.flatMap_congr hsrc]

/-! ## At a destination node -/

theorem atDestination_of_unpaired (hx : m.srcOf? x = none) :
    atDestination src dst m x = insertion dst m x := by
  unfold atDestination destinationActions
  rw [hx]
  rfl

theorem atDestination_of_paired (hx : m.srcOf? x = some s) :
    atDestination src dst m x = update src dst s x ++ relocation src dst m s x := by
  unfold atDestination destinationActions
  rw [hx]

theorem insertion_of_not_free (hf : dst.isFree m.hasDst x = false) :
    insertion dst m x = [.insertNode x (dst.parent? x) (dst.position x)] := by
  simp [insertion_eq, hf]

theorem insertion_of_isTop (ht : dst.IsTop m.hasDst x) :
    insertion dst m x = [.insertTree x (dst.parent? x) (dst.position x)] := by
  simp [insertion_eq, ht.1, ht.2]

/-- Below the top of a free subtree nothing is said. -/
theorem insertion_of_belowFree (hf : dst.isFree m.hasDst x = true)
    (hb : dst.belowFree m.hasDst x = true) : insertion dst m x = [] := by
  simp [insertion_eq, hf, hb]

theorem mem_insertion_iff :
    a ∈ insertion dst m x ↔
      (dst.isFree m.hasDst x = false ∧ a = .insertNode x (dst.parent? x) (dst.position x)) ∨
      (dst.IsTop m.hasDst x ∧ a = .insertTree x (dst.parent? x) (dst.position x)) := by
  cases hf : dst.isFree m.hasDst x with
  | false => simp [insertion_of_not_free hf, Tree.IsTop, hf]
  | true =>
    cases hb : dst.belowFree m.hasDst x with
    | false => simp [insertion_of_isTop ⟨hf, hb⟩, Tree.IsTop, hf, hb]
    | true => simp [insertion_of_belowFree hf hb, Tree.IsTop, hb]

theorem mem_update_iff :
    a ∈ update src dst s x ↔
      src.label? s ≠ dst.label? x ∧ a = .updateNode s (dst.label? x) := by
  unfold update
  by_cases h : src.label? s = dst.label? x
  · simp [h]
  · simp [h]

theorem mem_relocation_iff :
    a ∈ relocation src dst m s x ↔
      ∃ px ps, dst.parent? x = some px ∧ src.parent? s = some ps ∧ m.dstOf? ps ≠ some px ∧
        a = .move s px (dst.position x) := by
  unfold relocation
  cases hx : dst.parent? x with
  | none => simp
  | some px =>
    cases hs : src.parent? s with
    | none => simp
    | some ps =>
      by_cases h : m.dstOf? ps = some px
      · simp [h]
      · simp [h]

/-- **The actions at a destination node.** -/
theorem mem_atDestination_iff :
    a ∈ atDestination src dst m x ↔
      (m.srcOf? x = none ∧ dst.isFree m.hasDst x = false ∧
        a = .insertNode x (dst.parent? x) (dst.position x)) ∨
      (m.srcOf? x = none ∧ dst.IsTop m.hasDst x ∧
        a = .insertTree x (dst.parent? x) (dst.position x)) ∨
      (∃ s, m.srcOf? x = some s ∧ src.label? s ≠ dst.label? x ∧
        a = .updateNode s (dst.label? x)) ∨
      (∃ s px ps, m.srcOf? x = some s ∧ dst.parent? x = some px ∧ src.parent? s = some ps ∧
        m.dstOf? ps ≠ some px ∧ a = .move s px (dst.position x)) := by
  cases hx : m.srcOf? x with
  | none =>
    rw [atDestination_of_unpaired hx, mem_insertion_iff]
    simp
  | some s =>
    rw [atDestination_of_paired hx, List.mem_append, mem_update_iff, mem_relocation_iff]
    simp

/-! ## At a source node -/

theorem atSource_of_paired (hs : m.hasSrc s = true) : atSource src m s = [] := by
  simp [atSource_eq, hs]

theorem atSource_of_not_free (hs : m.hasSrc s = false) (hf : src.isFree m.hasSrc s = false) :
    atSource src m s = [.deleteNode s] := by
  simp [atSource_eq, hs, hf]

theorem atSource_of_isTop (hs : m.hasSrc s = false) (ht : src.IsTop m.hasSrc s) :
    atSource src m s = [.deleteTree s] := by
  simp [atSource_eq, hs, ht.1, ht.2]

theorem atSource_of_belowFree (hf : src.isFree m.hasSrc s = true)
    (hb : src.belowFree m.hasSrc s = true) : atSource src m s = [] := by
  simp [atSource_eq, hf, hb]

/-- **The actions at a source node.** -/
theorem mem_atSource_iff :
    a ∈ atSource src m s ↔
      (m.hasSrc s = false ∧ src.isFree m.hasSrc s = false ∧ a = .deleteNode s) ∨
      (m.hasSrc s = false ∧ src.IsTop m.hasSrc s ∧ a = .deleteTree s) := by
  cases hs : m.hasSrc s with
  | true => simp [atSource_of_paired hs]
  | false =>
    cases hf : src.isFree m.hasSrc s with
    | false => simp [atSource_of_not_free hs hf, Tree.IsTop, hf]
    | true =>
      cases hb : src.belowFree m.hasSrc s with
      | false => simp [atSource_of_isTop hs ⟨hf, hb⟩, Tree.IsTop, hf, hb]
      | true => simp [atSource_of_belowFree hf hb, Tree.IsTop, hb]

/-! ## The whole script -/

theorem mem_ofMapping_iff :
    a ∈ ofMapping src dst m ↔
      (∃ x, x < dst.size ∧ a ∈ atDestination src dst m x) ∨
      (∃ s, s < src.size ∧ a ∈ atSource src m s) := by
  simp only [ofMapping_eq, List.mem_append, List.mem_flatMap, Tree.mem_breadthFirst,
    Tree.mem_postOrder_root]

/-- A destination node without a partner is inserted, by itself or with the free subtree it is
in. -/
theorem exists_insertion (src : Tree) (hx : x < dst.size) (hfree : m.srcOf? x = none) :
    ∃ a, a ∈ ofMapping src dst m := by
  cases hf : dst.isFree m.hasDst x with
  | false =>
    exact ⟨_, mem_ofMapping_iff.mpr (Or.inl
      ⟨x, hx, mem_atDestination_iff.mpr (Or.inl ⟨hfree, hf, rfl⟩)⟩)⟩
  | true =>
    obtain ⟨y, hy, htop, -⟩ := Tree.exists_top hx hf
    have hyfree := Mapping.hasDst_eq_false_iff.mp (Tree.paired_eq_false_of_isFree hy htop.1)
    exact ⟨_, mem_ofMapping_iff.mpr (Or.inl
      ⟨y, hy, mem_atDestination_iff.mpr (Or.inr (Or.inl ⟨hyfree, htop, rfl⟩))⟩)⟩

/-- A source node without a partner is deleted, by itself or with the free subtree it is in. -/
theorem exists_deletion (dst : Tree) (hs : s < src.size) (hfree : m.hasSrc s = false) :
    ∃ a, a ∈ ofMapping src dst m := by
  cases hf : src.isFree m.hasSrc s with
  | false =>
    exact ⟨_, mem_ofMapping_iff.mpr (Or.inr
      ⟨s, hs, mem_atSource_iff.mpr (Or.inl ⟨hfree, hf, rfl⟩)⟩)⟩
  | true =>
    obtain ⟨y, hy, htop, -⟩ := Tree.exists_top hs hf
    exact ⟨_, mem_ofMapping_iff.mpr (Or.inr ⟨y, hy, mem_atSource_iff.mpr
      (Or.inr ⟨Tree.paired_eq_false_of_isFree hy htop.1, htop, rfl⟩)⟩)⟩

/-- **A script is empty exactly if all nodes are paired and the pairs agree in labels and parents.**
A pair with a root in it has no parents to agree in. -/
theorem ofMapping_eq_nil_iff :
    ofMapping src dst m = [] ↔
      (∀ s, s < src.size → m.hasSrc s = true) ∧ (∀ x, x < dst.size → m.hasDst x = true) ∧
      ∀ s x, x < dst.size → m.srcOf? x = some s →
        src.label? s = dst.label? x ∧
        ∀ px ps, dst.parent? x = some px → src.parent? s = some ps → m.dstOf? ps = some px := by
  rw [List.eq_nil_iff_forall_not_mem]
  constructor
  · -- whatever is not as stated puts an action into the script
    intro h
    refine ⟨fun s hs => ?_, fun x hx => ?_, fun s x hx hsx => ⟨?_, fun px ps hpx hps => ?_⟩⟩
    · cases hfree : m.hasSrc s with
      | true => rfl
      | false =>
        obtain ⟨a, ha⟩ := exists_deletion dst hs hfree
        exact absurd ha (h a)
    · cases hfree : m.hasDst x with
      | true => rfl
      | false =>
        obtain ⟨a, ha⟩ := exists_insertion src hx (Mapping.hasDst_eq_false_iff.mp hfree)
        exact absurd ha (h a)
    · refine Decidable.byContradiction fun hne => ?_
      exact h _ (mem_ofMapping_iff.mpr (Or.inl ⟨x, hx, mem_atDestination_iff.mpr
        (Or.inr (Or.inr (Or.inl ⟨s, hsx, hne, rfl⟩)))⟩))
    · refine Decidable.byContradiction fun hne => ?_
      exact h _ (mem_ofMapping_iff.mpr (Or.inl ⟨x, hx, mem_atDestination_iff.mpr
        (Or.inr (Or.inr (Or.inr ⟨s, px, ps, hsx, hpx, hps, hne, rfl⟩)))⟩))
  · rintro ⟨hsrc, hdst, hpairs⟩ a ha
    rcases mem_ofMapping_iff.mp ha with ⟨x, hx, ha⟩ | ⟨s, hs, ha⟩
    · obtain ⟨s, hsx⟩ := Mapping.hasDst_iff.mp (hdst x hx)
      obtain ⟨hlabel, hparent⟩ := hpairs s x hx hsx
      rw [atDestination_of_paired hsx, List.mem_append, mem_update_iff, mem_relocation_iff] at ha
      rcases ha with ⟨hne, -⟩ | ⟨px, ps, hpx, hps, hne, -⟩
      · exact hne hlabel
      · exact hne (hparent px ps hpx hps)
    · rw [atSource_of_paired (hsrc s hs)] at ha
      cases ha

end EditScript

end CallDelta
