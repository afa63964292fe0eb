import CallDelta.Proofs.Measures
import CallDelta.Tree.Isomorphism
import Mathlib.Data.List.Forall2

/-!
# Isomorphic subtrees

Isomorphic subtrees are walked in step.

* `isomorphic_iff`: two nodes are isomorphic if they agree and their children are isomorphic in
  order
* `Isomorphic.symm`, `Isomorphic.trans`: being isomorphic passes along
* `measures_eq_of_isomorphic`: isomorphic nodes have equal measures
* `forall₂_visit`: walks over isomorphic nodes meet isomorphic nodes at the same time
* `parents_of_mem_zip_visit`: and whoever meets below the start has parents that met before
* `children_of_mem_zip_visit`: and children that meet in order
-/

namespace CallDelta

variable {src dst : Tree} {s d : Nat}

/-- Nodes that are isomorphic. -/
def Isomorphic (src dst : Tree) (s d : Nat) : Prop := isomorphic src s dst d = true

theorem isomorphic_iff :
    Isomorphic src dst s d ↔
      s < src.size ∧ d < dst.size ∧ src.typeName s = dst.typeName d ∧ src.label? s = dst.label? d ∧
        List.Forall₂ (Isomorphic src dst) (src.children s) (dst.children d) := by
  unfold Isomorphic
  rw [isomorphic, List.forall₂_iff_zip]
  by_cases hs : s < src.size
  · by_cases hd : d < dst.size
    · have hgs : src.get? s = some src.nodes[s] := Array.getElem?_eq_getElem hs
      have hgd : dst.get? d = some dst.nodes[d] := Array.getElem?_eq_getElem hd
      simp only [hgs, hgd, Tree.typeName, Tree.label?, Option.map_some, Option.getD_some,
        Option.bind_some, Bool.and_eq_true, beq_iff_eq, List.all_eq_true, List.mem_attach,
        forall_true_left, Subtype.forall, Prod.forall, hs, hd, true_and, and_assoc]
    · have hgd : dst.get? d = none := Array.getElem?_eq_none (Nat.le_of_not_lt hd)
      simp [hgd, hd]
  · have hgs : src.get? s = none := Array.getElem?_eq_none (Nat.le_of_not_lt hs)
    simp [hgs, hs]

theorem Isomorphic.children (h : Isomorphic src dst s d) :
    List.Forall₂ (Isomorphic src dst) (src.children s) (dst.children d) :=
  (isomorphic_iff.mp h).2.2.2.2

theorem Isomorphic.symm (h : Isomorphic src dst s d) : Isomorphic dst src d s := by
  induction s using Tree.induction_children (t := src) generalizing d with
  | h s ih =>
    obtain ⟨hs, hd, htype, hlabel, hchildren⟩ := isomorphic_iff.mp h
    refine isomorphic_iff.mpr ⟨hd, hs, htype.symm, hlabel.symm, List.Forall₂.flip ?_⟩
    rw [List.forall₂_iff_zip] at hchildren ⊢
    refine ⟨hchildren.1, fun {a b} hab => ?_⟩
    exact ih a (List.of_mem_zip hab).1 (hchildren.2 hab)

theorem Isomorphic.trans {mid : Tree} {i : Nat} (h : Isomorphic src mid s i)
    (h' : Isomorphic mid dst i d) : Isomorphic src dst s d := by
  induction s using Tree.induction_children (t := src) generalizing i d with
  | h s ih =>
    obtain ⟨hs, -, htype, hlabel, hchildren⟩ := isomorphic_iff.mp h
    obtain ⟨-, hd, htype', hlabel', hchildren'⟩ := isomorphic_iff.mp h'
    refine isomorphic_iff.mpr ⟨hs, hd, htype.trans htype', hlabel.trans hlabel', ?_⟩
    have hlen := hchildren.length_eq.trans hchildren'.length_eq
    refine List.forall₂_iff_get.mpr ⟨hlen, fun k hk hk' => ?_⟩
    -- the child between the two stands in the same place
    have hmid : k < (mid.children i).length := hchildren.length_eq ▸ hk
    exact ih _ (List.get_mem _ _) ((List.forall₂_iff_get.mp hchildren).2 k hk hmid)
      ((List.forall₂_iff_get.mp hchildren').2 k hmid hk')

/-- **Isomorphic nodes have equal measures.** -/
theorem measures_eq_of_isomorphic (h : Isomorphic src dst s d) :
    src.measures.of s = dst.measures.of d := by
  induction s using Tree.induction_children (t := src) generalizing d with
  | h s ih =>
    obtain ⟨hs, hd, htype, hlabel, hchildren⟩ := isomorphic_iff.mp h
    have hbelow : (src.children s).map src.measures.of = (dst.children d).map dst.measures.of := by
      refine List.forall₂_eq_eq_eq ▸ List.forall₂_map_left_iff.mpr
        (List.forall₂_map_right_iff.mpr ?_)
      refine (List.forall₂_iff_zip.mpr ⟨hchildren.length_eq, fun {a b} hab => ?_⟩)
      exact ih a (List.of_mem_zip hab).1 ((List.forall₂_iff_zip.mp hchildren).2 hab)
    rw [Tree.of_measures hs, Tree.of_measures hd, htype, hlabel, hbelow]

/-! ## Walking in step -/

/-- What passes from two nodes to their children in order holds along walks in step. -/
theorem forall₂_visit_of_children {R : Nat → Nat → Prop}
    (hR : ∀ a b, R a b → List.Forall₂ R (src.children a) (dst.children b)) {xs ys : List Nat}
    (h : List.Forall₂ R xs ys) : List.Forall₂ R (src.visit xs) (dst.visit ys) := by
  fun_induction Tree.visit src xs generalizing ys with
  | case1 =>
    cases h
    simp
  | case2 i rest ih =>
    cases h with
    | @cons _ j _ rest' hij hrest =>
      rw [Tree.visit_cons]
      exact .cons hij (ih (List.rel_append (hR i j hij) hrest))

theorem forall₂_visit {xs ys : List Nat} (h : List.Forall₂ (Isomorphic src dst) xs ys) :
    List.Forall₂ (Isomorphic src dst) (src.visit xs) (dst.visit ys) :=
  forall₂_visit_of_children (fun _ _ hab => hab.children) h

theorem forall₂_preOrder (h : Isomorphic src dst s d) :
    List.Forall₂ (Isomorphic src dst) (src.preOrder s) (dst.preOrder d) := by
  obtain ⟨hs, hd, -⟩ := isomorphic_iff.mp h
  rw [Tree.preOrder_of_lt hs, Tree.preOrder_of_lt hd]
  exact forall₂_visit (.cons h .nil)

theorem isomorphic_of_mem_zip_preOrder {s' d' : Nat} (h : Isomorphic src dst s d)
    (hmem : (s', d') ∈ (src.preOrder s).zip (dst.preOrder d)) : Isomorphic src dst s' d' :=
  (List.forall₂_iff_zip.mp (forall₂_preOrder h)).2 hmem

theorem exists_dst_mem_zip {s' : Nat} (h : Isomorphic src dst s d) (hs : s' ∈ src.preOrder s) :
    ∃ d', (s', d') ∈ (src.preOrder s).zip (dst.preOrder d) := by
  rw [← List.map_fst_zip (Nat.le_of_eq (forall₂_preOrder h).length_eq)] at hs
  obtain ⟨pair, hpair, rfl⟩ := List.mem_map.mp hs
  exact ⟨pair.2, hpair⟩

theorem exists_src_mem_zip {d' : Nat} (h : Isomorphic src dst s d) (hd : d' ∈ dst.preOrder d) :
    ∃ s', (s', d') ∈ (src.preOrder s).zip (dst.preOrder d) := by
  rw [← List.map_snd_zip (Nat.le_of_eq (forall₂_preOrder h).length_eq.symm)] at hd
  obtain ⟨pair, hpair, rfl⟩ := List.mem_map.mp hd
  exact ⟨pair.1, hpair⟩

/-- Two nodes that meet on walks in step are among the first, or their parents have met too. -/
theorem parents_of_mem_zip_visit {xs ys : List Nat}
    (h : List.Forall₂ (Isomorphic src dst) xs ys)
    (hmem : (s, d) ∈ (src.visit xs).zip (dst.visit ys)) :
    (s, d) ∈ xs.zip ys ∨ ∃ ps pd, src.parent? s = some ps ∧ dst.parent? d = some pd ∧
      (ps, pd) ∈ (src.visit xs).zip (dst.visit ys) := by
  fun_induction Tree.visit src xs generalizing ys with
  | case1 => simp at hmem
  | case2 i rest ih =>
    cases h with
    | @cons _ j _ rest' hij hrest =>
      rw [Tree.visit_cons, List.zip_cons_cons] at hmem ⊢
      rcases List.mem_cons.mp hmem with he | hmem
      · exact Or.inl (he ▸ List.mem_cons_self)
      · rcases ih (List.rel_append hij.children hrest) hmem with hfirst | ⟨ps, pd, hps, hpd, hp⟩
        · rw [List.zip_append hij.children.length_eq] at hfirst
          rcases List.mem_append.mp hfirst with hc | hr
          · -- two children of the nodes that have just met
            obtain ⟨hs, hd⟩ := List.of_mem_zip hc
            exact Or.inr ⟨i, j, Tree.mem_children.mp hs, Tree.mem_children.mp hd,
              List.mem_cons_self⟩
          · exact Or.inl (List.mem_cons_of_mem _ hr)
        · exact Or.inr ⟨ps, pd, hps, hpd, List.mem_cons_of_mem _ hp⟩

/-- Where walks in step start, they meet. -/
theorem mem_zip_visit_of_mem_zip {xs ys : List Nat}
    (h : List.Forall₂ (Isomorphic src dst) xs ys) (hmem : (s, d) ∈ xs.zip ys) :
    (s, d) ∈ (src.visit xs).zip (dst.visit ys) := by
  fun_induction Tree.visit src xs generalizing ys with
  | case1 => simp at hmem
  | case2 i rest ih =>
    cases h with
    | @cons _ j _ rest' hij hrest =>
      rw [Tree.visit_cons, List.zip_cons_cons]
      rcases List.mem_cons.mp hmem with he | hmem
      · exact he ▸ List.mem_cons_self
      · refine List.mem_cons_of_mem _ (ih (List.rel_append hij.children hrest) ?_)
        rw [List.zip_append hij.children.length_eq]
        exact List.mem_append_right _ hmem

/-- Below two nodes that meet on walks in step their children meet in order. -/
theorem children_of_mem_zip_visit {xs ys : List Nat}
    (h : List.Forall₂ (Isomorphic src dst) xs ys)
    (hmem : (s, d) ∈ (src.visit xs).zip (dst.visit ys)) :
    List.Forall₂ (fun a b => (a, b) ∈ (src.visit xs).zip (dst.visit ys))
      (src.children s) (dst.children d) := by
  fun_induction Tree.visit src xs generalizing ys with
  | case1 => simp at hmem
  | case2 i rest ih =>
    cases h with
    | @cons _ j _ rest' hij hrest =>
      have hnext := List.rel_append hij.children hrest
      rw [Tree.visit_cons, List.zip_cons_cons] at hmem ⊢
      rcases List.mem_cons.mp hmem with he | hmem
      · cases he
        refine List.forall₂_iff_zip.mpr ⟨hij.children.length_eq, fun {a b} hab => ?_⟩
        refine List.mem_cons_of_mem _ (mem_zip_visit_of_mem_zip hnext ?_)
        rw [List.zip_append hij.children.length_eq]
        exact List.mem_append_left _ hab
      · exact (ih hnext hmem).imp fun _ _ hab => List.mem_cons_of_mem _ hab

end CallDelta
