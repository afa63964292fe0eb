import CallDelta.Proofs.Isomorphism
import CallDelta.Proofs.Linking

/-!
# Subtrees that are paired in step

Two isomorphic subtrees are walked in pre-order, and whoever meets is paired. What a script could
find to edit in such subtrees is read off here: their nodes are paired, partners have equal labels,
and below the tops the parents of partners are partners.
-/

namespace CallDelta

variable {src dst : Tree} {m : Mapping} {s d i x : Nat}

/-- Isomorphic subtrees whose nodes are paired in pre-order. -/
structure PairedInStep (m : Mapping) (src dst : Tree) (s d : Nat) : Prop where
  isomorphic : Isomorphic src dst s d
  pairs : List.Forall₂ (fun a b => m.dstOf? a = some b) (src.preOrder s) (dst.preOrder d)

namespace PairedInStep

theorem dstOf?_of_mem_zip (h : PairedInStep m src dst s d)
    (hmem : (i, x) ∈ (src.preOrder s).zip (dst.preOrder d)) : m.dstOf? i = some x :=
  (List.forall₂_iff_zip.mp h.pairs).2 hmem

/-- The partner of a node in the source subtree is the one that it meets. -/
theorem mem_zip_of_dstOf? (h : PairedInStep m src dst s d) (hi : i ∈ src.preOrder s)
    (hix : m.dstOf? i = some x) : (i, x) ∈ (src.preOrder s).zip (dst.preOrder d) := by
  obtain ⟨y, hmem⟩ := exists_dst_mem_zip h.isomorphic hi
  rw [h.dstOf?_of_mem_zip hmem] at hix
  cases hix
  exact hmem

theorem hasSrc (h : PairedInStep m src dst s d) (hi : i ∈ src.preOrder s) : m.hasSrc i = true := by
  obtain ⟨y, hmem⟩ := exists_dst_mem_zip h.isomorphic hi
  exact Mapping.hasSrc_iff.mpr ⟨y, h.dstOf?_of_mem_zip hmem⟩

theorem hasDst (h : PairedInStep m src dst s d) (hx : x ∈ dst.preOrder d) : m.hasDst x = true := by
  obtain ⟨j, hmem⟩ := exists_src_mem_zip h.isomorphic hx
  exact Mapping.hasDst_iff.mpr ⟨j, Mapping.dstOf?_eq_some_iff.mp (h.dstOf?_of_mem_zip hmem)⟩

theorem label?_eq (h : PairedInStep m src dst s d) (hi : i ∈ src.preOrder s)
    (hix : m.dstOf? i = some x) : src.label? i = dst.label? x := by
  have hmet := isomorphic_of_mem_zip_preOrder h.isomorphic (h.mem_zip_of_dstOf? hi hix)
  exact (isomorphic_iff.mp hmet).2.2.2.1

theorem dstOf?_parent (h : PairedInStep m src dst s d) (hi : i ∈ src.descendants s)
    (hix : m.dstOf? i = some x) {pi px : Nat} (hpi : src.parent? i = some pi)
    (hpx : dst.parent? x = some px) : m.dstOf? pi = some px := by
  obtain ⟨hs, hwithin, hne⟩ := Tree.mem_descendants_iff.mp hi
  have hd := (isomorphic_iff.mp h.isomorphic).2.1
  have hmem := h.mem_zip_of_dstOf? (Tree.mem_preOrder_iff.mpr ⟨hs, hwithin⟩) hix
  rw [Tree.preOrder_of_lt hs, Tree.preOrder_of_lt hd] at hmem
  rcases parents_of_mem_zip_visit (.cons h.isomorphic .nil) hmem with htop |
    ⟨pi', px', hpi', hpx', hmet⟩
  · -- the tops meet first, and `i` lies below its top
    cases List.mem_singleton.mp htop
    exact absurd rfl hne
  · rw [← Tree.preOrder_of_lt hs, ← Tree.preOrder_of_lt hd] at hmet
    rw [hpi] at hpi'
    rw [hpx] at hpx'
    cases hpi'
    cases hpx'
    exact h.dstOf?_of_mem_zip hmet

end PairedInStep

end CallDelta
