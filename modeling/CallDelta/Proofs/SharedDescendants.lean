import CallDelta.Matching.Match
import CallDelta.Proofs.Linking
import CallDelta.Proofs.Measures
import CallDelta.Tree.Growth
import Mathlib.Data.List.Nodup
import Mathlib.Data.List.Perm.Subperm
import Mathlib.Data.Set.Function

/-!
# Shared descendants

How similar two nodes are is worked out from two numbers: the descendants that they share, found by
a walk on the source side and a climb on the destination side, and the descendants of both, taken
from the table of measures. A mapping is one to one, so neither node has fewer descendants than the
two share.

* `MatchProblem.mem_candidates_iff_candidate`: what the candidates are
* `MatchProblem.sharedBelow_eq_src_iff`, `MatchProblem.sharedBelow_eq_dst_iff`: when all descendants
  of a node are shared
* `MatchProblem.shared_of_candidates`: the bounds, and when they are reached
-/

namespace CallDelta

namespace MatchProblem

variable {p : MatchProblem} {m : Mapping} {s d shared : Nat}

/-! ## The shared descendants -/

/-- Node `j` is a descendant of `d` and the partner of a descendant of `s`. -/
theorem mem_sharedPartners_iff {j : Nat} :
    j ∈ (p.partnersBelow m s).filter (p.dst.isAncestor d) ↔
      j ∈ p.dst.descendants d ∧ ∃ i ∈ p.src.descendants s, m.dstOf? i = some j := by
  rw [List.mem_filter, partnersBelow, List.mem_filterMap, Tree.isAncestor_iff_mem_descendants,
    and_comm]

/-- No descendant of the destination node is the partner of two nodes. -/
theorem sharedPartners_subperm (p : MatchProblem) (m : Mapping) (s d : Nat) :
    ((p.partnersBelow m s).filter (p.dst.isAncestor d)).Subperm (p.dst.descendants d) := by
  have hnodup : (p.partnersBelow m s).Nodup := by
    refine List.Nodup.filterMap ?_ (p.src.preOrder_nodup s).tail
    intro i i' j hi hi'
    exact Mapping.dstOf?_injective hi hi'
  refine List.subperm_of_subset (hnodup.filter _) ?_
  intro j hj
  exact (mem_sharedPartners_iff.mp hj).1

/-- The same number, counted on the source side. -/
theorem sharedBelow_eq_countP (p : MatchProblem) (m : Mapping) (s d : Nat) :
    p.sharedBelow m s d =
      (p.src.descendants s).countP (fun i => (m.dstOf? i).any (p.dst.isAncestor d)) := by
  unfold sharedBelow partnersBelow
  induction p.src.descendants s with
  | nil => rfl
  | cons i is ih =>
    rw [List.countP_cons, ← ih]
    cases hi : m.dstOf? i with
    | none => simp [hi]
    | some j => by_cases hj : p.dst.isAncestor d j = true <;> simp [hi, hj]

theorem sharedBelow_le_src (p : MatchProblem) (m : Mapping) (s d : Nat) :
    p.sharedBelow m s d ≤ (p.src.descendants s).length := by
  rw [sharedBelow_eq_countP]
  exact List.countP_le_length

theorem sharedBelow_le_dst (p : MatchProblem) (m : Mapping) (s d : Nat) :
    p.sharedBelow m s d ≤ (p.dst.descendants d).length :=
  (p.sharedPartners_subperm m s d).length_le

/-- All descendants of the source node are shared. -/
theorem sharedBelow_eq_src_iff :
    p.sharedBelow m s d = (p.src.descendants s).length ↔
      ∀ i ∈ p.src.descendants s, ∃ j ∈ p.dst.descendants d, m.dstOf? i = some j := by
  rw [sharedBelow_eq_countP, List.countP_eq_length]
  refine forall₂_congr fun i _ => ?_
  rw [Option.any_eq_true]
  constructor
  · rintro ⟨j, hj, hanc⟩
    exact ⟨j, Tree.isAncestor_iff_mem_descendants.mp hanc, hj⟩
  · rintro ⟨j, hj, hij⟩
    exact ⟨j, hij, Tree.isAncestor_iff_mem_descendants.mpr hj⟩

/-- All descendants of the destination node are shared. -/
theorem sharedBelow_eq_dst_iff :
    p.sharedBelow m s d = (p.dst.descendants d).length ↔
      ∀ j ∈ p.dst.descendants d, ∃ i ∈ p.src.descendants s, m.dstOf? i = some j := by
  have hsubperm := p.sharedPartners_subperm m s d
  constructor
  · intro heq j hj
    have hperm := hsubperm.perm_of_length_le (Nat.le_of_eq heq.symm)
    exact (mem_sharedPartners_iff.mp (hperm.mem_iff.mpr hj)).2
  · intro hall
    -- without repetition, none of two lists that contain each other is the longer
    have hback : p.dst.descendants d ⊆ (p.partnersBelow m s).filter (p.dst.isAncestor d) := by
      intro j hj
      exact mem_sharedPartners_iff.mpr ⟨hj, hall j hj⟩
    have hle := (List.subperm_of_subset (p.dst.preOrder_nodup d).tail hback).length_le
    exact Nat.le_antisymm hsubperm.length_le hle

/-- The mapping pairs the descendants of two nodes with each other. -/
def PairsBelow (p : MatchProblem) (m : Mapping) (s d : Nat) : Prop :=
  Set.BijOn m.dstOf? {i | i ∈ p.src.descendants s} (some '' {j | j ∈ p.dst.descendants d})

theorem pairsBelow_iff :
    p.PairsBelow m s d ↔
      (∀ i ∈ p.src.descendants s, ∃ j ∈ p.dst.descendants d, m.dstOf? i = some j) ∧
        ∀ j ∈ p.dst.descendants d, ∃ i ∈ p.src.descendants s, m.dstOf? i = some j := by
  constructor
  · rintro ⟨hmaps, -, honto⟩
    refine ⟨?_, ?_⟩
    · intro i hi
      obtain ⟨j, hj, hij⟩ := hmaps hi
      exact ⟨j, hj, hij.symm⟩
    · intro j hj
      obtain ⟨i, hi, hij⟩ := honto ⟨j, hj, rfl⟩
      exact ⟨i, hi, hij⟩
  · rintro ⟨hmaps, honto⟩
    refine ⟨?_, ?_, ?_⟩
    · intro i hi
      obtain ⟨j, hj, hij⟩ := hmaps i hi
      exact ⟨j, hj, hij.symm⟩
    · intro i hi i' hi' heq
      obtain ⟨j, -, hij⟩ := hmaps i hi
      exact Mapping.dstOf?_injective hij (heq ▸ hij)
    · rintro _ ⟨j, hj, rfl⟩
      obtain ⟨i, hi, hij⟩ := honto j hj
      exact ⟨i, hi, hij⟩

/-! ## Candidates -/

/-- A destination node that comes into question for a source node: it is unpaired, of the same type,
and above the partner of a descendant. -/
structure Candidate (p : MatchProblem) (m : Mapping) (s d : Nat) : Prop where
  unpaired : m.hasDst d = false
  typeName_eq : p.src.typeName s = p.dst.typeName d
  above : ∃ i ∈ p.src.descendants s, ∃ j, m.dstOf? i = some j ∧ d ∈ p.dst.ancestors j

theorem sharedBelow_pos_iff :
    0 < p.sharedBelow m s d ↔
      ∃ i ∈ p.src.descendants s, ∃ j, m.dstOf? i = some j ∧ d ∈ p.dst.ancestors j := by
  rw [sharedBelow_eq_countP, List.countP_pos_iff]
  simp only [Option.any_eq_true, Tree.mem_ancestors_iff_isAncestor]

/-- **The candidates are the unpaired nodes of the same type above the partners of the
descendants.** -/
theorem mem_candidates_iff_candidate :
    (d, shared) ∈ p.candidates m s ↔ p.Candidate m s d ∧ shared = p.sharedBelow m s d := by
  rw [mem_candidates]
  constructor
  · rintro ⟨-, rfl, hpos, hfree, htype⟩
    exact ⟨⟨hfree, beq_iff_eq.mp htype, sharedBelow_pos_iff.mp hpos⟩, rfl⟩
  · rintro ⟨⟨hfree, htype, habove⟩, rfl⟩
    have hpos := sharedBelow_pos_iff.mpr habove
    obtain ⟨i, -, j, -, hj⟩ := habove
    exact ⟨Tree.lt_size_of_mem_ancestors hj, rfl, hpos, hfree, beq_iff_eq.mpr htype⟩

/-! ## The bounds -/

theorem totalBelow_ofTrees {src dst : Tree} (hs : s < src.size) (hd : d < dst.size) :
    (ofTrees src dst).totalBelow s d = (src.descendants s).length + (dst.descendants d).length := by
  rw [Tree.length_descendants hs, Tree.length_descendants hd]
  rfl

/-- **Whatever has been paired, a node and a candidate have descendants, share at least one of them,
and no more than each of them has. They share all of them exactly if the mapping pairs their
descendants with each other.** -/
theorem shared_of_candidates (src dst : Tree) (m : Mapping) {s d shared : Nat}
    (h : (d, shared) ∈ (ofTrees src dst).candidates m s) :
    (ofTrees src dst).Candidate m s d ∧ shared = (ofTrees src dst).sharedBelow m s d ∧
      0 < (ofTrees src dst).totalBelow s d ∧
      2 * shared ≤ (ofTrees src dst).totalBelow s d ∧
      (2 * shared = (ofTrees src dst).totalBelow s d ↔ (ofTrees src dst).PairsBelow m s d) ∧
      1 ≤ shared := by
  obtain ⟨hcandidate, rfl⟩ := mem_candidates_iff_candidate.mp h
  have hpos := sharedBelow_pos_iff.mpr hcandidate.above
  have hlt : s < src.size ∧ d < dst.size := by
    obtain ⟨i, hi, j, -, hj⟩ := hcandidate.above
    exact ⟨(Tree.mem_descendants_iff.mp hi).1, Tree.lt_size_of_mem_ancestors hj⟩
  have htotal := totalBelow_ofTrees hlt.1 hlt.2
  have hsrc := (ofTrees src dst).sharedBelow_le_src m s d
  have hdst := (ofTrees src dst).sharedBelow_le_dst m s d
  have hsrcs : (ofTrees src dst).src.descendants s = src.descendants s := rfl
  have hdsts : (ofTrees src dst).dst.descendants d = dst.descendants d := rfl
  rw [hsrcs] at hsrc
  rw [hdsts] at hdst
  refine ⟨hcandidate, rfl, by omega, by omega, ?_, hpos⟩
  rw [pairsBelow_iff, ← sharedBelow_eq_src_iff, ← sharedBelow_eq_dst_iff, hsrcs, hdsts]
  omega

/-- A file with a block of two identifiers. -/
def blockOfTwo (first second : String) : Tree :=
  .ofRose (.node { kind := .other, typeName := "translation_unit" }
    [.node { kind := .other, typeName := "compound_statement" }
      [identifierRose first none, identifierRose second none]])

/-- When the bottom-up phase begins, two identifiers that have changed places are paired one by one,
and so the block shares all of its descendants. -/
theorem shared_of_swapped_identifiers :
    let src := blockOfTwo "x" "y"
    let dst := blockOfTwo "y" "x"
    let m := (ofTrees src dst).topDown 2
    (1, 4) ∈ (ofTrees src dst).candidates m 1 ∧ (ofTrees src dst).PairsBelow m 1 1 := by
  intro src dst m
  have h : (1, 4) ∈ (ofTrees src dst).candidates m 1 := by decide +kernel
  obtain ⟨-, -, -, -, hall, -⟩ := shared_of_candidates src dst m h
  exact ⟨h, hall.mp (by decide +kernel)⟩

end MatchProblem

end CallDelta
