import CallDelta.Calls.Signature
import CallDelta.Proofs.LocatedCalls
import Mathlib.Data.List.Basic

/-!
# The names in located calls

A signature is read off a walk over the whole subtree of its call, and the walk that locates calls
does not go below a call. The subtrees of the located calls are therefore apart, and one after the
other they are all that lies in a call (`Tree.flatMap_preOrder_locateCalls`). So every identifier in
a call is in exactly one signature, and the signatures keep the order of the text.
-/

namespace CallDelta

namespace Tree

variable {t : Tree} {r i c : Nat}

/-! ## What lies in a call -/

theorem isBelowCall_of_isCall (hr : t.isCall r = true) (hi : i ∈ t.preOrder r) (hne : i ≠ r) :
    t.isBelowCall r i = true := by
  obtain ⟨hlt, hri⟩ := mem_preOrder_iff.mp hi
  exact isBelowCall_iff.mpr ⟨r, hr, mem_preOrder_self hlt, hri, Ne.symm hne⟩

theorem isBelowCall_self (t : Tree) (r : Nat) : t.isBelowCall r r = false := by
  rw [Bool.eq_false_iff]
  intro h
  obtain ⟨a, -, har, hra, hne⟩ := isBelowCall_iff.mp h
  exact hne (Nat.le_antisymm hra.le (mem_preOrder_iff.mp har).2.le)

/-- Where the top of a subtree is no call, the calls above a node are looked for below the same
child. -/
theorem isBelowCall_of_mem_children (hr : t.isCall r = false) (hc : c ∈ t.children r)
    (hi : i ∈ t.preOrder c) : t.isBelowCall r i = t.isBelowCall c i := by
  have hparent := mem_children.mp hc
  have hsize : c < t.size := lt_size_of_mem_children hc
  have hrsize : r < t.size := Nat.lt_trans (lt_of_mem_children hc) hsize
  have hci := (mem_preOrder_iff.mp hi).2
  rw [Bool.eq_iff_iff, isBelowCall_iff, isBelowCall_iff]
  constructor
  · rintro ⟨a, hcall, har, hai, hne⟩
    refine ⟨a, hcall, mem_preOrder_iff.mpr ⟨hsize, ?_⟩, hai, hne⟩
    rcases Within.iff_children.mp (mem_preOrder_iff.mp har).2 with rfl | ⟨c', hc', hca⟩
    · rw [hcall] at hr
      cases hr
    · rwa [hci.siblings_eq (hca.trans hai) hparent (mem_children.mp hc')]
  · rintro ⟨a, hcall, hac, hai, hne⟩
    have hca := (mem_preOrder_iff.mp hac).2
    exact ⟨a, hcall, mem_preOrder_iff.mpr ⟨hrsize, (Within.of_parent? hparent).trans hca⟩, hai, hne⟩

/-! ## The walk from node to node -/

theorem visitCalls_append (t : Tree) (xs ys : List Nat) :
    t.visitCalls (xs ++ ys) = t.visitCalls xs ++ t.visitCalls ys := by
  fun_induction visitCalls t xs with
  | case1 => rfl
  | case2 i rest hi ih => rw [List.cons_append, visitCalls, if_pos hi, ih, List.cons_append]
  | case3 i rest hi ih =>
    rw [List.cons_append, visitCalls, if_neg hi, ← List.append_assoc, ih]

theorem locateCalls_of_isCall (hr : t.isCall r = true) : t.locateCalls (some r) = [r] := by
  rw [locateCalls, known_of_lt (lt_size_of_isCall hr), visitCalls, if_pos hr, visitCalls_nil]

theorem visitCalls_eq_flatMap {xs : List Nat} (h : ∀ i ∈ xs, i < t.size) :
    t.visitCalls xs = xs.flatMap (fun i => t.locateCalls (some i)) := by
  induction xs with
  | nil => simp
  | cons i rest ih =>
    have hi : t.locateCalls (some i) = t.visitCalls [i] := by
      rw [locateCalls, known_of_lt (h i List.mem_cons_self)]
    rw [← List.singleton_append, visitCalls_append, ih fun j hj => h j (List.mem_cons_of_mem _ hj),
      List.singleton_append, List.flatMap_cons, hi]

theorem locateCalls_of_not_isCall (hsize : r < t.size) (hr : t.isCall r = false) :
    t.locateCalls (some r) = (t.children r).flatMap (fun c => t.locateCalls (some c)) := by
  rw [locateCalls, known_of_lt hsize, visitCalls, if_neg (by simp [hr]), List.append_nil]
  exact visitCalls_eq_flatMap fun c hc => lt_size_of_mem_children hc

/-- **The subtrees of the located calls, one after the other, are all that lies in a call.** -/
theorem flatMap_preOrder_locateCalls (t : Tree) (r : Nat) :
    (t.locateCalls (some r)).flatMap t.preOrder =
      (t.preOrder r).filter (fun i => t.isCall i || t.isBelowCall r i) := by
  by_cases hsize : r < t.size
  · induction r using induction_children (t := t) with
    | h r ih =>
      cases hr : t.isCall r with
      | true =>
        rw [locateCalls_of_isCall hr, List.flatMap_singleton, eq_comm, List.filter_eq_self]
        intro i hi
        by_cases hir : i = r
        · rw [hir, hr, Bool.true_or]
        · rw [isBelowCall_of_isCall hr hi hir, Bool.or_true]
      | false =>
        have hnot : ¬ (t.isCall r || t.isBelowCall r r) = true := by
          simp [hr, isBelowCall_self]
        rw [locateCalls_of_not_isCall hsize hr, preOrder_eq_flatMap hsize, List.filter_cons,
          if_neg hnot, List.flatMap_assoc, List.filter_flatMap]
        refine List.flatMap_congr fun c hc => ?_
        rw [ih c hc (lt_size_of_mem_children hc)]
        refine List.filter_congr fun i hi => ?_
        rw [isBelowCall_of_mem_children hr hc hi]
  · have hle := Nat.le_of_not_lt hsize
    rw [locateCalls_of_size_le hle, preOrder_of_le hle]
    rfl

/-! ## The names of a signature -/

/-- Whether a node is a token that stands directly in an identifier. -/
def isIdentifierToken (t : Tree) (i : Nat) : Bool :=
  t.kind? i == some .tokenLeaf && (t.parent? i).bind t.kind? == some .identifierWrapper

/-- The label of a node, where a missing label is empty. -/
def spelling (t : Tree) (i : Nat) : String := (t.label? i).getD ""

/-- The callee of a call and then its arguments. A call without the token of an identifier has no
names. -/
def signatureNames (t : Tree) (call : Nat) : List String :=
  if (t.preOrder call).any t.isIdentifierToken then
    (t.signature call).callee :: (t.signature call).arguments
  else
    []

theorem filterMap_identifierName? (t : Tree) (l : List Nat) :
    l.filterMap t.identifierName? = (l.filter t.isIdentifierToken).map t.spelling := by
  rw [← List.filterMap_eq_map, List.filterMap_filter]
  rfl

theorem signatureNames_eq (t : Tree) (call : Nat) :
    t.signatureNames call = ((t.preOrder call).filter t.isIdentifierToken).map t.spelling := by
  rw [signatureNames, signature, filterMap_identifierName?]
  cases hnames : (t.preOrder call).filter t.isIdentifierToken with
  | nil =>
    have hnone : (t.preOrder call).any t.isIdentifierToken = false := by
      rw [List.any_eq_false]
      exact List.filter_eq_nil_iff.mp hnames
    rw [hnone]
    rfl
  | cons i rest =>
    have hmem : i ∈ (t.preOrder call).filter t.isIdentifierToken := by
      rw [hnames]
      exact List.mem_cons_self
    obtain ⟨hi, htoken⟩ := List.mem_filter.mp hmem
    rw [if_pos (List.any_eq_true.mpr ⟨i, hi, htoken⟩)]
    rfl

theorem isCall_eq_false_of_isIdentifierToken (h : t.isIdentifierToken i = true) :
    t.isCall i = false := by
  obtain ⟨hkind, -⟩ := Bool.and_eq_true_iff.mp h
  rw [isCall, beq_iff_eq.mp hkind]
  rfl

/-- **The signatures of the located calls, one after the other, name every identifier that lies
below a call of the subtree, once and in pre-order.** -/
theorem signatureNames_of_located_calls (t : Tree) (r : Nat) :
    (t.locateCalls (some r)).flatMap t.signatureNames =
      ((t.preOrder r).filter (fun i => t.isIdentifierToken i && t.isBelowCall r i)).map
        t.spelling := by
  have hjoin : (t.locateCalls (some r)).flatMap t.signatureNames =
      (((t.locateCalls (some r)).flatMap t.preOrder).filter t.isIdentifierToken).map
        t.spelling := by
    rw [List.filter_flatMap, List.map_flatMap]
    exact List.flatMap_congr fun call _ => t.signatureNames_eq call
  rw [hjoin, flatMap_preOrder_locateCalls, List.filter_filter]
  refine congrArg (List.map t.spelling) (List.filter_congr fun i _ => ?_)
  -- a token is no call itself
  cases htoken : t.isIdentifierToken i with
  | false => rfl
  | true => rw [isCall_eq_false_of_isIdentifierToken htoken, Bool.false_or]

end Tree

end CallDelta
