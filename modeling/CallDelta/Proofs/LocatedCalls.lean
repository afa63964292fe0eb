import CallDelta.Calls.Locate
import CallDelta.Proofs.Subtree

/-!
# Which calls are located

The walk that locates calls does not go below a call. It is tied here to the chain of parents: a
call is located from a node above it if no other call lies between the two (`Tree.IsOuterCall`).

* `Tree.mem_locateCalls_iff`: the located calls are the outer calls of a subtree
* `Tree.locateCalls_sublist`: they stand in pre-order
* `Tree.locateCalls_nodup`: and no call is located twice

Together they say that the pruned walk is a filter of the whole one.
-/

namespace CallDelta

/-- A sublist of a list without repetitions is a filter of it. -/
theorem eq_filter_of_sublist {l l' : List Nat} {q : Nat → Bool} (hl : l.Nodup) (hsub : l'.Sublist l)
    (hq : ∀ i ∈ l, q i = true ↔ i ∈ l') : l' = l.filter q := by
  have hself : l'.filter q = l' :=
    List.filter_eq_self.mpr fun i hi => (hq i (hsub.subset hi)).mpr hi
  have hperm : l'.Perm (l.filter q) := by
    refine (List.perm_ext_iff_of_nodup (hl.sublist hsub) (hl.filter q)).mpr fun i => ?_
    rw [List.mem_filter]
    exact ⟨fun hi => ⟨hsub.subset hi, (hq i (hsub.subset hi)).mpr hi⟩,
      fun hi => (hq i hi.1).mp hi.2⟩
  refine List.Sublist.eq_of_length ?_ hperm.length_eq
  rw [← hself]
  exact hsub.filter q

namespace Tree

variable {t : Tree} {i j c : Nat} {stack : List Nat}

/-- Call `c` lies in the subtree of `i` and in no other call of that subtree. -/
structure IsOuterCall (t : Tree) (i c : Nat) : Prop where
  isCall : t.isCall c = true
  within : t.Within i c
  outer : ∀ k, t.Within i k → t.Within k c → t.isCall k = true → k = c

theorem lt_size_of_isCall (h : t.isCall c = true) : c < t.size := by
  rw [isCall, kind?, get?, beq_iff_eq, Option.map_eq_some_iff] at h
  obtain ⟨_, hn, -⟩ := h
  exact (Array.getElem?_eq_some_iff.mp hn).1

namespace IsOuterCall

theorem lt_size (h : t.IsOuterCall i c) : i < t.size :=
  Nat.lt_of_le_of_lt h.within.le (lt_size_of_isCall h.isCall)

/-- What is an outer call seen from a node is one seen from any node further down. -/
theorem of_within (h : t.IsOuterCall i c) (hij : t.Within i j) (hjc : t.Within j c) :
    t.IsOuterCall j c :=
  ⟨h.isCall, hjc, fun k hjk => h.outer k (hij.trans hjk)⟩

theorem iff_of_isCall (hi : t.isCall i = true) : t.IsOuterCall i c ↔ c = i := by
  constructor
  · intro h
    exact (h.outer i .refl h.within hi).symm
  · rintro rfl
    exact ⟨hi, .refl, fun k hck hkc _ => Nat.le_antisymm hkc.le hck.le⟩

theorem iff_children (hi : t.isCall i = false) :
    t.IsOuterCall i c ↔ ∃ k ∈ t.children i, t.IsOuterCall k c := by
  constructor
  · intro h
    rcases Within.iff_children.mp h.within with rfl | ⟨k, hk, hkc⟩
    · rw [h.isCall] at hi
      cases hi
    · exact ⟨k, hk, h.of_within (.of_parent? (mem_children.mp hk)) hkc⟩
  · rintro ⟨k, hk, h⟩
    refine ⟨h.isCall, (Within.of_parent? (mem_children.mp hk)).trans h.within, ?_⟩
    intro j hij hjc hj
    rcases Within.iff_children.mp hij with rfl | ⟨k', hk', hkj⟩
    · rw [hj] at hi
      cases hi
    · -- a call on the way down to `c` lies below the same child
      have hsame : k' = k :=
        (hkj.trans hjc).siblings_eq h.within (mem_children.mp hk') (mem_children.mp hk)
      exact h.outer j (hsame ▸ hkj) hjc hj

end IsOuterCall

/-! ## The walk -/

@[simp] theorem visitCalls_nil (t : Tree) : t.visitCalls [] = [] := by rw [visitCalls]

theorem mem_visitCalls_iff : c ∈ t.visitCalls stack ↔ ∃ i ∈ stack, t.IsOuterCall i c := by
  fun_induction visitCalls t stack with
  | case1 => simp
  | case2 i rest hi ih =>
    simp only [ih, List.mem_cons, or_and_right, exists_or, exists_eq_left,
      IsOuterCall.iff_of_isCall hi]
  | case3 i rest hi ih =>
    simp only [ih, List.mem_append, List.mem_cons, or_and_right, exists_or, exists_eq_left,
      IsOuterCall.iff_children (Bool.eq_false_iff.mpr hi)]

theorem visitCalls_sublist (t : Tree) (stack : List Nat) :
    (t.visitCalls stack).Sublist (t.visit stack) := by
  fun_induction visitCalls t stack with
  | case1 => simp
  | case2 i rest hi ih =>
    rw [visit_cons, visit_append]
    exact (ih.trans (List.sublist_append_right _ _)).cons_cons i
  | case3 i rest hi ih =>
    rw [visit_cons]
    exact ih.cons i

/-! ## The located calls of a subtree -/

/-- **The calls located from a node are the outer calls of its subtree.** -/
theorem mem_locateCalls_iff : c ∈ t.locateCalls (some i) ↔ t.IsOuterCall i c := by
  rw [locateCalls, mem_visitCalls_iff, known]
  by_cases hi : i < t.size
  · simp [hi]
  · simp only [if_neg hi, List.not_mem_nil, false_and, exists_false, false_iff]
    exact fun h => hi h.lt_size

theorem locateCalls_sublist (t : Tree) (i : Nat) :
    (t.locateCalls (some i)).Sublist (t.preOrder i) :=
  t.visitCalls_sublist (t.known i)

theorem locateCalls_nodup (t : Tree) (i : Nat) : (t.locateCalls (some i)).Nodup :=
  (t.preOrder_nodup i).sublist (t.locateCalls_sublist i)

theorem locateCalls_of_size_le (h : t.size ≤ i) : t.locateCalls (some i) = [] := by
  rw [locateCalls, known_of_le h, visitCalls_nil]

/-! ## Located calls as a filter -/

/-- Whether a node lies below a call of the subtree of `r`. -/
def isBelowCall (t : Tree) (r i : Nat) : Bool :=
  (t.ancestors i).any (fun a => t.isCall a && (t.preOrder r).contains a)

theorem isBelowCall_iff {r : Nat} : t.isBelowCall r i = true ↔
    ∃ a, t.isCall a = true ∧ a ∈ t.preOrder r ∧ t.Within a i ∧ a ≠ i := by
  simp only [isBelowCall, List.any_eq_true, mem_ancestors_iff, Bool.and_eq_true,
    List.contains_iff_mem]
  constructor
  · rintro ⟨a, ⟨hai, hne⟩, hcall, har⟩
    exact ⟨a, hcall, har, hai, hne⟩
  · rintro ⟨a, hcall, har, hai, hne⟩
    exact ⟨a, ⟨hai, hne⟩, hcall, har⟩

theorem isOuterCall_iff_not_below (hc : c ∈ t.preOrder i) :
    t.IsOuterCall i c ↔ t.isCall c = true ∧ ¬ t.isBelowCall i c = true := by
  obtain ⟨hi, hic⟩ := mem_preOrder_iff.mp hc
  rw [isBelowCall_iff]
  constructor
  · intro h
    refine ⟨h.isCall, ?_⟩
    rintro ⟨a, hcall, ha, hac, hne⟩
    exact hne (h.outer a (mem_preOrder_iff.mp ha).2 hac hcall)
  · rintro ⟨hcall, hnot⟩
    refine ⟨hcall, hic, fun k hik hkc hk => Decidable.byContradiction fun hne => ?_⟩
    exact hnot ⟨k, hk, mem_preOrder_iff.mpr ⟨hi, hik⟩, hkc, hne⟩

/-- **The calls located from a node are the calls of its pre-order that lie below no other call of
its subtree, each once. Without a node, or for an unknown number, there are none.** -/
theorem located_calls_are_outermost (t : Tree) :
    (∀ r, t.locateCalls (some r) =
          (t.preOrder r).filter (fun c => t.isCall c && !t.isBelowCall r c) ∧
        (t.locateCalls (some r)).Nodup) ∧
      t.locateCalls none = [] ∧ ∀ r, t.size ≤ r → t.locateCalls (some r) = [] := by
  refine ⟨fun r => ⟨?_, t.locateCalls_nodup r⟩, rfl, fun r hr => locateCalls_of_size_le hr⟩
  refine eq_filter_of_sublist (t.preOrder_nodup r) (t.locateCalls_sublist r) fun c hc => ?_
  rw [mem_locateCalls_iff, isOuterCall_iff_not_below hc, Bool.and_eq_true, Bool.not_eq_true',
    Bool.not_eq_true]

end Tree

end CallDelta
