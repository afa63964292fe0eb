import CallDelta.Proofs.CommonSubsequence

/-!
# No common subsequence is longer

A common subsequence of two lists is given by the positions of its pairs, which grow on both sides
(`CommonPositions`). The relation need not be an equivalence.

* `exists_positions_bestCommon`: the answer is a common subsequence
* `CommonPositions.length_le`: and none is longer
* `commonSubsequence_is_longest`: both for the walk that computes the answer

## Why the first related pair may be taken

If the heads are related, a common subsequence has at most one pair with a head in it, its first:
two such pairs would cross. The others lie in the tails, so taking the heads loses nothing. If the
heads are not related, the first pair misses one of them, and so do all others.
-/

namespace CallDelta

variable {α β : Type} {related : α → β → Bool} {left : List α} {right : List β}
  {positions : List (Nat × Nat)}

/-! ## Common subsequences by position -/

/-- The positions of the pairs of a common subsequence: they grow on both sides, and what stands at
the two positions of a pair is related. -/
structure CommonPositions (related : α → β → Bool) (left : List α) (right : List β)
    (positions : List (Nat × Nat)) : Prop where
  increasing : positions.Pairwise (fun p q => p.1 < q.1 ∧ p.2 < q.2)
  related : ∀ p ∈ positions,
    ∃ a b, left[p.1]? = some a ∧ right[p.2]? = some b ∧ related a b = true

/-- The pair `pair` stands at the positions `p`. -/
def StandsAt (left : List α) (right : List β) (p : Nat × Nat) (pair : α × β) : Prop :=
  left[p.1]? = some pair.1 ∧ right[p.2]? = some pair.2

namespace CommonPositions

theorem nil (left : List α) (right : List β) : CommonPositions related left right [] :=
  ⟨List.Pairwise.nil, by simp⟩

/-- With elements in front of the lists all positions are shifted. -/
theorem shift (h : CommonPositions related left right positions) (xs : List α) (ys : List β) :
    CommonPositions related (xs ++ left) (ys ++ right)
      (positions.map fun p => (xs.length + p.1, ys.length + p.2)) := by
  refine ⟨?_, ?_⟩
  · rw [List.pairwise_map]
    refine h.increasing.imp ?_
    intro p q hpq
    show xs.length + p.1 < xs.length + q.1 ∧ ys.length + p.2 < ys.length + q.2
    omega
  · intro p hp
    obtain ⟨q, hq, rfl⟩ := List.mem_map.mp hp
    simpa [List.getElem?_append_right] using h.related q hq

/-- Where no pair is in front, the front of the lists can be taken away. -/
theorem unshift (xs : List α) (ys : List β)
    (h : CommonPositions related (xs ++ left) (ys ++ right) positions)
    (hfront : ∀ p ∈ positions, xs.length ≤ p.1 ∧ ys.length ≤ p.2) :
    CommonPositions related left right
      (positions.map fun p => (p.1 - xs.length, p.2 - ys.length)) := by
  refine ⟨?_, ?_⟩
  · rw [List.pairwise_map]
    refine h.increasing.imp_of_mem ?_
    intro p q hp hq hpq
    have hpf := hfront p hp
    have hqf := hfront q hq
    show p.1 - xs.length < q.1 - xs.length ∧ p.2 - ys.length < q.2 - ys.length
    omega
  · intro p hp
    obtain ⟨q, hq, rfl⟩ := List.mem_map.mp hp
    obtain ⟨hleft, hright⟩ := hfront q hq
    have hrelated := h.related q hq
    rwa [List.getElem?_append_right hleft, List.getElem?_append_right hright] at hrelated

theorem tail {p : Nat × Nat} (h : CommonPositions related left right (p :: positions)) :
    CommonPositions related left right positions :=
  ⟨(List.pairwise_cons.mp h.increasing).2, fun q hq => h.related q (List.mem_cons_of_mem _ hq)⟩

end CommonPositions

/-! ## The answer is a common subsequence -/

theorem standsAt_shift {pairs : List (α × β)}
    (h : List.Forall₂ (StandsAt left right) positions pairs) (xs : List α) (ys : List β) :
    List.Forall₂ (StandsAt (xs ++ left) (ys ++ right))
      (positions.map fun p => (xs.length + p.1, ys.length + p.2)) pairs := by
  rw [List.forall₂_map_left_iff]
  refine h.imp ?_
  intro p pair hpair
  simpa [StandsAt, List.getElem?_append_right] using hpair

theorem exists_positions_bestCommon (left : List α) (right : List β) :
    ∃ positions, CommonPositions related left right positions ∧
      List.Forall₂ (StandsAt left right) positions (bestCommon related left right).pairs := by
  fun_induction bestCommon related left right with
  | case1 x xs y ys hxy ih =>
    obtain ⟨positions, hcommon, hstands⟩ := ih
    have hshift := hcommon.shift [x] [y]
    refine ⟨(0, 0) :: positions.map (fun p => (1 + p.1, 1 + p.2)), ⟨?_, ?_⟩, ?_⟩
    · refine List.pairwise_cons.mpr ⟨?_, hshift.increasing⟩
      intro q hq
      obtain ⟨p, -, rfl⟩ := List.mem_map.mp hq
      show 0 < 1 + p.1 ∧ 0 < 1 + p.2
      omega
    · intro q hq
      rcases List.mem_cons.mp hq with rfl | hq
      · exact ⟨x, y, rfl, rfl, hxy⟩
      · exact hshift.related q hq
    · exact .cons ⟨rfl, rfl⟩ (standsAt_shift hstands [x] [y])
  | case2 x xs y ys _ ih₁ ih₂ =>
    rcases pairs_longer_eq (bestCommon related xs (y :: ys)) (bestCommon related (x :: xs) ys)
      with he | he
    · obtain ⟨positions, hcommon, hstands⟩ := ih₁
      rw [he]
      exact ⟨_, hcommon.shift [x] [], standsAt_shift hstands [x] []⟩
    · obtain ⟨positions, hcommon, hstands⟩ := ih₂
      rw [he]
      exact ⟨_, hcommon.shift [] [y], standsAt_shift hstands [] [y]⟩
  | case3 left right => exact ⟨[], .nil left right, .nil⟩

/-! ## No other is longer -/

/-- The length that goes with an answer is the number of its pairs. -/
theorem length_bestCommon (left : List α) (right : List β) :
    (bestCommon related left right).length = (bestCommon related left right).pairs.length := by
  fun_induction bestCommon related left right with
  | case1 x xs y ys _ ih => simp [CommonPairs.extend, ih]
  | case2 x xs y ys _ ih₁ ih₂ =>
    unfold CommonPairs.longer
    split
    · exact ih₁
    · exact ih₂
  | case3 => rfl

/-- **No common subsequence is longer than the answer.** -/
theorem CommonPositions.length_le (h : CommonPositions related left right positions) :
    positions.length ≤ (bestCommon related left right).length := by
  fun_induction bestCommon related left right generalizing positions with
  | case1 x xs y ys hxy ih =>
    cases positions with
    | nil => simp
    | cons p rest =>
      -- behind the first pair no pair has a head in it
      have hfront : ∀ q ∈ rest, [x].length ≤ q.1 ∧ [y].length ≤ q.2 := by
        intro q hq
        have := (List.pairwise_cons.mp h.increasing).1 q hq
        simp only [List.length_singleton]
        omega
      have hle := ih (h.tail.unshift [x] [y] hfront)
      simp only [List.length_map] at hle
      show rest.length + 1 ≤ (bestCommon related xs ys).length + 1
      omega
  | case2 x xs y ys hxy ih₁ ih₂ =>
    rw [CommonPairs.length_longer]
    cases positions with
    | nil => simp
    | cons p rest =>
      have hafter := (List.pairwise_cons.mp h.increasing).1
      -- the first pair misses one of the heads, and all others are behind it
      by_cases hp : p.1 = 0
      · have hp₂ : p.2 ≠ 0 := by
          intro hp₂
          obtain ⟨a, b, ha, hb, hab⟩ := h.related p List.mem_cons_self
          simp only [hp, hp₂, List.getElem?_cons_zero, Option.some.injEq] at ha hb
          exact hxy (ha ▸ hb ▸ hab)
        have hfront : ∀ q ∈ p :: rest, ([] : List α).length ≤ q.1 ∧ [y].length ≤ q.2 := by
          intro q hq
          simp only [List.length_nil, List.length_singleton]
          rcases List.mem_cons.mp hq with rfl | hq
          · omega
          · have := hafter q hq
            omega
        have hle := ih₂ (h.unshift [] [y] hfront)
        rw [List.length_map] at hle
        omega
      · have hfront : ∀ q ∈ p :: rest, [x].length ≤ q.1 ∧ ([] : List β).length ≤ q.2 := by
          intro q hq
          simp only [List.length_nil, List.length_singleton]
          rcases List.mem_cons.mp hq with rfl | hq
          · omega
          · have := hafter q hq
            omega
        have hle := ih₁ (h.unshift [x] [] hfront)
        rw [List.length_map] at hle
        omega
  | case3 left right hnone =>
    cases positions with
    | nil => simp
    | cons p rest =>
      -- one of the lists is empty
      obtain ⟨a, b, ha, hb, -⟩ := h.related p List.mem_cons_self
      cases left with
      | nil => simp at ha
      | cons x xs =>
        cases right with
        | nil => simp at hb
        | cons y ys => exact absurd rfl (hnone x xs y ys rfl)

/-- **The pairs of the answer stand at growing positions and are related, there is no longer common
subsequence, and lists that are related element by element are paired element by element.** -/
theorem commonSubsequence_is_longest (related : α → β → Bool) (left : List α) (right : List β) :
    (∃ positions, CommonPositions related left right positions ∧
      List.Forall₂ (StandsAt left right) positions (commonSubsequence related left right)) ∧
    (∀ positions, CommonPositions related left right positions →
      positions.length ≤ (commonSubsequence related left right).length) ∧
    (left.length = right.length →
      (∀ (i : Nat) a b, left[i]? = some a → right[i]? = some b → related a b = true) →
      commonSubsequence related left right = left.zip right) := by
  refine ⟨?_, ?_, ?_⟩
  · rw [commonSubsequence_eq_bestCommon]
    exact exists_positions_bestCommon left right
  · intro positions hpositions
    rw [commonSubsequence_eq_bestCommon, ← length_bestCommon]
    exact hpositions.length_le
  · intro hlen hdiagonal
    refine commonSubsequence_eq_zip (List.forall₂_iff_get.mpr ⟨hlen, ?_⟩)
    intro i hi hi'
    exact hdiagonal i _ _ (List.getElem?_eq_getElem hi) (List.getElem?_eq_getElem hi')

/-- A relation with a direction. The pairs `(3, 4)` and `(1, 5)` would be as many. -/
example : commonSubsequence (fun a b => decide (a < b)) [3, 1, 4] [2, 4, 5] = [(1, 2), (4, 5)] := by
  decide

end CallDelta
