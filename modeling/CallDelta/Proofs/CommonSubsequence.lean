import CallDelta.Matching.CommonSubsequence
import Mathlib.Data.List.Forall2

/-!
# What the longest common subsequence is

The table of lengths and the walk through it are read as one recursion over the two lists
(`bestCommon`), which has the pairs beside their number.

* `lengthTable_eq`: the table has the lengths that go with the answers for all tails
* `commonSubsequence_eq_bestCommon`: the walk through the table finds the pairs of the recursion
* `mem_commonSubsequence`: a pair of the answer is a related pair of elements
* `map_fst_commonSubsequence_sublist`, `map_snd_commonSubsequence_sublist`: the answer keeps both
  orders
* `commonSubsequence_eq_zip`: lists that are related element by element are paired element by
  element
-/

namespace CallDelta

variable {α β : Type}

/-! ## The recursion over both lists -/

/-- A common subsequence together with its length. -/
structure CommonPairs (α β : Type) where
  length : Nat
  pairs : List (α × β)

namespace CommonPairs

/-- The common subsequence without pairs. -/
def none : CommonPairs α β := { length := 0, pairs := [] }

/-- One more pair in front. -/
def extend (a : α) (b : β) (tail : CommonPairs α β) : CommonPairs α β :=
  { length := tail.length + 1, pairs := (a, b) :: tail.pairs }

/-- The longer of two. Of two equally long ones the first is taken. -/
def longer (x y : CommonPairs α β) : CommonPairs α β := if y.length ≤ x.length then x else y

theorem length_longer (x y : CommonPairs α β) : (x.longer y).length = max x.length y.length := by
  unfold longer
  split
  · next h => exact (Nat.max_eq_left h).symm
  · next h => exact (Nat.max_eq_right (Nat.le_of_not_le h)).symm

end CommonPairs

variable (related : α → β → Bool)

/-- The common subsequence of two lists, by recursion over both. -/
def bestCommon : List α → List β → CommonPairs α β
  | a :: as, b :: bs =>
    if related a b then (bestCommon as bs).extend a b
    else (bestCommon as (b :: bs)).longer (bestCommon (a :: as) bs)
  | _, _ => .none
termination_by as bs => as.length + bs.length

@[simp] theorem bestCommon_nil_left (bs : List β) : bestCommon related [] bs = .none := by
  rw [bestCommon]
  simp

@[simp] theorem bestCommon_nil_right (as : List α) : bestCommon related as [] = .none := by
  rw [bestCommon]
  simp

theorem bestCommon_cons_cons (a : α) (as : List α) (b : β) (bs : List β) :
    bestCommon related (a :: as) (b :: bs) =
      if related a b then (bestCommon related as bs).extend a b
      else (bestCommon related as (b :: bs)).longer (bestCommon related (a :: as) bs) := by
  rw [bestCommon]

/-! ## The table of lengths -/

/-- The lengths of the answers for all tails of the list on the right. -/
def commonLengths (as : List α) (bs : List β) : List Nat :=
  bs.tails.map fun tail => (bestCommon related as tail).length

/-- Past the end of the row there is nothing in common. -/
theorem getD_commonLengths (as : List α) (bs : List β) (j : Nat) :
    (commonLengths related as bs).getD j 0 = (bestCommon related as (bs.drop j)).length := by
  induction bs generalizing j with
  | nil => cases j <;> simp [commonLengths, CommonPairs.none]
  | cons b bs ih =>
    cases j with
    | zero => rfl
    | succ j => exact ih j

/-- A row follows from the row below. -/
theorem lengthRow_eq (a : α) (as : List α) : ∀ bs : List β,
    lengthRow related a bs (commonLengths related as bs) = commonLengths related (a :: as) bs
  | [] => by simp [commonLengths, lengthRow, CommonPairs.none]
  | [b] => by
    simp only [commonLengths, List.tails, List.map_cons, List.map_nil, lengthRow,
      List.headD_cons, bestCommon_cons_cons, bestCommon_nil_right]
    split
    · rfl
    · rw [CommonPairs.length_longer]
      rfl
  | b :: b' :: bs => by
    have ih := lengthRow_eq a as (b' :: bs)
    simp only [commonLengths, List.tails, List.map_cons] at ih ⊢
    rw [lengthRow, ih, List.headD_cons, bestCommon_cons_cons related a as b]
    split
    · rfl
    · rw [CommonPairs.length_longer]

theorem replicate_zero_eq (bs : List β) :
    List.replicate (bs.length + 1) 0 = commonLengths related ([] : List α) bs := by
  induction bs with
  | nil => simp [commonLengths, CommonPairs.none]
  | cons b bs ih =>
    rw [List.length_cons, List.replicate_succ, ih]
    simp [commonLengths, CommonPairs.none]

/-- **The table has the lengths for all tails of both lists.** -/
theorem lengthTable_eq (as : List α) (bs : List β) :
    lengthTable related as bs = as.tails.map fun tail => commonLengths related tail bs := by
  induction as with
  | nil =>
    show [List.replicate (bs.length + 1) 0] = [commonLengths related [] bs]
    rw [replicate_zero_eq related]
  | cons a as ih =>
    have hhead : (lengthTable related as bs).headD [] = commonLengths related as bs := by
      rw [ih]
      cases as <;> rfl
    show lengthRow related a bs ((lengthTable related as bs).headD []) ::
        lengthTable related as bs = _
    rw [hhead, lengthRow_eq, ih]
    rfl

/-! ## The walk -/

section Walk

variable {related} {right : List β}

/-- Where the heads are related the length grows by one, so the walk takes the pair whenever the
recursion does. -/
theorem walkRow_eq (a : α) (as : List α) {next : Nat → List β → List (α × β)}
    (hnext : ∀ j, next j (right.drop j) = (bestCommon related as (right.drop j)).pairs)
    (j : Nat) {bs : List β} (hbs : right.drop j = bs) :
    walkRow related a (commonLengths related (a :: as) right) (commonLengths related as right) next
      j bs = (bestCommon related (a :: as) bs).pairs := by
  induction bs generalizing j with
  | nil =>
    rw [bestCommon_nil_right]
    rfl
  | cons b bs ih =>
    have htail : right.drop (j + 1) = bs := by
      rw [← List.tail_drop, hbs, List.tail_cons]
    have hnext_tail := hnext (j + 1)
    have hnext_here := hnext j
    rw [htail] at hnext_tail
    rw [hbs] at hnext_here
    rw [walkRow]
    simp only [getD_commonLengths, hbs, htail]
    rw [bestCommon_cons_cons]
    by_cases hab : related a b = true
    · have hgrows : ((bestCommon related as bs).extend a b).length =
          (bestCommon related as bs).length + 1 := rfl
      rw [if_pos hab, if_pos ⟨hgrows, hab⟩, hnext_tail]
      rfl
    · rw [if_neg hab, if_neg (fun h => hab h.2), hnext_here, ih (j + 1) htail, CommonPairs.longer]
      split
      · rfl
      · rfl

theorem walkTable_eq (as : List α) (j : Nat) :
    walkTable related as (as.tails.map fun tail => commonLengths related tail right) j
      (right.drop j) = (bestCommon related as (right.drop j)).pairs := by
  induction as generalizing j with
  | nil =>
    rw [bestCommon_nil_left]
    rfl
  | cons a as ih =>
    -- the row below is the first row of the table for the tail
    have hbelow : as.tails.map (fun tail => commonLengths related tail right) =
        commonLengths related as right ::
          as.tails.tail.map fun tail => commonLengths related tail right := by
      cases as <;> rfl
    rw [List.tails, List.map_cons, hbelow, walkTable, ← hbelow]
    exact walkRow_eq a as ih j rfl

end Walk

/-- **The walk through the table finds the pairs of the recursion over both lists.** -/
theorem commonSubsequence_eq_bestCommon (as : List α) (bs : List β) :
    commonSubsequence related as bs = (bestCommon related as bs).pairs := by
  rw [commonSubsequence, lengthTable_eq]
  exact walkTable_eq as 0

/-! ## The pairs of the answer -/

theorem pairs_longer_eq (x y : CommonPairs α β) :
    (x.longer y).pairs = x.pairs ∨ (x.longer y).pairs = y.pairs := by
  unfold CommonPairs.longer
  split
  · exact Or.inl rfl
  · exact Or.inr rfl

variable {related}

theorem mem_bestCommon {a : α} {b : β} {as : List α} {bs : List β}
    (h : (a, b) ∈ (bestCommon related as bs).pairs) : a ∈ as ∧ b ∈ bs ∧ related a b = true := by
  fun_induction bestCommon related as bs with
  | case1 x xs y ys hxy ih =>
    rcases List.mem_cons.mp h with he | h
    · cases he
      exact ⟨List.mem_cons_self, List.mem_cons_self, hxy⟩
    · obtain ⟨ha, hb, hr⟩ := ih h
      exact ⟨List.mem_cons_of_mem _ ha, List.mem_cons_of_mem _ hb, hr⟩
  | case2 x xs y ys hxy ih₁ ih₂ =>
    rcases pairs_longer_eq (bestCommon related xs (y :: ys)) (bestCommon related (x :: xs) ys)
      with he | he
    · obtain ⟨ha, hb, hr⟩ := ih₁ (he ▸ h)
      exact ⟨List.mem_cons_of_mem _ ha, hb, hr⟩
    · obtain ⟨ha, hb, hr⟩ := ih₂ (he ▸ h)
      exact ⟨ha, List.mem_cons_of_mem _ hb, hr⟩
  | case3 => cases h

theorem mem_commonSubsequence {a : α} {b : β} {as : List α} {bs : List β}
    (h : (a, b) ∈ commonSubsequence related as bs) : a ∈ as ∧ b ∈ bs ∧ related a b = true :=
  mem_bestCommon (commonSubsequence_eq_bestCommon related as bs ▸ h)

theorem map_bestCommon_sublist (as : List α) (bs : List β) :
    ((bestCommon related as bs).pairs.map (·.1)).Sublist as ∧
      ((bestCommon related as bs).pairs.map (·.2)).Sublist bs := by
  fun_induction bestCommon related as bs with
  | case1 x xs y ys _ ih => exact ⟨ih.1.cons_cons x, ih.2.cons_cons y⟩
  | case2 x xs y ys _ ih₁ ih₂ =>
    rcases pairs_longer_eq (bestCommon related xs (y :: ys)) (bestCommon related (x :: xs) ys)
      with he | he <;> rw [he]
    · exact ⟨ih₁.1.cons x, ih₁.2⟩
    · exact ⟨ih₂.1, ih₂.2.cons y⟩
  | case3 => exact ⟨List.nil_sublist _, List.nil_sublist _⟩

theorem map_fst_commonSubsequence_sublist (as : List α) (bs : List β) :
    ((commonSubsequence related as bs).map (·.1)).Sublist as := by
  rw [commonSubsequence_eq_bestCommon]
  exact (map_bestCommon_sublist as bs).1

theorem map_snd_commonSubsequence_sublist (as : List α) (bs : List β) :
    ((commonSubsequence related as bs).map (·.2)).Sublist bs := by
  rw [commonSubsequence_eq_bestCommon]
  exact (map_bestCommon_sublist as bs).2

/-- **Lists that are related element by element are paired element by element.** -/
theorem commonSubsequence_eq_zip {as : List α} {bs : List β}
    (h : List.Forall₂ (fun a b => related a b = true) as bs) :
    commonSubsequence related as bs = as.zip bs := by
  rw [commonSubsequence_eq_bestCommon]
  induction h with
  | nil => simp [CommonPairs.none]
  | cons hab _ ih =>
    rw [bestCommon_cons_cons, if_pos hab, List.zip_cons_cons, ← ih]
    rfl

end CallDelta
