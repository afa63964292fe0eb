import CallDelta.Mapping

/-!
# Taking pairs into a mapping

A mapping only grows. What one link does is said once (`Mapping.dstOf?_link_iff`), and everything
about lists of links follows from it.

* `Mapping.link?_isSome_iff`: a pair is taken in exactly if both of its nodes are free
* `Mapping.linkAll_induction`: what every single link keeps, a list of links keeps
* `Mapping.dstOf?_linkAll_iff`: pairs of fresh nodes are all taken in
-/

namespace CallDelta

namespace Mapping

variable {m : Mapping} {s s' d d' : Nat} {pairs : List (Nat × Nat)}

/-! ## Partners -/

theorem hasSrc_iff : m.hasSrc s = true ↔ ∃ d, m.dstOf? s = some d := Option.isSome_iff_exists

theorem hasDst_iff : m.hasDst d = true ↔ ∃ s, m.srcOf? d = some s := Option.isSome_iff_exists

theorem hasSrc_eq_false_iff : m.hasSrc s = false ↔ m.dstOf? s = none := by
  simp [hasSrc]

theorem hasDst_eq_false_iff : m.hasDst d = false ↔ m.srcOf? d = none := by
  simp [hasDst]

theorem dstOf?_injective (h : m.dstOf? s = some d) (h' : m.dstOf? s' = some d) : s = s' := by
  rw [dstOf?_eq_some_iff] at h h'
  rw [h] at h'
  exact Option.some.inj h'

theorem srcOf?_injective (h : m.srcOf? d = some s) (h' : m.srcOf? d' = some s) : d = d' := by
  rw [← dstOf?_eq_some_iff] at h h'
  rw [h] at h'
  exact Option.some.inj h'

@[simp] theorem dstOf?_empty (s : Nat) : empty.dstOf? s = none := by
  simp [dstOf?, empty]

@[simp] theorem srcOf?_empty (d : Nat) : empty.srcOf? d = none := by
  simp [srcOf?, empty]

/-! ## The list of pairs -/

theorem mem_pairs_iff : (s, d) ∈ m.pairs ↔ m.dstOf? s = some d :=
  Std.TreeMap.mem_toList_iff_getElem?_eq_some

theorem pairs_pairwise_lt (m : Mapping) : m.pairs.Pairwise (fun a b => a.1 < b.1) := by
  have h : m.forward.toList.Pairwise (fun a b => compare a.1 b.1 = .lt) :=
    Std.TreeMap.ordered_keys_toList
  refine h.imp ?_
  intro a b hlt
  exact Nat.compare_eq_lt.mp hlt

theorem pairs_nodup (m : Mapping) : m.pairs.Nodup := by
  refine m.pairs_pairwise_lt.imp ?_
  rintro a b hlt rfl
  exact Nat.lt_irrefl _ hlt

theorem length_pairs (m : Mapping) : m.pairs.length = m.size := Std.TreeMap.length_toList

/-! ## One link -/

/-- A pair is taken in exactly if both nodes are unpaired. -/
theorem link?_isSome_iff :
    (m.link? s d).isSome = true ↔ m.dstOf? s = none ∧ m.srcOf? d = none := by
  unfold link? dstOf? srcOf?
  split
  · next hs hd => simp [hs, hd]
  · next hnot =>
    constructor
    · intro h
      cases h
    · rintro ⟨hs, hd⟩
      exact absurd hd (hnot hs)

theorem link_eq_self_of_refused (h : (m.link? s d).isSome = false) : m.link s d = m := by
  have hnone : m.link? s d = none := by simpa using h
  rw [link, hnone]
  rfl

/-- A pair with a taken node is refused. -/
theorem link_eq_self (h : m.hasSrc s = true ∨ m.hasDst d = true) : m.link s d = m := by
  refine link_eq_self_of_refused (Bool.eq_false_iff.mpr ?_)
  intro hsome
  obtain ⟨hs, hd⟩ := link?_isSome_iff.mp hsome
  rcases h with h | h
  · rw [hasSrc, hs] at h
    cases h
  · rw [hasDst, hd] at h
    cases h

theorem dstOf?_link_of_free (hs : m.dstOf? s = none) (hd : m.srcOf? d = none) (s' : Nat) :
    (m.link s d).dstOf? s' = if s = s' then some d else m.dstOf? s' := by
  unfold link link?
  split
  · simp [dstOf?, Std.TreeMap.getElem?_insert]
  · next hne => exact absurd hd (hne hs)

/-- **After a link the old pairs are there, and the new one if both of its nodes were free.** -/
theorem dstOf?_link_iff :
    (m.link s d).dstOf? s' = some d' ↔
      m.dstOf? s' = some d' ∨ (m.dstOf? s = none ∧ m.srcOf? d = none ∧ s' = s ∧ d' = d) := by
  by_cases hfree : m.dstOf? s = none ∧ m.srcOf? d = none
  · rw [dstOf?_link_of_free hfree.1 hfree.2]
    by_cases he : s = s'
    · subst he
      simp [hfree, eq_comm]
    · have he' : ¬ s' = s := fun h => he h.symm
      simp [he, he']
  · rw [link_eq_self_of_refused (Bool.eq_false_iff.mpr (mt link?_isSome_iff.mp hfree))]
    refine ⟨Or.inl, ?_⟩
    rintro (h | ⟨hs, hd, -, -⟩)
    · exact h
    · exact absurd ⟨hs, hd⟩ hfree

theorem dstOf?_link_of_dstOf? (h : m.dstOf? s' = some d') (s d : Nat) :
    (m.link s d).dstOf? s' = some d' := dstOf?_link_iff.mpr (Or.inl h)

/-! ## Lists of links -/

@[simp] theorem linkAll_nil (m : Mapping) : m.linkAll [] = m := rfl

@[simp] theorem linkAll_cons (m : Mapping) (pair : Nat × Nat) (pairs : List (Nat × Nat)) :
    m.linkAll (pair :: pairs) = (m.link pair.1 pair.2).linkAll pairs := rfl

theorem linkAll_append (m : Mapping) (xs ys : List (Nat × Nat)) :
    m.linkAll (xs ++ ys) = (m.linkAll xs).linkAll ys := List.foldl_append

/-- What every link keeps, a list of links keeps. -/
theorem linkAll_induction {P : Mapping → Prop} (hm : P m)
    (step : ∀ m, P m → ∀ pair ∈ pairs, P (m.link pair.1 pair.2)) : P (m.linkAll pairs) :=
  List.foldlRecOn pairs _ hm step

/-- Pairs come from the links only. -/
theorem mem_of_dstOf?_linkAll (h : (m.linkAll pairs).dstOf? s = some d) :
    m.dstOf? s = some d ∨ (s, d) ∈ pairs := by
  induction pairs generalizing m with
  | nil => exact Or.inl h
  | cons pair pairs ih =>
    rcases ih h with h | h
    · rcases dstOf?_link_iff.mp h with h | ⟨-, -, rfl, rfl⟩
      · exact Or.inl h
      · exact Or.inr List.mem_cons_self
    · exact Or.inr (List.mem_cons_of_mem _ h)

/-- **Where no node occurs twice and none is taken, all pairs are taken in.** -/
theorem dstOf?_linkAll_iff (hfst : (pairs.map (·.1)).Nodup) (hsnd : (pairs.map (·.2)).Nodup)
    (hs : ∀ pair ∈ pairs, m.dstOf? pair.1 = none) (hd : ∀ pair ∈ pairs, m.srcOf? pair.2 = none) :
    (m.linkAll pairs).dstOf? s = some d ↔ m.dstOf? s = some d ∨ (s, d) ∈ pairs := by
  refine ⟨mem_of_dstOf?_linkAll, ?_⟩
  induction pairs generalizing m with
  | nil => simp
  | cons pair pairs ih =>
    obtain ⟨hfst₁, hfst₂⟩ := List.nodup_cons.mp hfst
    obtain ⟨hsnd₁, hsnd₂⟩ := List.nodup_cons.mp hsnd
    -- the first pair takes none of the nodes of the others
    have hfree : ∀ q ∈ pairs, ∀ c, (m.link pair.1 pair.2).dstOf? q.1 ≠ some c := by
      intro q hq c hc
      rcases dstOf?_link_iff.mp hc with hc | ⟨-, -, he, -⟩
      · rw [hs q (List.mem_cons_of_mem _ hq)] at hc
        cases hc
      · exact hfst₁ (List.mem_map.mpr ⟨q, hq, he⟩)
    have hfree' : ∀ q ∈ pairs, ∀ c, (m.link pair.1 pair.2).srcOf? q.2 ≠ some c := by
      intro q hq c hc
      rcases dstOf?_link_iff.mp (dstOf?_eq_some_iff.mpr hc) with hc | ⟨-, -, -, he⟩
      · rw [dstOf?_eq_some_iff, hd q (List.mem_cons_of_mem _ hq)] at hc
        cases hc
      · exact hsnd₁ (List.mem_map.mpr ⟨q, hq, he⟩)
    intro h
    refine ih hfst₂ hsnd₂ (fun q hq => Option.eq_none_iff_forall_ne_some.mpr (hfree q hq))
      (fun q hq => Option.eq_none_iff_forall_ne_some.mpr (hfree' q hq)) ?_
    rcases h with h | h
    · exact Or.inl (dstOf?_link_of_dstOf? h _ _)
    · rcases List.mem_cons.mp h with rfl | h
      · exact Or.inl (dstOf?_link_iff.mpr (Or.inr
          ⟨hs _ List.mem_cons_self, hd _ List.mem_cons_self, rfl, rfl⟩))
      · exact Or.inr h

end Mapping

end CallDelta
