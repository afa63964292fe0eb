import CallDelta.Proofs.Linking
import Mathlib.Data.List.Induction

/-!
# The answers to links

Each link that is asked for is answered: it is taken in, or it is refused. Which of the two it is
depends on the links that were taken in before it and on nothing else, and these links are also all
that a mapping remembers. Everything is shown for one more link at the end of a run.

* `Mapping.accepted_concat`: what one more link adds
* `Mapping.dstOf?_run_iff`: the partners are the links that were taken in
* `Mapping.link?_run_iff`: a link is taken in exactly if none that was taken in before shares a node
  with it
* `Mapping.pairs_perm_accepted`: the list of pairs has each link that was taken in once
* `Mapping.run_remembers_accepted`: all of this for a run on a new mapping
-/

namespace CallDelta

namespace Mapping

variable {s d : Nat} {calls : List (Nat × Nat)}

/-! ## Runs -/

/-- Asks for links one after the other. Beside the mapping stands, for each link, whether it was
taken in. -/
def run (m : Mapping) : List (Nat × Nat) → List Bool × Mapping
  | [] => ([], m)
  | call :: calls =>
    match m.link? call.1 call.2 with
    | some m' => let (answers, last) := m'.run calls; (true :: answers, last)
    | none => let (answers, last) := m.run calls; (false :: answers, last)

/-- The links that a run takes in, in the order in which they are asked for. -/
def accepted (m : Mapping) (calls : List (Nat × Nat)) : List (Nat × Nat) :=
  ((calls.zip (m.run calls).1).filter (·.2)).map (·.1)

theorem run_cons (m : Mapping) (call : Nat × Nat) (calls : List (Nat × Nat)) :
    m.run (call :: calls) =
      ((m.link? call.1 call.2).isSome :: ((m.link call.1 call.2).run calls).1,
        ((m.link call.1 call.2).run calls).2) := by
  rw [run, link]
  cases m.link? call.1 call.2 <;> rfl

theorem length_answers (m : Mapping) (calls : List (Nat × Nat)) :
    (m.run calls).1.length = calls.length := by
  induction calls generalizing m with
  | nil => rfl
  | cons call calls ih => rw [run_cons, List.length_cons, List.length_cons, ih]

theorem run_append (m : Mapping) (xs ys : List (Nat × Nat)) :
    m.run (xs ++ ys) = ((m.run xs).1 ++ ((m.run xs).2.run ys).1, ((m.run xs).2.run ys).2) := by
  induction xs generalizing m with
  | nil => rfl
  | cons call xs ih => rw [List.cons_append, run_cons, run_cons, ih, List.cons_append]

/-- A run leaves the same mapping as links whose answers nobody looks at. -/
theorem run_snd (m : Mapping) (calls : List (Nat × Nat)) : (m.run calls).2 = m.linkAll calls := by
  induction calls generalizing m with
  | nil => rfl
  | cons call calls ih => rw [run_cons, linkAll_cons, ih]

/-! ## One more link -/

theorem run_concat (m : Mapping) (calls : List (Nat × Nat)) (s d : Nat) :
    (m.run (calls ++ [(s, d)])).2 = (m.run calls).2.link s d := by
  rw [run_append, run_cons]
  rfl

theorem accepted_concat (m : Mapping) (calls : List (Nat × Nat)) (s d : Nat) :
    m.accepted (calls ++ [(s, d)]) =
      m.accepted calls ++ if ((m.run calls).2.link? s d).isSome then [(s, d)] else [] := by
  rw [accepted, run_append, run_cons, List.zip_append (m.length_answers calls).symm,
    List.filter_append, List.map_append, ← accepted]
  cases ((m.run calls).2.link? s d).isSome <;> rfl

/-- **The partners in a mapping are the links that were taken in.** -/
theorem dstOf?_run_iff :
    (empty.run calls).2.dstOf? s = some d ↔ (s, d) ∈ empty.accepted calls := by
  induction calls using List.reverseRecOn with
  | nil => simp [run, accepted]
  | append_singleton calls call ih =>
    obtain ⟨s', d'⟩ := call
    rw [run_concat, dstOf?_link_iff, ih, accepted_concat, List.mem_append]
    refine or_congr_right ?_
    -- the last link finds both of its nodes free exactly if it is taken in
    rw [← and_assoc, ← link?_isSome_iff]
    cases ((empty.run calls).2.link? s' d').isSome <;> simp

/-- **A link is taken in exactly if no link that was taken in before has its source or its
destination.** -/
theorem link?_run_iff :
    ((empty.run calls).2.link? s d).isSome = true ↔
      ∀ call ∈ empty.accepted calls, call.1 ≠ s ∧ call.2 ≠ d := by
  rw [link?_isSome_iff, Option.eq_none_iff_forall_ne_some, Option.eq_none_iff_forall_ne_some]
  constructor
  · rintro ⟨hs, hd⟩ ⟨s', d'⟩ hcall
    have hpair := dstOf?_run_iff.mpr hcall
    constructor
    · rintro rfl
      exact hs d' hpair
    · rintro rfl
      exact hd s' (dstOf?_eq_some_iff.mp hpair)
  · intro hfree
    constructor
    · intro d' hpair
      exact (hfree _ (dstOf?_run_iff.mp hpair)).1 rfl
    · intro s' hpair
      exact (hfree _ (dstOf?_run_iff.mp (dstOf?_eq_some_iff.mpr hpair))).2 rfl

/-! ## The list of pairs -/

/-- No two links that are taken in share a node. -/
theorem accepted_pairwise (calls : List (Nat × Nat)) :
    (empty.accepted calls).Pairwise (fun a b => a.1 ≠ b.1 ∧ a.2 ≠ b.2) := by
  induction calls using List.reverseRecOn with
  | nil => exact .nil
  | append_singleton calls call ih =>
    obtain ⟨s, d⟩ := call
    rw [accepted_concat]
    split
    · next hsome =>
      refine List.pairwise_append.mpr ⟨ih, List.pairwise_singleton _ _, ?_⟩
      intro a ha b hb
      rw [List.mem_singleton.mp hb]
      exact link?_run_iff.mp hsome a ha
    · rwa [List.append_nil]

/-- **The pairs of a mapping are the links that were taken in, each once.** -/
theorem pairs_perm_accepted (calls : List (Nat × Nat)) :
    (empty.run calls).2.pairs.Perm (empty.accepted calls) := by
  have hnodup : (empty.accepted calls).Nodup := by
    refine (accepted_pairwise calls).imp ?_
    rintro a b hne rfl
    exact hne.1 rfl
  refine (List.perm_ext_iff_of_nodup (pairs_nodup _) hnodup).mpr ?_
  rintro ⟨s, d⟩
  rw [mem_pairs_iff, dstOf?_run_iff]

/-- **Whatever links are asked for on a new mapping, its partners are the links that were taken in,
in both directions alike. A link is taken in exactly if no link taken in before it has the same
source or the same destination, and one that is refused changes nothing. The list of pairs has the
links that were taken in, strictly by source, and its length is the size.** -/
theorem run_remembers_accepted (calls : List (Nat × Nat)) :
    let last := (empty.run calls).2
    last = ofPairs calls ∧
    (∀ s d, (last.dstOf? s = some d ↔ last.srcOf? d = some s) ∧
      (last.dstOf? s = some d ↔ (s, d) ∈ empty.accepted calls)) ∧
    (∀ before s d after, calls = before ++ (s, d) :: after → ∃ answer,
      (empty.run calls).1[before.length]? = some answer ∧
      (answer = true ↔ ∀ call ∈ empty.accepted before, call.1 ≠ s ∧ call.2 ≠ d) ∧
      (answer = false → (empty.run (before ++ [(s, d)])).2 = (empty.run before).2)) ∧
    last.pairs.Perm (empty.accepted calls) ∧ last.pairs.Pairwise (fun a b => a.1 < b.1) ∧
    last.pairs.length = last.size := by
  refine ⟨run_snd empty calls, fun s d => ⟨dstOf?_eq_some_iff, dstOf?_run_iff⟩, ?_,
    pairs_perm_accepted calls, pairs_pairwise_lt _, length_pairs _⟩
  rintro before s d after rfl
  refine ⟨((empty.run before).2.link? s d).isSome, ?_, link?_run_iff, ?_⟩
  · rw [run_append, run_cons, List.getElem?_append_right (Nat.le_of_eq (length_answers _ before)),
      length_answers, Nat.sub_self]
    rfl
  · intro hrefused
    rw [run_concat, link_eq_self_of_refused hrefused]

/-- A source may be a destination of another link: the two sides are numbered apart. -/
example : (empty.run [(1, 2), (1, 3), (4, 2), (2, 1)]).1 = [true, false, false, true] ∧
    empty.accepted [(1, 2), (1, 3), (4, 2), (2, 1)] = [(1, 2), (2, 1)] := by
  decide +kernel

end Mapping

end CallDelta
