import CallDelta.Proofs.MatchingRoots
import CallDelta.Proofs.ScriptActions
import CallDelta.Tree.Growth

/-!
# Trees without an edit

If there is nothing to edit, the two trees are equal up to the order of siblings. An empty script
says that all nodes are paired and that labels and parents agree. It says nothing about types, which
the matching looks after, and nothing about a pair with a root in it. That the roots are paired with
each other comes from the way the matching treats them.

* `Mapping.IsReordering`: the pairs of a mapping reorder the siblings of a tree, and do no more
* `reordering_of_script_nil`: the mapping of two trees with an empty script is of this kind
-/

namespace CallDelta

variable {src dst : Tree} {m : Mapping}

/-- The pairs are a bijection between the nodes of two trees that keeps everything but the order of
siblings. -/
structure Mapping.IsReordering (m : Mapping) (src dst : Tree) : Prop where
  inRange : ∀ s d, m.dstOf? s = some d → s < src.size ∧ d < dst.size
  total : ∀ s, s < src.size → ∃ d, m.dstOf? s = some d
  onto : ∀ d, d < dst.size → ∃ s, m.dstOf? s = some d
  injective : ∀ s s' d, m.dstOf? s = some d → m.dstOf? s' = some d → s = s'
  root : m.dstOf? src.root = some dst.root
  typeName_eq : ∀ s d, m.dstOf? s = some d → src.typeName s = dst.typeName d
  label_eq : ∀ s d, m.dstOf? s = some d → src.label? s = dst.label? d
  parent : ∀ s d, m.dstOf? s = some d → s ≠ src.root →
    ∃ ps pd, src.parent? s = some ps ∧ dst.parent? d = some pd ∧ m.dstOf? ps = some pd

/-- If everything is paired, the roots are paired with each other. -/
theorem MatchProblem.RootRule.root_pair {p : MatchProblem} (h : p.RootRule m)
    (hsrc : p.Full m) (hdst : m.hasDst p.dst.root = true) :
    m.dstOf? p.src.root = some p.dst.root := by
  rcases h with h | h | ⟨-, h⟩
  · rw [hsrc p.src.root p.src.root_lt_size] at h
    cases h
  · exact h
  · rw [hdst] at h
    cases h

/-- **Trees without an edit are equal up to the order of siblings.** -/
theorem reordering_of_script_nil (options : MatchOptions) (src dst : Tree)
    (h : EditScript.ofMapping src dst (matchTrees options src dst) = []) :
    (matchTrees options src dst).IsReordering src dst := by
  obtain ⟨hsrc, hdst, hpairs⟩ := EditScript.ofMapping_eq_nil_iff.mp h
  have hroot : (matchTrees options src dst).dstOf? src.root = some dst.root :=
    (MatchProblem.rootRule_solve (MatchProblem.sound_ofTrees src dst) options).root_pair hsrc
      (hdst dst.root dst.root_lt_size)
  have hagree : ∀ s d, (matchTrees options src dst).dstOf? s = some d →
      src.label? s = dst.label? d ∧ ∀ pd ps, dst.parent? d = some pd → src.parent? s = some ps →
        (matchTrees options src dst).dstOf? ps = some pd :=
    fun s d hsd => hpairs s d (MatchProblem.fits_of_dstOf?_matchTrees hsd).dst_lt
      (Mapping.dstOf?_eq_some_iff.mp hsd)
  refine ⟨?_, ?_, ?_, ?_, hroot, ?_, fun s d hsd => (hagree s d hsd).1, ?_⟩
  · intro s d hsd
    have hfit := MatchProblem.fits_of_dstOf?_matchTrees hsd
    exact ⟨hfit.src_lt, hfit.dst_lt⟩
  · intro s hs
    exact Mapping.hasSrc_iff.mp (hsrc s hs)
  · intro d hd
    obtain ⟨s, hs⟩ := Mapping.hasDst_iff.mp (hdst d hd)
    exact ⟨s, Mapping.dstOf?_eq_some_iff.mpr hs⟩
  · intro s s' d hs hs'
    exact Mapping.dstOf?_injective hs hs'
  · intro s d hsd
    exact (MatchProblem.fits_of_dstOf?_matchTrees hsd).typeName_eq
  · intro s d hsd hne
    have hfit := MatchProblem.fits_of_dstOf?_matchTrees hsd
    -- the partner of the root of `src` is the root of `dst`, so it is not the partner of `s`
    have hned : d ≠ dst.root := by
      rintro rfl
      exact hne (Mapping.dstOf?_injective hsd hroot)
    obtain ⟨ps, hps⟩ := Tree.exists_parent? hfit.src_lt hne
    obtain ⟨pd, hpd⟩ := Tree.exists_parent? hfit.dst_lt hned
    exact ⟨ps, pd, hps, hpd, (hagree s d hsd).2 pd ps hpd hps⟩

/-- A block of statements, each known by its label. -/
def blockOf (labels : List String) : Tree :=
  .ofRose (.node { kind := .other, typeName := "block" }
    (labels.map fun label =>
      .leaf { kind := .other, typeName := "statement", label := some label }))

/-- Two statements that change places are no edit. -/
theorem reordering_of_swapped_statements :
    EditScript.ofMapping (blockOf ["a", "b"]) (blockOf ["b", "a"])
        (matchTrees { minHeight := 1 } (blockOf ["a", "b"]) (blockOf ["b", "a"])) = [] ∧
      (matchTrees { minHeight := 1 } (blockOf ["a", "b"]) (blockOf ["b", "a"])).IsReordering
        (blockOf ["a", "b"]) (blockOf ["b", "a"]) := by
  have hscript : EditScript.ofMapping (blockOf ["a", "b"]) (blockOf ["b", "a"])
      (matchTrees { minHeight := 1 } (blockOf ["a", "b"]) (blockOf ["b", "a"])) = [] := by
    decide +kernel
  exact ⟨hscript, reordering_of_script_nil _ _ _ hscript⟩

end CallDelta
