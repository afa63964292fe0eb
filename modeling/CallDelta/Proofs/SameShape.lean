import CallDelta.Proofs.Isomorphism
import CallDelta.Script.OfMapping

/-!
# Trees of one shape

Two trees have one shape if the same numbers are nodes and have the same parents and children.
Whatever their nodes say about themselves, every walk meets the same numbers in the same order.

* `Tree.SameShape`: parents and children agree
* `Tree.SameContent`: type names and labels agree too, and with them measures
  (`Tree.SameContent.measures`) and equal subtrees (`Tree.SameContent.isomorphic`)
-/

namespace CallDelta

namespace Tree

/-- Two trees with the same numbers in the same places. -/
structure SameShape (t t' : Tree) : Prop where
  size : t.size = t'.size
  parent? : t.parent? = t'.parent?
  children : t.children = t'.children

/-- Two trees of one shape with the same type names and labels. -/
structure SameContent (t t' : Tree) : Prop extends SameShape t t' where
  typeName : t.typeName = t'.typeName
  label? : t.label? = t'.label?

namespace SameShape

variable {t t' : Tree}

theorem symm (h : t.SameShape t') : t'.SameShape t where
  size := h.size.symm
  parent? := h.parent?.symm
  children := h.children.symm

theorem root (_ : t.SameShape t') : t.root = t'.root := rfl

theorem ids (h : t.SameShape t') : t.ids = t'.ids := by
  unfold Tree.ids
  rw [h.size]

/-! ## Downward -/

theorem visit (h : t.SameShape t') : t.visit = t'.visit := by
  funext stack
  fun_induction Tree.visit t stack with
  | case1 => simp
  | case2 i rest ih => rw [Tree.visit, ih, h.children]

theorem visitFromRight (h : t.SameShape t') : t.visitFromRight = t'.visitFromRight := by
  funext stack
  fun_induction Tree.visitFromRight t stack with
  | case1 => simp [Tree.visitFromRight]
  | case2 i rest ih => rw [Tree.visitFromRight, ih, h.children]

theorem visitLevels (h : t.SameShape t') : t.visitLevels = t'.visitLevels := by
  funext queue
  fun_induction Tree.visitLevels t queue with
  | case1 => simp [Tree.visitLevels]
  | case2 i rest ih => rw [Tree.visitLevels, ih, h.children]

theorem known (h : t.SameShape t') : t.known = t'.known := by
  funext i
  unfold Tree.known
  rw [h.size]

theorem preOrder (h : t.SameShape t') : t.preOrder = t'.preOrder := by
  funext i
  unfold Tree.preOrder
  rw [h.visit, h.known]

theorem postOrder (h : t.SameShape t') : t.postOrder = t'.postOrder := by
  funext i
  unfold Tree.postOrder
  rw [h.visitFromRight, h.known]

theorem breadthFirst (h : t.SameShape t') : t.breadthFirst = t'.breadthFirst := by
  unfold Tree.breadthFirst
  rw [h.visitLevels, h.root]

theorem descendants (h : t.SameShape t') : t.descendants = t'.descendants := by
  funext i
  unfold Tree.descendants
  rw [h.preOrder]

/-! ## Upward -/

theorem ancestors (h : t.SameShape t') : t.ancestors = t'.ancestors := by
  funext i
  induction i using Nat.strongRecOn with
  | _ i ih =>
    rw [ancestors_eq, ancestors_eq, ← h.parent?]
    cases hp : t.parent? i with
    | none => rfl
    | some p => exact congrArg (p :: ·) (ih p (lt_of_parent? hp))

theorem position (h : t.SameShape t') : t.position = t'.position := by
  funext i
  unfold Tree.position
  rw [h.parent?, h.children]

/-! ## Tables -/

theorem tabulate {β : Type} (h : t.SameShape t') (blank : β) (entry : Nat → List β → β) :
    t.tabulate blank entry = t'.tabulate blank entry := by
  unfold Tree.tabulate
  rw [h.ids, h.size, h.children]

theorem freeMarks (h : t.SameShape t') : t.freeMarks = t'.freeMarks := by
  funext paired
  unfold Tree.freeMarks
  rw [h.tabulate]

end SameShape

namespace SameContent

variable {t t' src src' dst dst' : Tree}

theorem refl (t : Tree) : t.SameContent t := ⟨⟨rfl, rfl, rfl⟩, rfl, rfl⟩

theorem symm (h : t.SameContent t') : t'.SameContent t where
  toSameShape := h.toSameShape.symm
  typeName := h.typeName.symm
  label? := h.label?.symm

theorem measures (h : t.SameContent t') : t.measures = t'.measures := by
  unfold Tree.measures
  rw [h.tabulate, h.typeName, h.label?]

theorem isomorphic_of (hsrc : src.SameContent src') (hdst : dst.SameContent dst') {s d : Nat}
    (h : Isomorphic src dst s d) : Isomorphic src' dst' s d := by
  induction s using induction_children (t := src) generalizing d with
  | h s ih =>
    obtain ⟨hs, hd, htype, hlabel, hchildren⟩ := isomorphic_iff.mp h
    rw [isomorphic_iff, ← hsrc.size, ← hdst.size, ← hsrc.typeName, ← hdst.typeName, ← hsrc.label?,
      ← hdst.label?, ← hsrc.children, ← hdst.children]
    refine ⟨hs, hd, htype, hlabel, ?_⟩
    rw [List.forall₂_iff_zip] at hchildren ⊢
    refine ⟨hchildren.1, fun {a b} hab => ?_⟩
    exact ih a (List.of_mem_zip hab).1 (hchildren.2 hab)

theorem isomorphic (hsrc : src.SameContent src') (hdst : dst.SameContent dst') (s d : Nat) :
    isomorphic src s dst d = isomorphic src' s dst' d := by
  rw [Bool.eq_iff_iff]
  exact ⟨isomorphic_of hsrc hdst, isomorphic_of hsrc.symm hdst.symm⟩

end SameContent

end Tree

end CallDelta
