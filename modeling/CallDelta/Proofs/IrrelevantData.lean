import CallDelta.Calls.Record
import CallDelta.Proofs.LocatedCalls
import CallDelta.Proofs.MatchingCongruence
import CallDelta.Tree.Growth

/-!
# What matching and reporting do not look at

Matching and scripts look at type names, labels and shape. The report of calls looks at kinds,
labels and shape, and shows type names and spans only as they are.

* `Tree.AgreeUpTo`: two trees that are equal once part of each node is erased
* `Tree.SameContent.of_agreeUpTo`, `Tree.SameRoles.of_agreeUpTo`: what is left then
* `matching_and_reporting_congr`: erased data has no influence
-/

namespace CallDelta

/-! ## Erasing part of the nodes -/

/-- The node as a matcher sees it, without kind and span. -/
def Node.withoutKind (n : Node) : Node := { n with kind := .other, span := none }

/-- The node as the report of calls sees it, without type name and span. -/
def Node.withoutType (n : Node) : Node := { n with typeName := "", span := none }

namespace Tree

variable {t t' : Tree}

/-- Two trees that are equal node by node, up to what is erased. -/
def AgreeUpTo (erase : Node → Node) (t t' : Tree) : Prop := t.nodes.map erase = t'.nodes.map erase

instance (erase : Node → Node) (t t' : Tree) : Decidable (AgreeUpTo erase t t') :=
  inferInstanceAs (Decidable (t.nodes.map erase = t'.nodes.map erase))

namespace AgreeUpTo

variable {erase : Node → Node}

theorem size (h : AgreeUpTo erase t t') : t.size = t'.size := by
  have hsize := congrArg Array.size h
  rwa [Array.size_map, Array.size_map] at hsize

theorem get? (h : AgreeUpTo erase t t') (i : Nat) :
    (t.get? i).map erase = (t'.get? i).map erase := by
  unfold Tree.get?
  rw [← Array.getElem?_map, ← Array.getElem?_map, h]

/-- What is not erased is equal. -/
theorem map {α : Type} {g : Node → α} (h : AgreeUpTo erase t t') (hg : ∀ n, g (erase n) = g n)
    (i : Nat) : (t.get? i).map g = (t'.get? i).map g := by
  have hmap := congrArg (Option.map g) (h.get? i)
  simpa only [Option.map_map, Function.comp_def, hg] using hmap

theorem bind {α : Type} {g : Node → Option α} (h : AgreeUpTo erase t t')
    (hg : ∀ n, g (erase n) = g n) (i : Nat) : (t.get? i).bind g = (t'.get? i).bind g := by
  have hbind := congrArg (Option.bind · g) (h.get? i)
  simpa only [Option.bind_map, Function.comp_def, hg] using hbind

theorem sameShape (h : AgreeUpTo erase t t') (hparent : ∀ n, (erase n).parent = n.parent)
    (hchildren : ∀ n, (erase n).children = n.children) : t.SameShape t' where
  size := h.size
  parent? := funext (h.bind hparent)
  children := funext fun i => congrArg (·.getD []) (h.map hchildren i)

end AgreeUpTo

theorem SameContent.of_agreeUpTo (h : AgreeUpTo .withoutKind t t') : t.SameContent t' where
  toSameShape := h.sameShape (fun _ => rfl) fun _ => rfl
  typeName := funext fun i => congrArg (·.getD "") (h.map (fun _ => rfl) i)
  label? := funext (h.bind fun _ => rfl)

/-! ## Calls -/

/-- Two trees of one shape with the same kinds and labels. -/
structure SameRoles (t t' : Tree) : Prop extends SameShape t t' where
  kind? : t.kind? = t'.kind?
  label? : t.label? = t'.label?

namespace SameRoles

theorem of_agreeUpTo (h : AgreeUpTo .withoutType t t') : t.SameRoles t' where
  toSameShape := h.sameShape (fun _ => rfl) fun _ => rfl
  kind? := funext (h.map fun _ => rfl)
  label? := funext (h.bind fun _ => rfl)

theorem isCall (h : t.SameRoles t') : t.isCall = t'.isCall := by
  funext i
  unfold Tree.isCall
  rw [h.kind?]

theorem visitCalls (h : t.SameRoles t') : t.visitCalls = t'.visitCalls := by
  funext stack
  fun_induction Tree.visitCalls t stack with
  | case1 => simp
  | case2 i rest hcall ih => rw [Tree.visitCalls, ← h.isCall, if_pos hcall, ih]
  | case3 i rest hcall ih => rw [Tree.visitCalls, ← h.isCall, if_neg hcall, ih, h.children]

theorem locateCalls (h : t.SameRoles t') : t.locateCalls = t'.locateCalls := by
  funext start
  unfold Tree.locateCalls
  rw [h.visitCalls, h.known]

theorem isCalleeToken (h : t.SameRoles t') : t.isCalleeToken = t'.isCalleeToken := by
  funext i
  unfold Tree.isCalleeToken
  rw [h.parent?, h.isCall, h.children]

theorem classifyCalls (h : t.SameRoles t') : t.classifyCalls = t'.classifyCalls := by
  funext node
  unfold Tree.classifyCalls
  rw [h.locateCalls]

theorem classifyUpdate (h : t.SameRoles t') : t.classifyUpdate = t'.classifyUpdate := by
  funext node newLabel
  unfold Tree.classifyUpdate
  rw [h.isCalleeToken, h.label?]

theorem signature (h : t.SameRoles t') : t.signature = t'.signature := by
  have hname : t.identifierName? = t'.identifierName? := by
    funext i
    unfold identifierName?
    rw [h.kind?, h.parent?, h.label?]
  funext call
  unfold Tree.signature
  rw [h.preOrder, hname]

end SameRoles

end Tree

/-! ## The stages -/

section Matching

variable {src src' dst dst' : Tree}

/-- The problems of trees with the same content cannot be told apart. -/
theorem MatchProblem.SameAnswers.ofTrees (hsrc : src.SameContent src')
    (hdst : dst.SameContent dst') :
    (MatchProblem.ofTrees src dst).SameAnswers (.ofTrees src' dst') := by
  -- the second problem is the first one with other trees
  have hof : MatchProblem.ofTrees src' dst' =
      { MatchProblem.ofTrees src dst with src := src', dst := dst' } := by
    unfold MatchProblem.ofTrees
    rw [hsrc.measures, hdst.measures]
    rfl
  have hequal : (MatchProblem.ofTrees src' dst').equal = (MatchProblem.ofTrees src dst).equal := by
    funext s d
    exact (hsrc.isomorphic hdst s d).symm
  have halike : (MatchProblem.ofTrees src' dst').alike = (MatchProblem.ofTrees src dst).alike := by
    rw [hof]
  refine ⟨hsrc, hdst, ?_, ?_, ?_, ?_, fun m height => ?_, fun s d => ?_⟩
  · rw [hof]
  · rw [hof]
  · rw [hof]
  · rw [hof]
  · unfold MatchProblem.uniquePairs MatchProblem.uniquePartner? MatchProblem.srcCandidates
      MatchProblem.dstCandidates
    rw [hequal, hof]
    dsimp only
    rw [← hsrc.ids, ← hdst.ids]
    rfl
  · rw [hequal, halike]

theorem matchTrees_congr (hsrc : src.SameContent src') (hdst : dst.SameContent dst')
    (options : MatchOptions) : matchTrees options src dst = matchTrees options src' dst' :=
  (MatchProblem.SameAnswers.ofTrees hsrc hdst).solve options

theorem EditScript.ofMapping_congr (hsrc : src.SameContent src') (hdst : dst.SameContent dst')
    (m : Mapping) : ofMapping src dst m = ofMapping src' dst' m := by
  have hdestination : destinationActions src dst m = destinationActions src' dst' m := by
    funext free x
    unfold destinationActions insertionAt update relocation
    rw [hsrc.label?, hsrc.parent?, hdst.label?, hdst.parent?, hdst.position]
  have hsource : sourceActions src m = sourceActions src' m := by
    funext free s
    unfold sourceActions
    rw [hsrc.parent?]
  unfold ofMapping
  rw [hdestination, hsource, hdst.freeMarks, hsrc.freeMarks, hdst.breadthFirst, hsrc.postOrder,
    hsrc.root]

end Matching

/-- Two pairs of trees of one shape with the same kinds and labels. -/
structure TreePair.SameRoles (trees trees' : TreePair) : Prop where
  src : trees.src.SameRoles trees'.src
  dst : trees.dst.SameRoles trees'.dst

/-- The record without what it only shows of the action's node. -/
def ChangeRecord.withoutType (r : ChangeRecord) : ChangeRecord :=
  { r with nodeType := "", span := none }

section Reporting

variable {trees trees' : TreePair}

theorem TreePair.SameRoles.side (h : trees.SameRoles trees') (side : Side) :
    (trees.side side).SameRoles (trees'.side side) := by
  cases side with
  | source => exact h.src
  | destination => exact h.dst

theorem Action.classify_congr (h : trees.SameRoles trees') (action : Action) :
    action.classify trees = action.classify trees' := by
  unfold classify
  rw [(h.side action.side).classifyCalls, (h.side action.side).classifyUpdate]

theorem EditScript.events_congr (h : trees.SameRoles trees') (script : EditScript) :
    script.events trees = script.events trees' := by
  unfold events Action.events
  simp only [Action.classify_congr h]

theorem ChangeEvent.record?_congr (h : trees.SameRoles trees') (event : ChangeEvent) :
    (event.record? trees).map (·.withoutType) = (event.record? trees').map (·.withoutType) := by
  cases event with
  | call index action node callNode =>
    dsimp only [record?, Option.bind_eq_bind]
    cases ChangeKind.ofAction? action with
    | none => rfl
    | some change =>
      dsimp only [Option.bind_some]
      rw [(h.side change.side).signature]
      split
      · rfl
      · rfl
  | rename index node oldName newName => rfl

theorem changeRecords_congr (h : trees.SameRoles trees') (events : List ChangeEvent) :
    (changeRecords trees events).map (·.withoutType) =
      (changeRecords trees' events).map (·.withoutType) := by
  unfold changeRecords
  rw [List.map_filterMap, List.map_filterMap]
  exact List.filterMap_congr fun event _ => ChangeEvent.record?_congr h event

end Reporting

/-- **Kinds and spans have no influence on matching, nor type names and spans on the report of
calls.** -/
theorem matching_and_reporting_congr (src src' dst dst' : Tree) :
    (src.AgreeUpTo .withoutKind src' → dst.AgreeUpTo .withoutKind dst' →
      (∀ options, matchTrees options src dst = matchTrees options src' dst') ∧
        ∀ m, EditScript.ofMapping src dst m = EditScript.ofMapping src' dst' m) ∧
    (src.AgreeUpTo .withoutType src' → dst.AgreeUpTo .withoutType dst' →
      (∀ script : EditScript, script.events ⟨src, dst⟩ = script.events ⟨src', dst'⟩) ∧
        ∀ events, (changeRecords ⟨src, dst⟩ events).map (·.withoutType) =
          (changeRecords ⟨src', dst'⟩ events).map (·.withoutType)) := by
  constructor
  · intro hsrc hdst
    have hs := Tree.SameContent.of_agreeUpTo hsrc
    have hd := Tree.SameContent.of_agreeUpTo hdst
    exact ⟨matchTrees_congr hs hd, EditScript.ofMapping_congr hs hd⟩
  · intro hsrc hdst
    have htrees : TreePair.SameRoles ⟨src, dst⟩ ⟨src', dst'⟩ :=
      ⟨.of_agreeUpTo hsrc, .of_agreeUpTo hdst⟩
    exact ⟨EditScript.events_congr htrees, changeRecords_congr htrees⟩

/-- The file `f();` with other data on its nodes: a word put before the type names, and what kind of
node the call is. -/
def markedFile (mark : String) (call : NodeKind) (span : Option Span) : Tree :=
  .ofRose (.node { kind := .other, typeName := mark ++ "translation_unit", span }
    [.node { kind := call, typeName := mark ++ "call_expression", span }
      [.node { kind := .identifierWrapper, typeName := mark ++ "identifier", span }
        [.node { kind := .tokenLeaf, typeName := mark ++ "token", label := some "f", span } []]]])

/-- A file whose call is not marked as one is matched like any other, and a file with type names of
another grammar has the same calls, here one that is inserted. -/
theorem matching_and_reporting_congr_marked_file :
    let empty : Tree := .single { kind := .other, typeName := "translation_unit" }
    let emptyMarked : Tree := .single { kind := .other, typeName := "c_translation_unit" }
    let file := markedFile "" .callExpression none
    let unmarked := markedFile "" .other (some ⟨0, 4, 0, 0, 0, 4⟩)
    let renamed := markedFile "c_" .callExpression (some ⟨0, 4, 0, 0, 0, 4⟩)
    let script : EditScript := [.insertTree 1 (some 0) 0]
    (file.nodes ≠ unmarked.nodes ∧ matchTrees {} file file = matchTrees {} unmarked unmarked) ∧
      (file.nodes ≠ renamed.nodes ∧ script.events ⟨empty, file⟩ ≠ [] ∧
        script.events ⟨empty, file⟩ = script.events ⟨emptyMarked, renamed⟩) := by
  intro empty emptyMarked file unmarked renamed script
  have hkind : file.AgreeUpTo .withoutKind unmarked := by decide +kernel
  have htype : file.AgreeUpTo .withoutType renamed := by decide +kernel
  have hempty : empty.AgreeUpTo .withoutType emptyMarked := by decide +kernel
  refine ⟨⟨by decide +kernel, ?_⟩, by decide +kernel, by decide +kernel, ?_⟩
  · exact ((matching_and_reporting_congr file unmarked file unmarked).1 hkind hkind).1 _
  · exact ((matching_and_reporting_congr empty emptyMarked file renamed).2 hempty htype).1 _

end CallDelta
