import CallDelta.Calls.Record
import CallDelta.Matching.Match
import CallDelta.Proofs.Lowered

/-!
# Two rules for the callee

The signature of a call takes the first token of an identifier as the callee. A renaming is read off
the place of the updated node, directly below the first child of a call. In a lowered tree the two
agree on what stands below an identifier in that place; any other labelled node there, such as the
index of `table[0](x)`, is taken for the callee by the second rule only.
-/

namespace CallDelta

namespace Tree

variable {t : Tree} {i call slot tok : Nat}

/-- The first token of an identifier in a call. -/
def calleeToken? (t : Tree) (call : Nat) : Option Nat :=
  (t.preOrder call).find? (fun i => (t.identifierName? i).isSome)

theorem identifierName?_eq_some_iff {name : String} :
    t.identifierName? i = some name ↔ t.kind? i = some .tokenLeaf ∧
      (t.parent? i).bind t.kind? = some .identifierWrapper ∧ (t.label? i).getD "" = name := by
  unfold identifierName?
  split <;> simp_all

theorem identifierName?_calleeToken? (h : t.calleeToken? call = some tok) :
    t.identifierName? tok = some (t.signature call).callee := by
  obtain ⟨htok, before, after, hwalk, hbefore⟩ := List.find?_eq_some_iff_append.mp h
  obtain ⟨name, hname⟩ := Option.isSome_iff_exists.mp htok
  have hnone : before.filterMap t.identifierName? = [] := by
    refine List.filterMap_eq_nil_iff.mpr fun i hi => ?_
    simpa using hbefore i hi
  rw [signature, hwalk, List.filterMap_append, hnone, List.nil_append, List.filterMap_cons, hname]
  rfl

/-- An identifier in the first place of a call gives the callee. -/
theorem Wraps.calleeToken? (h : t.Wraps slot tok) (hcall : t.isCall call = true)
    (hhead : (t.children call).head? = some slot) : t.calleeToken? call = some tok := by
  have hkind : t.kind? call = some .callExpression := beq_iff_eq.mp hcall
  obtain ⟨rest, hchildren⟩ := List.head?_eq_some_iff.mp hhead
  have hwalk : t.preOrder call = call :: slot :: tok :: t.visit rest := by
    rw [preOrder_eq_cons (lt_size_of_kind? hkind), hchildren, visit_cons, h.children_identifier,
      List.singleton_append, visit_cons, h.children_token, List.nil_append]
  have hnot : ∀ j, t.kind? j ≠ some .tokenLeaf → t.identifierName? j = none := fun j hj =>
    Option.eq_none_iff_forall_ne_some.mpr fun name hname =>
      hj (identifierName?_eq_some_iff.mp hname).1
  have htok : t.identifierName? tok = some ((t.label? tok).getD "") := by
    rw [identifierName?_eq_some_iff, h.parent_token]
    exact ⟨h.kind_token, h.kind_identifier, rfl⟩
  have hcallNot := hnot call (by rw [hkind]; decide)
  have hslotNot := hnot slot (by rw [h.kind_identifier]; decide)
  simp [Tree.calleeToken?, hwalk, hcallNot, hslotNot, htok]

theorem isCalleeToken_iff :
    t.isCalleeToken i = true ↔ ∃ slot call, t.parent? i = some slot ∧ t.parent? slot = some call ∧
      t.isCall call = true ∧ (t.children call).head? = some slot := by
  simp [isCalleeToken, Option.any_eq_true]

end Tree

theorem Action.classify_updateNode_eq_rename_iff {trees : TreePair} {node : Nat}
    {newLabel : Option String} {old new : String} :
    (Action.updateNode node newLabel).classify trees = .rename old new ↔
      newLabel = some new ∧ trees.src.isCalleeToken node = true ∧
      (trees.src.label? node).getD "" = old := by
  cases newLabel with
  | none => simp [Action.classify, Tree.classifyUpdate]
  | some name =>
    have hside : trees.side (Action.updateNode node (some name)).side = trees.src := rfl
    rw [Action.classify, hside, Tree.classifyUpdate]
    split <;> simp_all [and_comm]

/-- **The renamings of a lowered tree name callees, the same as the signatures do, exactly if
nothing labelled stands below the first child of a call, unless that child is an identifier.** -/
theorem renames_name_callees_iff (source : String) (c : ConcreteTree) (dst : Tree) :
    let src := Tree.ofConcrete source c
    (∀ node newLabel old new, (src.label? node).isSome = true →
        (Action.updateNode node newLabel).classify ⟨src, dst⟩ = .rename old new →
          ∃ call, (src.parent? node).bind src.parent? = some call ∧
            src.calleeToken? call = some node ∧ old = (src.signature call).callee) ↔
      ∀ call slot, src.isCall call = true → (src.children call).head? = some slot →
        src.kind? slot ≠ some .identifierWrapper →
          ∀ i ∈ src.children slot, src.label? i = none := by
  intro src
  have hlowered : src.IsLowered := Tree.isLowered_ofConcrete source c
  constructor
  · intro h call slot hcall hhead hkind i hi
    have hparent := Tree.mem_children.mp hi
    have hslot := Tree.mem_children.mp (List.mem_of_head? hhead)
    by_contra hlabel
    -- the labelled node is reported as renamed, but it is no token of an identifier
    obtain ⟨call', -, hcallee, -⟩ := h i (some "") _ "" (Option.isSome_iff_ne_none.mpr hlabel)
      (Action.classify_updateNode_eq_rename_iff.mpr
        ⟨rfl, Tree.isCalleeToken_iff.mpr ⟨slot, call, hparent, hslot, hcall, hhead⟩, rfl⟩)
    have hname := Tree.identifierName?_eq_some_iff.mp (Tree.identifierName?_calleeToken? hcallee)
    rw [hparent, Option.bind_some] at hname
    exact hkind hname.2.1
  · intro h node newLabel old new hlabel hrename
    obtain ⟨-, hplace, hold⟩ := Action.classify_updateNode_eq_rename_iff.mp hrename
    obtain ⟨slot, call, hparent, hslot, hcall, hhead⟩ := Tree.isCalleeToken_iff.mp hplace
    have hchild := Tree.mem_children.mpr hparent
    have hkind : src.kind? slot = some .identifierWrapper := by
      by_contra hkind
      rw [h call slot hcall hhead hkind node hchild] at hlabel
      cases hlabel
    obtain ⟨tok, hwraps⟩ := hlowered.exists_token slot hkind
    rw [hwraps.children_identifier, List.mem_singleton] at hchild
    have hcallee : src.calleeToken? call = some node := hchild ▸ hwraps.calleeToken? hcall hhead
    refine ⟨call, by rw [hparent, Option.bind_some, hslot], hcallee, ?_⟩
    have hspelled := Tree.identifierName?_eq_some_iff.mp (Tree.identifierName?_calleeToken? hcallee)
    exact hold.symm.trans hspelled.2.2

/-- The syntax of `get(1)(x)`, where a call gives the function that is called. -/
def chainedCall : ConcreteTree :=
  .rule "translation_unit" none 0 10
    [.rule "expression_statement" none 0 10
      [.rule "call_expression" none 0 9
        [.rule "call_expression" (some "function") 0 6
          [.rule "identifier" (some "function") 0 3 [],
            .rule "argument_list" (some "arguments") 3 6 [.rule "number_literal" none 4 5 []]],
          .rule "argument_list" (some "arguments") 6 9 [.rule "identifier" none 7 8 []]]]]

/-- The argument of the inner call is reported as a renamed callee, while the callee is `get`. -/
theorem argument_reported_as_callee :
    let src := Tree.ofConcrete "get(1)(x);" chainedCall
    let dst := Tree.ofConcrete "get(2)(x);" chainedCall
    let script := EditScript.ofMapping src dst (matchTrees {} src dst)
    script = [.updateNode 6 (some "2")] ∧ src.label? 6 = some "1" ∧
      (Action.updateNode 6 (some "2")).classify ⟨src, dst⟩ = .rename "1" "2" ∧
      (script.records ⟨src, dst⟩).map (fun r => (r.change, r.previousCallee, r.callee)) =
        [(.renamed, some "1", "2")] ∧
      (src.parent? 6).bind src.parent? = some 2 ∧ (src.signature 2).callee = "get" := by
  decide +kernel

end CallDelta
