import CallDelta.Pipeline
import CallDelta.Proofs.CalleeTokens
import CallDelta.Proofs.IdentifierPairs

/-!
# No renamed callee is missed

An identifier that is called is paired with an identifier of another spelling. Then its token is
paired too, so the script updates the token; it does so once, and the token stands where a callee
stands. This is one record of a renaming.
-/

namespace CallDelta

/-- Whether a record of a script is about the renaming of a node. -/
def ChangeRecord.isRenamingOf (script : EditScript) (node : Nat) (r : ChangeRecord) : Bool :=
  r.change == .renamed && (script[r.actionIndex - 1]?).map (·.node) == some node

theorem filter_eq_singleton_of_countP_le_one {α : Type} {q : α → Bool} {l : List α} {a : α}
    (ha : a ∈ l) (hq : q a = true) (hone : l.countP q ≤ 1) : l.filter q = [a] := by
  rw [List.countP_eq_length_filter] at hone
  have hmem : a ∈ l.filter q := List.mem_filter.mpr ⟨ha, hq⟩
  match l.filter q, hone, hmem with
  | [b], _, hmem => rw [List.mem_singleton.mp hmem]

theorem flatMap_eq_flatMap_filter {α β : Type} {q : α → Bool} {f g : α → List β} {l : List α}
    (h : ∀ a ∈ l, f a = if q a then g a else []) : l.flatMap f = (l.filter q).flatMap g := by
  induction l with
  | nil => rfl
  | cons a l ih =>
    rw [List.flatMap_cons, h a List.mem_cons_self, ih fun b hb => h b (List.mem_cons_of_mem _ hb)]
    by_cases ha : q a = true <;> simp [ha]

namespace Action

variable {trees : TreePair} {a : Action} {old new : String}

theorem rename_mem_events_iff {i index node : Nat} :
    .rename index node old new ∈ a.events trees i ↔
      i = index ∧ a.node = node ∧ a.classify trees = .rename old new := by
  unfold events
  cases a.classify trees <;> simp [eq_comm]

theorem kind_of_classify_eq_rename (h : a.classify trees = .rename old new) :
    a.kind = .updateNode := by
  cases a with
  | updateNode => rfl
  | deleteNode | move => cases h
  | insertTree | insertNode | deleteTree =>
    rw [classify, Tree.classifyCalls] at h
    split at h <;> cases h

end Action

namespace EditScript

variable {trees : TreePair} {script : EditScript} {node : Nat}

theorem records_eq_flatMap (trees : TreePair) (script : EditScript) :
    script.records trees =
      script.zipIdx.flatMap (fun e => (e.1.events trees e.2).filterMap (·.record? trees)) := by
  rw [records, changeRecords, events, List.filterMap_flatMap]

theorem mem_records_of_action {a : Action} {index : Nat} {r : ChangeRecord}
    (h : r ∈ (a.events trees index).filterMap (·.record? trees)) :
    r.actionIndex = index + 1 ∧ (r.change = .renamed ↔ a.kind = .updateNode) := by
  obtain ⟨e, he, hr⟩ := List.mem_filterMap.mp h
  cases e with
  | call i kind i' c =>
    obtain ⟨rfl, hkind, -⟩ := Action.call_mem_events_iff.mp he
    rw [ChangeEvent.record?] at hr
    obtain ⟨change, hchange, hr⟩ := Option.bind_eq_some_iff.mp hr
    dsimp only at hr
    split at hr
    · cases hr
      rw [hkind]
      cases kind <;> cases hchange <;> exact ⟨rfl, nofun, nofun⟩
    · cases hr
  | rename i i' old new =>
    obtain ⟨rfl, -, hclass⟩ := Action.rename_mem_events_iff.mp he
    cases hr
    exact ⟨rfl, fun _ => Action.kind_of_classify_eq_rename hclass, fun _ => rfl⟩

/-- The renamings of a node come from its updates. -/
theorem filter_isRenamingOf (trees : TreePair) (script : EditScript) (node : Nat) :
    (script.records trees).filter (ChangeRecord.isRenamingOf script node) =
      (script.zipIdx.filter (fun e => e.1.names .updateNode node)).flatMap
        (fun e => (e.1.events trees e.2).filterMap (·.record? trees)) := by
  rw [records_eq_flatMap, List.filter_flatMap]
  refine flatMap_eq_flatMap_filter fun e he => ?_
  have hget : script[e.2]? = some e.1 := List.mem_zipIdx_iff_getElem?.mp he
  have hall : ∀ r ∈ (e.1.events trees e.2).filterMap (·.record? trees),
      r.isRenamingOf script node = e.1.names .updateNode node := by
    intro r hr
    obtain ⟨hindex, hchange⟩ := mem_records_of_action hr
    rw [ChangeRecord.isRenamingOf, hindex, Nat.add_sub_cancel, hget, Bool.eq_iff_iff]
    simp [Action.names, hchange]
  rw [List.filter_congr hall]
  cases e.1.names .updateNode node
  · exact List.filter_false _
  · exact List.filter_true _

/-- A node that is updated once to a new callee has one renaming. -/
theorem exists_renaming {old new : String} (hmem : .updateNode node (some new) ∈ script)
    (honce : script.countP (·.names .updateNode node) ≤ 1)
    (hplace : trees.src.isCalleeToken node = true) (hold : trees.src.label? node = some old) :
    ∃ r, (script.records trees).filter (ChangeRecord.isRenamingOf script node) = [r] ∧
      r.previousCallee = some old ∧ r.callee = new := by
  have hfilter := filter_eq_singleton_of_countP_le_one hmem (by simp [Action.names, Action.kind,
    Action.node]) honce
  have hplaced : (script.zipIdx.filter (fun e => e.1.names .updateNode node)).map (·.1) =
      [.updateNode node (some new)] := by
    rw [← hfilter]
    conv => rhs; rw [← List.zipIdx_map_fst 0 script, List.filter_map]
    rfl
  obtain ⟨⟨a, index⟩, he, rfl⟩ := List.map_eq_singleton_iff.mp hplaced
  have hclass : (Action.updateNode node (some new)).classify trees = .rename old new :=
    Action.classify_updateNode_eq_rename_iff.mpr ⟨rfl, hplace, by rw [hold]; rfl⟩
  rw [filter_isRenamingOf, he, List.flatMap_singleton, Action.events, hclass]
  exact ⟨_, rfl, rfl, rfl⟩

end EditScript

/-- **In lowered trees identifiers are paired together with their tokens, and a called identifier
that is paired with an identifier of another spelling has one record of a renaming, with both
spellings.** -/
theorem renamed_callee_reported_once (parse : String → Except SourceError Tree)
    (options : MatchOptions) (before after : String) (cs cd : ConcreteTree) (hcs : cs.IsFile)
    (hcd : cd.IsFile)
    (hdigest : DigestsDiscern (.ofConcrete before cs) (.ofConcrete after cd)) :
    let src := Tree.ofConcrete before cs
    let dst := Tree.ofConcrete after cd
    let outcome := (Pipeline.standard parse options).compare ⟨src, dst⟩
    (∀ w w', src.kind? w = some .identifierWrapper → dst.kind? w' = some .identifierWrapper →
      ∃ tok tok', src.Wraps w tok ∧ dst.Wraps w' tok' ∧
        (outcome.mapping.dstOf? w = some w' ↔ outcome.mapping.dstOf? tok = some tok')) ∧
      ∀ call w tok w' tok' a b, src.isCall call = true → (src.children call).head? = some w →
        src.Wraps w tok → dst.Wraps w' tok' → src.label? tok = some a → dst.label? tok' = some b →
        b ≠ a → outcome.mapping.dstOf? w = some w' →
          ∃ r, outcome.records.filter (ChangeRecord.isRenamingOf outcome.script tok) = [r] ∧
            r.previousCallee = some a ∧ r.callee = b := by
  intro src dst outcome
  have hl : (MatchProblem.ofTrees src dst).OfLowered :=
    ⟨Tree.isLowered_ofConcrete before cs, Tree.isLowered_ofConcrete after cd,
      Tree.typesTellKinds_ofConcrete before hcs, Tree.typesTellKinds_ofConcrete after hcd⟩
  have hpairs := pairsIdentifiers_matchTrees hl hdigest options
  refine ⟨fun w w' hw hw' => ?_, ?_⟩
  · obtain ⟨tok, hwraps⟩ := hl.src.exists_token w hw
    obtain ⟨tok', hwraps'⟩ := hl.dst.exists_token w' hw'
    exact ⟨tok, tok', hwraps, hwraps', hpairs.together hwraps hwraps'⟩
  · intro call w tok w' tok' a b hcall hhead hw hw' ha hb hne hmapped
    have htok := (hpairs.together hw hw').mp hmapped
    have hupdate : .updateNode tok (some b) ∈ outcome.script := by
      refine EditScript.mem_ofMapping_iff.mpr
        (Or.inl ⟨tok', Tree.lt_size_of_kind? hw'.kind_token, ?_⟩)
      refine EditScript.mem_atDestination_iff.mpr (Or.inr (Or.inr (Or.inl ⟨tok, ?_, ?_, ?_⟩)))
      · exact Mapping.dstOf?_eq_some_iff.mp htok
      · rw [ha, hb]
        exact fun h => hne (Option.some.inj h).symm
      · rw [hb]
    have hplace : src.isCalleeToken tok = true := Tree.isCalleeToken_iff.mpr
      ⟨w, call, hw.parent_token, Tree.mem_children.mp (List.mem_of_head? hhead), hcall, hhead⟩
    exact EditScript.exists_renaming hupdate
      (EditScript.countP_names_ofMapping_le_one (Or.inl rfl) tok)
      hplace ha

/-- The syntax of a statement such as `foo(x);`. -/
def callStatement : ConcreteTree :=
  .rule "translation_unit" none 0 7
    [.rule "expression_statement" none 0 7
      [.rule "call_expression" none 0 6
        [.rule "identifier" (some "function") 0 3 [],
          .rule "argument_list" (some "arguments") 3 6 [.rule "identifier" none 4 5 []]]]]

theorem isFile_callStatement : callStatement.IsFile where
  root_ne_identifier := by decide
  ne_token := by
    simp [callStatement, ConcreteTree.rule, Rose.everywhere_node_iff]

/-- `foo(x)` becomes `bar(x)`. The calls are paired because they share the argument. -/
theorem renamed_callee_foo_bar :
    let src := Tree.ofConcrete "foo(x);" callStatement
    let dst := Tree.ofConcrete "bar(x);" callStatement
    let outcome := (Pipeline.standard (fun _ => .ok src) {}).compare ⟨src, dst⟩
    (callStatement.IsFile ∧ DigestsDiscern src dst ∧ src.isCall 2 = true ∧
      (src.children 2).head? = some 3 ∧ src.Wraps 3 4 ∧ dst.Wraps 3 4 ∧
      src.label? 4 = some "foo" ∧ dst.label? 4 = some "bar" ∧ outcome.mapping.dstOf? 3 = some 3) ∧
      outcome.mapping.dstOf? 4 = some 4 ∧
      ∃ r, outcome.records.filter (ChangeRecord.isRenamingOf outcome.script 4) = [r] ∧
        r.previousCallee = some "foo" ∧ r.callee = "bar" := by
  intro src dst outcome
  have hfile := isFile_callStatement
  obtain ⟨hdigest, hcall, hhead, hw, hw', hfoo, hbar⟩ :
      DigestsDiscern src dst ∧ src.isCall 2 = true ∧ (src.children 2).head? = some 3 ∧
      src.Wraps 3 4 ∧ dst.Wraps 3 4 ∧ src.label? 4 = some "foo" ∧ dst.label? 4 = some "bar" := by
    decide +kernel
  have hmapped : outcome.mapping.dstOf? 3 = some 3 := by decide +kernel
  obtain ⟨htogether, hrenamed⟩ :=
    renamed_callee_reported_once (fun _ => .ok src) {} "foo(x);" "bar(x);"
    callStatement callStatement hfile hfile hdigest
  refine ⟨⟨hfile, hdigest, hcall, hhead, hw, hw', hfoo, hbar, hmapped⟩, ?_, ?_⟩
  · obtain ⟨tok, tok', htok, htok', hiff⟩ := htogether 3 3 hw.kind_identifier hw'.kind_identifier
    rw [← (hw.eq_iff htok).mp rfl, ← (hw'.eq_iff htok').mp rfl] at hiff
    exact hiff.mp hmapped
  · exact hrenamed 2 3 4 3 4 "foo" "bar" hcall hhead hw hw' hfoo hbar (by decide) hmapped

end CallDelta
