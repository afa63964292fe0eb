import CallDelta.Calls.Event
import CallDelta.Matching.Match
import CallDelta.Proofs.Accounting
import CallDelta.Proofs.LocatedCalls
import CallDelta.Tree.Growth
import Mathlib.Data.List.Nodup
import Mathlib.Data.List.Pairwise

/-!
# Which calls a script reports

An action that inserts or deletes a subtree carries the calls located in it, and so does an action
that inserts a single node above paired ones. The first two keep to unpaired nodes. The third looks
into subtrees that other actions of the script speak about, and into what is paired.

* `EditScript.call_mem_events_iff`: where a reported call comes from
* `paired_calls_unreported_iff`: when no call that is paired is reported
* `reportedCalls_nodup_iff`: when no call is reported twice
-/

namespace CallDelta

/-! ## The calls of an action -/

/-- The tree that actions of a kind are about. -/
def ActionKind.side : ActionKind → Side
  | insertTree | insertNode => .destination
  | deleteTree | deleteNode | updateNode | move => .source

/-- Whether actions of a kind carry the calls below their node. -/
def ActionKind.carriesCalls : ActionKind → Bool
  | insertTree | deleteTree | insertNode => true
  | deleteNode | updateNode | move => false

/-- The call that an event is about, and the tree it is in. -/
def ChangeEvent.call? : ChangeEvent → Option (Side × Nat)
  | .call _ action _ callNode => some (action.side, callNode)
  | .rename .. => none

/-- The calls that a script reports, one entry for each event. -/
def EditScript.reportedCalls (trees : TreePair) (script : EditScript) : List (Side × Nat) :=
  (script.events trees).filterMap (·.call?)

namespace Action

variable {trees : TreePair} {a : Action}

/-- The calls that an action carries. -/
def calls (trees : TreePair) (a : Action) : List Nat :=
  if a.kind.carriesCalls then (trees.side a.side).locateCalls (some a.node) else []

theorem kind_side (a : Action) : a.kind.side = a.side := by
  cases a <;> rfl

theorem events_of_carriesCalls (h : a.kind.carriesCalls = true) (index : Nat) :
    a.events trees index = (a.calls trees).map (.call index a.kind a.node) := by
  have hclassify : a.classify trees = (trees.side a.side).classifyCalls a.node := by
    cases a <;> first | rfl | cases h
  rw [events, hclassify, calls, if_pos h, Tree.classifyCalls]
  cases (trees.side a.side).locateCalls (some a.node) <;> rfl

theorem classifyUpdate_cases (t : Tree) (node : Nat) (newLabel : Option String) :
    t.classifyUpdate node newLabel = .ignore ∨
      ∃ old new, t.classifyUpdate node newLabel = .rename old new := by
  unfold Tree.classifyUpdate
  split
  · split
    · exact Or.inr ⟨_, _, rfl⟩
    · exact Or.inl rfl
  · exact Or.inl rfl

/-- Other actions have no event about a call. -/
theorem call?_eq_none_of_not_carriesCalls (h : a.kind.carriesCalls = false) {index : Nat}
    {e : ChangeEvent} (he : e ∈ a.events trees index) : e.call? = none := by
  cases a with
  | insertTree | deleteTree | insertNode => cases h
  | deleteNode | move => cases he
  | updateNode node newLabel =>
    rcases classifyUpdate_cases (trees.side .source) node newLabel with hu | ⟨old, new, hu⟩
    · rw [events, classify, side, hu] at he
      cases he
    · rw [events, classify, side, hu] at he
      rw [List.mem_singleton.mp he]
      rfl

theorem filterMap_events (a : Action) (index : Nat) :
    (a.events trees index).filterMap (·.call?) = (a.calls trees).map (a.side, ·) := by
  cases h : a.kind.carriesCalls with
  | true =>
    rw [events_of_carriesCalls h, List.filterMap_map, ← List.filterMap_eq_map, ← kind_side]
    rfl
  | false =>
    rw [List.filterMap_eq_nil_iff.mpr fun e he => call?_eq_none_of_not_carriesCalls h he]
    simp [calls, h]

theorem mem_calls_iff {c : Nat} :
    c ∈ a.calls trees ↔
      a.kind.carriesCalls = true ∧ (trees.side a.side).IsOuterCall a.node c := by
  rw [calls]
  cases a.kind.carriesCalls <;> simp [Tree.mem_locateCalls_iff]

theorem calls_nodup (trees : TreePair) (a : Action) : (a.calls trees).Nodup := by
  rw [calls]
  split
  · exact Tree.locateCalls_nodup _ _
  · exact List.nodup_nil

theorem call_mem_events_iff {i index node c : Nat} {kind : ActionKind} :
    .call index kind node c ∈ a.events trees i ↔
      i = index ∧ a.kind = kind ∧ a.node = node ∧ c ∈ a.calls trees := by
  cases h : a.kind.carriesCalls with
  | true =>
    simp only [events_of_carriesCalls h, List.mem_map, ChangeEvent.call.injEq]
    constructor
    · rintro ⟨c', hc, rfl, rfl, rfl, rfl⟩
      exact ⟨rfl, rfl, rfl, hc⟩
    · rintro ⟨rfl, rfl, rfl, hc⟩
      exact ⟨c, hc, rfl, rfl, rfl, rfl⟩
  | false =>
    constructor
    · intro he
      cases call?_eq_none_of_not_carriesCalls h he
    · rintro ⟨-, -, -, hc⟩
      rw [(mem_calls_iff.mp hc).1] at h
      cases h

end Action

/-! ## The calls of a script -/

namespace EditScript

variable {trees : TreePair} {src dst : Tree} {m : Mapping} {script : EditScript} {x s c : Nat}

/-- **A call is reported where an action carries it.** -/
theorem call_mem_events_iff {index node : Nat} {kind : ActionKind} :
    .call index kind node c ∈ script.events trees ↔
      ∃ a, script[index]? = some a ∧ a.kind = kind ∧ a.node = node ∧ c ∈ a.calls trees := by
  simp only [events, List.mem_flatMap, Prod.exists, List.mem_zipIdx_iff_getElem?,
    Action.call_mem_events_iff]
  constructor
  · rintro ⟨a, i, hget, rfl, hkind, hnode, hc⟩
    exact ⟨a, hget, hkind, hnode, hc⟩
  · rintro ⟨a, hget, hkind, hnode, hc⟩
    exact ⟨a, index, hget, rfl, hkind, hnode, hc⟩

theorem reportedCalls_eq_flatMap (trees : TreePair) (script : EditScript) :
    script.reportedCalls trees = script.flatMap (fun a => (a.calls trees).map (a.side, ·)) := by
  conv => rhs; rw [← List.zipIdx_map_fst 0 script, List.flatMap_map]
  simp only [reportedCalls, events, List.filterMap_flatMap, Action.filterMap_events]

theorem mem_reportedCalls_iff {side : Side} :
    (side, c) ∈ script.reportedCalls trees ↔ ∃ a ∈ script, a.side = side ∧ c ∈ a.calls trees := by
  rw [reportedCalls_eq_flatMap, List.mem_flatMap]
  refine exists_congr fun a => and_congr_right fun _ => ?_
  simp only [List.mem_map, Prod.mk.injEq]
  constructor
  · rintro ⟨c', hc, hside, rfl⟩
    exact ⟨hside, hc⟩
  · rintro ⟨hside, hc⟩
    exact ⟨c, hc, hside, rfl⟩

theorem reportedCalls_flatMap {α : Type} (trees : TreePair) (l : List α) (f : α → EditScript) :
    reportedCalls trees (l.flatMap f) = l.flatMap (fun i => (f i).reportedCalls trees) := by
  simp only [reportedCalls_eq_flatMap, List.flatMap_assoc]

/-! ## The calls at a node -/

theorem mem_reportedCalls_atDestination {side : Side} :
    (side, c) ∈ reportedCalls ⟨src, dst⟩ (atDestination src dst m x) ↔
      side = .destination ∧ m.hasDst x = false ∧ dst.SpeaksFor m.hasDst x x ∧
        dst.IsOuterCall x c := by
  rw [mem_reportedCalls_iff]
  constructor
  · rintro ⟨a, ha, rfl, hc⟩
    obtain ⟨hcarries, hc⟩ := Action.mem_calls_iff.mp hc
    rcases mem_atDestination_iff.mp ha with ⟨hx, hf, rfl⟩ | ⟨hx, ht, rfl⟩ | ⟨s, -, -, rfl⟩ |
      ⟨s, px, ps, -, -, -, -, rfl⟩
    · exact ⟨rfl, Mapping.hasDst_eq_false_iff.mpr hx, Or.inl ⟨hf, rfl⟩, hc⟩
    · exact ⟨rfl, Mapping.hasDst_eq_false_iff.mpr hx, Or.inr ⟨ht, .refl⟩, hc⟩
    · cases hcarries
    · cases hcarries
  · rintro ⟨rfl, hx, hspeaks, hc⟩
    have hx := Mapping.hasDst_eq_false_iff.mp hx
    rcases hspeaks with ⟨hf, -⟩ | ⟨ht, -⟩
    · exact ⟨_, mem_atDestination_iff.mpr (Or.inl ⟨hx, hf, rfl⟩), rfl,
        Action.mem_calls_iff.mpr ⟨rfl, hc⟩⟩
    · exact ⟨_, mem_atDestination_iff.mpr (Or.inr (Or.inl ⟨hx, ht, rfl⟩)), rfl,
        Action.mem_calls_iff.mpr ⟨rfl, hc⟩⟩

theorem mem_reportedCalls_atSource {side : Side}
    (h : (side, c) ∈ reportedCalls ⟨src, dst⟩ (atSource src m s)) :
    side = .source ∧ src.IsTop m.hasSrc s ∧ src.IsOuterCall s c := by
  obtain ⟨a, ha, rfl, hc⟩ := mem_reportedCalls_iff.mp h
  obtain ⟨hcarries, hc⟩ := Action.mem_calls_iff.mp hc
  rcases mem_atSource_iff.mp ha with ⟨-, -, rfl⟩ | ⟨-, ht, rfl⟩
  · cases hcarries
  · exact ⟨rfl, ht, hc⟩

theorem reportedCalls_nodup_of_length_le_one (h : script.length ≤ 1) :
    (script.reportedCalls trees).Nodup := by
  rw [reportedCalls_eq_flatMap]
  match script, h with
  | [], _ => exact List.nodup_nil
  | [a], _ =>
    rw [List.flatMap_singleton]
    exact (a.calls_nodup trees).map fun _ _ h => (Prod.mk.inj h).2

theorem reportedCalls_atDestination_nodup :
    (reportedCalls ⟨src, dst⟩ (atDestination src dst m x)).Nodup := by
  cases hx : m.srcOf? x with
  | none =>
    rw [atDestination_of_unpaired hx]
    refine reportedCalls_nodup_of_length_le_one ?_
    rw [insertion_eq]
    cases dst.isFree m.hasDst x <;> cases dst.belowFree m.hasDst x <;> simp
  | some s =>
    -- a paired node is updated and moved, which carries no calls
    have hnone : reportedCalls ⟨src, dst⟩ (atDestination src dst m x) = [] := by
      refine List.eq_nil_iff_forall_not_mem.mpr fun ⟨side, c⟩ hmem => ?_
      obtain ⟨-, hfree, -⟩ := mem_reportedCalls_atDestination.mp hmem
      rw [Mapping.hasDst, hx] at hfree
      cases hfree
    rw [hnone]
    exact List.nodup_nil

theorem reportedCalls_atSource_nodup :
    (reportedCalls ⟨src, dst⟩ (atSource src m s)).Nodup := by
  refine reportedCalls_nodup_of_length_le_one ?_
  rw [atSource_eq]
  cases m.hasSrc s <;> cases src.isFree m.hasSrc s <;> cases src.belowFree m.hasSrc s <;> simp

/-! ## Calls that are reported twice -/

theorem nodup_flatMap_iff {α β : Type} {l : List α} {f : α → List β} (hl : l.Nodup)
    (hf : ∀ i ∈ l, (f i).Nodup) :
    (l.flatMap f).Nodup ↔ ∀ i ∈ l, ∀ j ∈ l, ∀ b, b ∈ f i → b ∈ f j → i = j := by
  rw [List.nodup_flatMap]
  constructor
  · rintro ⟨-, hapart⟩ i hi j hj b hbi hbj
    have hsymm : Std.Symm (Function.onFun List.Disjoint f) := ⟨fun _ _ h b hi hj => h hj hi⟩
    by_contra hne
    exact hapart.forall hi hj hne hbi hbj
  · intro h
    refine ⟨hf, hl.pairwise_of_forall_ne fun i hi j hj hne b hbi hbj => ?_⟩
    exact hne (h i hi j hj b hbi hbj)

/-- Deleted subtrees have no node in common, so no call is reported twice as deleted. -/
theorem reportedCalls_source_nodup :
    (reportedCalls ⟨src, dst⟩ ((src.postOrder src.root).flatMap (atSource src m))).Nodup := by
  rw [reportedCalls_flatMap,
    nodup_flatMap_iff src.postOrder_root_nodup fun _ _ => reportedCalls_atSource_nodup]
  rintro y hy z hz ⟨side, c⟩ hyc hzc
  obtain ⟨-, hty, hyc⟩ := mem_reportedCalls_atSource hyc
  obtain ⟨-, htz, hzc⟩ := mem_reportedCalls_atSource hzc
  rcases hyc.within.comparable hzc.within with h | h
  · exact (hty.eq_of_within (Tree.mem_postOrder_root.mp hy) htz h).symm
  · exact htz.eq_of_within (Tree.mem_postOrder_root.mp hz) hty h

/-- Two reports of one call as inserted come from two nodes above it. -/
theorem reportedCalls_destination_nodup_iff :
    (reportedCalls ⟨src, dst⟩ (dst.breadthFirst.flatMap (atDestination src dst m))).Nodup ↔
      ∀ x y c, m.hasDst x = false → dst.SpeaksFor m.hasDst x x → dst.IsOuterCall x c →
        m.hasDst y = false → dst.SpeaksFor m.hasDst y y → dst.IsOuterCall y c → x = y := by
  rw [reportedCalls_flatMap,
    nodup_flatMap_iff dst.breadthFirst_nodup fun _ _ => reportedCalls_atDestination_nodup]
  constructor
  · intro h x y c hx hxx hxc hy hyy hyc
    exact h x (Tree.mem_breadthFirst.mpr hxc.lt_size) y (Tree.mem_breadthFirst.mpr hyc.lt_size)
      (.destination, c) (mem_reportedCalls_atDestination.mpr ⟨rfl, hx, hxx, hxc⟩)
      (mem_reportedCalls_atDestination.mpr ⟨rfl, hy, hyy, hyc⟩)
  · rintro h x - y - ⟨side, c⟩ hxc hyc
    obtain ⟨-, hx, hxx, hxc⟩ := mem_reportedCalls_atDestination.mp hxc
    obtain ⟨-, hy, hyy, hyc⟩ := mem_reportedCalls_atDestination.mp hyc
    exact h x y c hx hxx hxc hy hyy hyc

theorem reportedCalls_ofMapping_nodup_iff :
    ((ofMapping src dst m).reportedCalls ⟨src, dst⟩).Nodup ↔
      (reportedCalls ⟨src, dst⟩ (dst.breadthFirst.flatMap (atDestination src dst m))).Nodup := by
  have happend : (ofMapping src dst m).reportedCalls ⟨src, dst⟩ =
      reportedCalls ⟨src, dst⟩ (dst.breadthFirst.flatMap (atDestination src dst m)) ++
        reportedCalls ⟨src, dst⟩ ((src.postOrder src.root).flatMap (atSource src m)) := by
    simp only [ofMapping_eq, reportedCalls_eq_flatMap, List.flatMap_append]
  rw [happend, List.nodup_append]
  refine ⟨fun h => h.1, fun h => ⟨h, reportedCalls_source_nodup, ?_⟩⟩
  rintro _ hd ⟨side, c⟩ hs rfl
  rw [reportedCalls_flatMap] at hd hs
  obtain ⟨x, -, hx⟩ := List.mem_flatMap.mp hd
  obtain ⟨s, -, hs⟩ := List.mem_flatMap.mp hs
  rw [(mem_reportedCalls_atDestination.mp hx).1] at hs
  cases (mem_reportedCalls_atSource hs).1

/-! ## Where a reported call comes from -/

/-- **The events of a script about calls**, by the kind of their action. -/
theorem exists_call_event_iff {kind : ActionKind} {node : Nat} :
    (∃ index, .call index kind node c ∈ (ofMapping src dst m).events ⟨src, dst⟩) ↔
      (kind = .insertNode ∧ m.hasDst node = false ∧ dst.isFree m.hasDst node = false ∧
        dst.IsOuterCall node c) ∨
      (kind = .insertTree ∧ dst.IsTop m.hasDst node ∧ dst.IsOuterCall node c) ∨
      (kind = .deleteTree ∧ src.IsTop m.hasSrc node ∧ src.IsOuterCall node c) := by
  constructor
  · rintro ⟨index, h⟩
    obtain ⟨a, hget, rfl, rfl, hc⟩ := call_mem_events_iff.mp h
    obtain ⟨hcarries, hc⟩ := Action.mem_calls_iff.mp hc
    rcases mem_ofMapping_iff.mp (List.mem_of_getElem? hget) with ⟨x, -, ha⟩ | ⟨s, -, ha⟩
    · rcases mem_atDestination_iff.mp ha with ⟨hx, hf, rfl⟩ | ⟨-, ht, rfl⟩ | ⟨s, -, -, rfl⟩ |
        ⟨s, px, ps, -, -, -, -, rfl⟩
      · exact Or.inl ⟨rfl, Mapping.hasDst_eq_false_iff.mpr hx, hf, hc⟩
      · exact Or.inr (Or.inl ⟨rfl, ht, hc⟩)
      · cases hcarries
      · cases hcarries
    · rcases mem_atSource_iff.mp ha with ⟨-, -, rfl⟩ | ⟨-, ht, rfl⟩
      · cases hcarries
      · exact Or.inr (Or.inr ⟨rfl, ht, hc⟩)
  · intro h
    obtain ⟨a, ha, rfl, rfl, hc⟩ : ∃ a ∈ ofMapping src dst m, a.kind = kind ∧ a.node = node ∧
        c ∈ a.calls ⟨src, dst⟩ := by
      rcases h with ⟨rfl, hx, hf, hc⟩ | ⟨rfl, ht, hc⟩ | ⟨rfl, ht, hc⟩
      · exact ⟨_, mem_ofMapping_iff.mpr (Or.inl ⟨node, hc.lt_size, mem_atDestination_iff.mpr
          (Or.inl ⟨Mapping.hasDst_eq_false_iff.mp hx, hf, rfl⟩)⟩), rfl, rfl,
          Action.mem_calls_iff.mpr ⟨rfl, hc⟩⟩
      · have hx := Mapping.hasDst_eq_false_iff.mp (Tree.paired_eq_false_of_isFree hc.lt_size ht.1)
        exact ⟨_, mem_ofMapping_iff.mpr (Or.inl ⟨node, hc.lt_size, mem_atDestination_iff.mpr
          (Or.inr (Or.inl ⟨hx, ht, rfl⟩))⟩), rfl, rfl, Action.mem_calls_iff.mpr ⟨rfl, hc⟩⟩
      · have hs := Tree.paired_eq_false_of_isFree hc.lt_size ht.1
        exact ⟨_, mem_ofMapping_iff.mpr (Or.inr ⟨node, hc.lt_size, mem_atSource_iff.mpr
          (Or.inr ⟨hs, ht, rfl⟩)⟩), rfl, rfl, Action.mem_calls_iff.mpr ⟨rfl, hc⟩⟩
    obtain ⟨index, hget⟩ := List.mem_iff_getElem?.mp ha
    exact ⟨index, call_mem_events_iff.mpr ⟨a, hget, rfl, rfl, hc⟩⟩

end EditScript

namespace Tree

variable {t : Tree} {paired : Nat → Bool} {x y i c : Nat}

/-- An outer call of a free subtree is not paired. -/
theorem IsTop.paired_call_eq_false (ht : t.IsTop paired x) (hc : t.IsOuterCall x c) :
    paired c = false :=
  (isFree_iff hc.lt_size).mp ht.1 c hc.within

theorem SpeaksFor.self (h : t.SpeaksFor paired y i) : t.SpeaksFor paired y y := by
  rcases h with ⟨hf, -⟩ | ⟨ht, -⟩
  · exact Or.inl ⟨hf, rfl⟩
  · exact Or.inr ⟨ht, .refl⟩

/-- Two unpaired nodes that speak for themselves, one above the other, are one node unless the upper
one is above a paired node. -/
theorem SpeaksFor.eq_of_above (hx : x < t.size) (hxfree : paired x = false)
    (hxx : t.SpeaksFor paired x x) (hyy : t.SpeaksFor paired y y) (hyfree : paired y = false)
    (hxy : t.Within x y) (h : t.IsPartlyPaired paired x → y ≠ x → paired y = true) : y = x := by
  rcases hxx with ⟨hf, -⟩ | ⟨htx, -⟩
  · by_contra hne
    rw [h (isPartlyPaired_of_not_free hx hxfree hf) hne] at hyfree
    cases hyfree
  · rcases hyy with ⟨hf, -⟩ | ⟨hty, -⟩
    · rw [isFree_of_within hx htx.1 hxy] at hf
      cases hf
    · exact htx.eq_of_within hx hty hxy

/-- Who speaks for an unpaired node below a node that is not free lies below that node too. -/
theorem SpeaksFor.within_of_not_free (hy : y < t.size) (hf : t.isFree paired x = false)
    (hxi : t.Within x i) (hspeaks : t.SpeaksFor paired y i) (hne : i ≠ x) :
    t.Within x y ∧ y ≠ x := by
  rcases hspeaks with ⟨-, rfl⟩ | ⟨ht, hyi⟩
  · exact ⟨hxi, hne⟩
  · have hyx : ¬ t.Within y x := by
      intro hyx
      rw [isFree_of_within hy ht.1 hyx] at hf
      cases hf
    refine ⟨(hxi.comparable hyi).resolve_right hyx, ?_⟩
    rintro rfl
    exact hyx .refl

theorem IsPartlyPaired.isFree_eq_false (h : t.IsPartlyPaired paired x) :
    t.isFree paired x = false := by
  obtain ⟨-, j, hj, hpaired⟩ := h
  obtain ⟨hx, hxj, -⟩ := mem_descendants_iff.mp hj
  exact (isFree_eq_false_iff hx).mpr ⟨j, hxj, hpaired⟩

end Tree

/-! ## Two trees -/

/-- **Inserted and deleted subtrees have no paired calls. Inserted nodes have none exactly if
everything between a paired call and the next call above it is paired.** -/
theorem paired_calls_unreported_iff (options : MatchOptions) (src dst : Tree) :
    let m := matchTrees options src dst
    let events := (EditScript.ofMapping src dst m).events ⟨src, dst⟩
    (∀ index node c, .call index .insertTree node c ∈ events → m.hasDst c = false) ∧
    (∀ index node c, .call index .deleteTree node c ∈ events → m.hasSrc c = false) ∧
    ((∀ index node c, .call index .insertNode node c ∈ events → m.hasDst c = false) ↔
      ∀ x c, m.hasDst c = true → dst.IsOuterCall x c → m.hasDst x = true) := by
  intro m events
  refine ⟨fun index node c h => ?_, fun index node c h => ?_, ?_⟩
  · rcases EditScript.exists_call_event_iff.mp ⟨index, h⟩ with ⟨hk, -⟩ | ⟨-, ht, hc⟩ | ⟨hk, -⟩
    · cases hk
    · exact ht.paired_call_eq_false hc
    · cases hk
  · rcases EditScript.exists_call_event_iff.mp ⟨index, h⟩ with ⟨hk, -⟩ | ⟨hk, -⟩ | ⟨-, ht, hc⟩
    · cases hk
    · cases hk
    · exact ht.paired_call_eq_false hc
  · constructor
    · intro h x c hpaired hc
      cases hx : m.hasDst x with
      | true => rfl
      | false =>
        -- the node is inserted by itself, above the paired call
        have hf := (Tree.isFree_eq_false_iff hc.lt_size).mpr ⟨c, hc.within, hpaired⟩
        obtain ⟨index, he⟩ : ∃ index, .call index .insertNode x c ∈ events :=
          EditScript.exists_call_event_iff.mpr (Or.inl ⟨rfl, hx, hf, hc⟩)
        rw [h index x c he] at hpaired
        cases hpaired
    · intro h index node c he
      rcases EditScript.exists_call_event_iff.mp ⟨index, he⟩ with ⟨-, hx, -, hc⟩ | ⟨hk, -⟩ | ⟨hk, -⟩
      · cases hpaired : m.hasDst c with
        | false => rfl
        | true =>
          rw [h node c hpaired hc] at hx
          cases hx
      · cases hk
      · cases hk

/-- A file of one statement. -/
def fileOf (statement : Rose NodeData) : Tree :=
  .ofRose (.node { kind := .other, typeName := "translation_unit" } [statement])

/-- Statements under a condition. -/
def ifOf (statements : List (Rose NodeData)) : Rose NodeData :=
  .node { kind := .other, typeName := "if_statement" } statements

/-- The call `f()`. -/
def callOfF : Rose NodeData := callRose [identifierRose "f" none] none

/-- A call that is put under a condition is paired, and reported as inserted. -/
theorem paired_call_reported_under_condition :
    let m := matchTrees {} (fileOf callOfF) (fileOf (ifOf [callOfF]))
    let events := (EditScript.ofMapping (fileOf callOfF) (fileOf (ifOf [callOfF])) m).events
      ⟨fileOf callOfF, fileOf (ifOf [callOfF])⟩
    .call 0 .insertNode 1 2 ∈ events ∧ m.dstOf? 1 = some 2 := by
  decide +kernel

/-- **No call is reported twice exactly if, below an unpaired node above paired ones, everything on
the way down to a located call is paired.** -/
theorem reportedCalls_nodup_iff (src dst : Tree) (m : Mapping) :
    ((EditScript.ofMapping src dst m).reportedCalls ⟨src, dst⟩).Nodup ↔
      ∀ x c, dst.IsPartlyPaired m.hasDst x → dst.IsOuterCall x c →
        ∀ y, dst.Within x y → dst.Within y c → y ≠ x → m.hasDst y = true := by
  rw [EditScript.reportedCalls_ofMapping_nodup_iff, EditScript.reportedCalls_destination_nodup_iff]
  constructor
  · intro h x c hx hc y hxy hyc hne
    have hf := hx.isFree_eq_false
    cases hy : m.hasDst y with
    | true => rfl
    | false =>
      -- who speaks for `y` reports the call a second time
      have hlt : y < dst.size := hxy.lt_size hc.lt_size
      obtain ⟨z, hz, hspeaks⟩ := Tree.exists_speaksFor m.hasDst hlt
      obtain ⟨hxz, hzx⟩ := hspeaks.within_of_not_free hz hf hxy hne
      have hzc := hc.of_within hxz (hspeaks.within.trans hyc)
      have hzfree : m.hasDst z = false := by
        rcases hspeaks with ⟨-, rfl⟩ | ⟨ht, -⟩
        · exact hy
        · exact Tree.paired_eq_false_of_isFree hz ht.1
      exact absurd (h z x c hzfree hspeaks.self hzc hx.1 (Or.inl ⟨hf, rfl⟩) hc) hzx
  · -- of two nodes that report one call, the lower one lies on the way down to it
    intro h x y c hx hxx hxc hy hyy hyc
    rcases hxc.within.comparable hyc.within with hxy | hyx
    · exact (hxx.eq_of_above hxc.lt_size hx hyy hy hxy fun hpart hne =>
        h x c hpart hxc y hxy hyc.within hne).symm
    · exact hyy.eq_of_above hyc.lt_size hy hxx hx hyx fun hpart hne =>
        h y c hpart hyc x hyx hxc.within hne

/-- A new call beside an old identifier, both put under a new condition, is reported with the
condition and by itself. -/
theorem new_call_reported_twice :
    let x := identifierRose "x" none
    let trees : TreePair := ⟨fileOf x, fileOf (ifOf [x, callOfF])⟩
    let m := matchTrees {} trees.src trees.dst
    ¬ ((EditScript.ofMapping trees.src trees.dst m).reportedCalls trees).Nodup := by
  decide +kernel

end CallDelta
