import CallDelta.Calls.Signature
import CallDelta.Proofs.RoseOfTree
import Mathlib.Data.List.Nodup
import Mathlib.Logic.Relation

/-!
# Trees grown step by step

A tree is grown by steps in any order, and a step may name any number as its parent. Each step
grafts a rose tree below its parent (`GrowthStep.perform?_eq_graft?`) or is refused. What has been
grown keeps its numbers, its content and its parents (`Tree.Extends`), so that a subtree below which
nothing is added reads the same at the end.

* `Tree.rooted`: in a tree each node but the first is listed once, below a node of smaller number
* `Tree.signature_of_rose`: a call of identifiers is read back as its signature
* `Tree.run_extends`: no step takes anything back
* `GrowthStep.account`: what a step does, whatever follows
-/

namespace CallDelta

namespace Tree

variable {t t' t'' : Tree} {i c p w : Nat}

/-! ## Rooted trees -/

/-- Every node but node 0 has a parent of smaller number and is listed once, among the children of
its parent; siblings are listed by number; and the lists of children lead from the root to every
node. -/
structure Rooted (t : Tree) : Prop where
  parent?_eq_none_iff : ∀ i, i < t.size → (t.parent? i = none ↔ i = 0)
  listed_once : ∀ i, i < t.size → i ≠ 0 → ∃ p, t.parent? i = some p ∧ p < i ∧
    (t.children p).count i = 1 ∧ (t.ids.flatMap t.children).count i = 1
  children_increasing : ∀ i, (t.children i).Pairwise (· < ·)
  reachable : ∀ i, i < t.size → Relation.ReflTransGen (fun p c => c ∈ t.children p) t.root i

theorem flatMap_children_nodup (t : Tree) : (t.ids.flatMap t.children).Nodup := by
  refine List.nodup_flatMap.mpr ⟨?_, ?_⟩
  · intro i _
    exact t.children_nodup i
  · -- a node in two lists would have two parents
    refine List.nodup_range.imp ?_
    intro a b hne c ha hb
    rw [mem_children] at ha hb
    exact hne (Option.some.inj (ha.symm.trans hb))

theorem Within.reachable (h : t.Within c i) :
    Relation.ReflTransGen (fun p c => c ∈ t.children p) c i := by
  induction h with
  | refl => exact .refl
  | step hp _ ih => exact ih.tail (mem_children.mpr hp)

theorem rooted (t : Tree) : t.Rooted where
  parent?_eq_none_iff i hi := ⟨eq_root_of_parent?_none hi, fun h => h ▸ t.parent?_root⟩
  listed_once i hi hne := by
    obtain ⟨p, hp⟩ := exists_parent? hi hne
    have hmem : i ∈ t.children p := mem_children.mpr hp
    have hids : p ∈ t.ids := mem_ids.mpr (Nat.lt_trans (lt_of_parent? hp) hi)
    exact ⟨p, hp, lt_of_parent? hp, List.count_eq_one_of_mem (t.children_nodup p) hmem,
      List.count_eq_one_of_mem t.flatMap_children_nodup (List.mem_flatMap.mpr ⟨p, hids, hmem⟩)⟩
  children_increasing i := by
    rw [children_eq_filter]
    exact List.pairwise_lt_range.filter _
  reachable i hi := (Within.of_root hi).reachable

/-! ## What growing keeps -/

/-- Tree `t'` is `t` with more nodes. -/
structure Extends (t t' : Tree) : Prop where
  size_le : t.size ≤ t'.size
  data_eq : ∀ i, i < t.size → t'.data i = t.data i
  parent?_eq : ∀ i, i < t.size → t'.parent? i = t.parent? i

theorem Extends.refl (t : Tree) : t.Extends t := ⟨Nat.le_refl _, fun _ _ => rfl, fun _ _ => rfl⟩

theorem Extends.trans (h : t.Extends t') (h' : t'.Extends t'') : t.Extends t'' where
  size_le := Nat.le_trans h.size_le h'.size_le
  data_eq i hi := (h'.data_eq i (Nat.lt_of_lt_of_le hi h.size_le)).trans (h.data_eq i hi)
  parent?_eq i hi := (h'.parent?_eq i (Nat.lt_of_lt_of_le hi h.size_le)).trans (h.parent?_eq i hi)

theorem GrowsBelow.extends {news : List Nat} (h : GrowsBelow t t' p news) : t.Extends t' where
  size_le := h.size_le
  data_eq := h.data_eq
  parent?_eq i hi := by
    cases hq : t.parent? i with
    | none => rw [eq_root_of_parent?_none hi hq]; exact t'.parent?_root
    | some q =>
      have hmem : i ∈ t.children q := mem_children.mpr hq
      rw [← mem_children]
      by_cases hqp : q = p
      · rw [hqp, h.children_parent]
        exact List.mem_append_left _ (hqp ▸ hmem)
      · rwa [h.children_eq_of_ne q (Nat.lt_trans (lt_of_parent? hq) hi) hqp]

/-- A node without new children has its old ones. -/
theorem Extends.children_eq (h : t.Extends t') (hold : ∀ c ∈ t'.children i, c < t.size) :
    t'.children i = t.children i := by
  -- children are listed by number, and the new nodes have the last numbers
  obtain ⟨n, hn⟩ := Nat.exists_eq_add_of_le h.size_le
  have hnew : (List.range' t.size n).filter (fun j => t'.parent? j = some i) = [] := by
    refine List.filter_eq_nil_iff.mpr ?_
    intro j hj hp
    have hlt := hold j (mem_children.mpr (of_decide_eq_true hp))
    have hle := (List.mem_range'_1.mp hj).1
    omega
  rw [children_eq_filter, children_eq_filter, ids, ids, hn, List.range_add, List.filter_append,
    ← List.range'_eq_map_range, hnew, List.append_nil]
  refine List.filter_congr fun j hj => ?_
  rw [h.parent?_eq j (List.mem_range.mp hj)]

/-- A subtree without new nodes reads as before. -/
theorem Extends.rose_eq (h : t.Extends t') (hold : ∀ j, t'.Within i j → j < t.size) :
    t'.rose i = t.rose i := by
  induction i using induction_children (t := t') with
  | h i ih =>
    have hbelow : ∀ c ∈ t'.children i, ∀ j, t'.Within c j → j < t.size := by
      intro c hc j hcj
      exact hold j ((Within.of_parent? (mem_children.mp hc)).trans hcj)
    have hchildren : t'.children i = t.children i := h.children_eq fun c hc => hbelow c hc c .refl
    have hroses : (t'.children i).map t'.rose = (t'.children i).map t.rose :=
      List.map_congr_left fun c hc => ih c hc (hbelow c hc)
    rw [Tree.rose_eq, Tree.rose_eq t, h.data_eq i (hold i .refl), hroses, hchildren]

/-! ## Signatures -/

/-- An identifier gives its spelling and nothing else. -/
theorem identifierNames_of_rose {name : String} {span : Option Span} (hw : w < t.size)
    (h : t.rose w = identifierRose name span) :
    (t.preOrder w).filterMap t.identifierName? = [name] := by
  rw [rose_eq, identifierRose, Rose.node.injEq] at h
  obtain ⟨hdata, hchildren⟩ := h
  obtain ⟨tok, htok, hleaf⟩ := List.map_eq_singleton_iff.mp hchildren
  rw [rose_eq, Rose.leaf, Rose.node.injEq, List.map_eq_nil_iff] at hleaf
  obtain ⟨hdataTok, hchildrenTok⟩ := hleaf
  have hmem : tok ∈ t.children w := htok ▸ List.mem_cons_self
  have hkind : t.kind? w = some .identifierWrapper := by rw [kind?_eq_data hw, hdata]
  have hkindTok : t.kind? tok = some .tokenLeaf := by
    rw [kind?_eq_data (lt_size_of_mem_children hmem), hdataTok]
  have hlabel : t.label? tok = some name := by rw [label?_eq_data, hdataTok]
  have hwalk : t.preOrder w = [w, tok] := by
    rw [preOrder_eq_cons hw, htok, visit_cons, hchildrenTok, List.nil_append, visit_nil]
  simp [hwalk, identifierName?, hkind, hkindTok, hlabel, mem_children.mp hmem]

theorem flatMap_eq_of_map_eq {γ : Type} {f : Nat → γ} {g : String → γ} {names : Nat → List String} :
    ∀ {is : List Nat} {texts : List String}, is.map f = texts.map g →
      (∀ i ∈ is, ∀ text, f i = g text → names i = [text]) → is.flatMap names = texts
  | [], [], _, _ => rfl
  | [], text :: texts, h, _ => by simp at h
  | i :: is, [], h, _ => by simp at h
  | i :: is, text :: texts, h, hnames => by
    rw [List.map_cons, List.map_cons, List.cons.injEq] at h
    rw [List.flatMap_cons, hnames i List.mem_cons_self text h.1, List.singleton_append,
      flatMap_eq_of_map_eq h.2 fun j hj => hnames j (List.mem_cons_of_mem _ hj)]

/-- **A call of identifiers is read back as its signature.** -/
theorem signature_of_rose {callee : String} {arguments : List String} {span : Option Span}
    (hc : c < t.size)
    (h : t.rose c = callRose ((callee :: arguments).map (identifierRose · none)) span) :
    t.signature c = { callee, arguments } := by
  rw [rose_eq, callRose, Rose.node.injEq] at h
  obtain ⟨hdata, hchildren⟩ := h
  have hkind : t.kind? c = some .callExpression := by rw [kind?_eq_data hc, hdata]
  have hnone : t.identifierName? c = none := by simp [identifierName?, hkind]
  have hnames :
      ((t.children c).flatMap t.preOrder).filterMap t.identifierName? = callee :: arguments := by
    rw [List.filterMap_flatMap]
    refine flatMap_eq_of_map_eq hchildren ?_
    intro w hw name hname
    exact identifierNames_of_rose (lt_size_of_mem_children hw) hname
  rw [signature, preOrder_eq_flatMap hc, List.filterMap_cons, hnone, hnames]
  rfl

end Tree

/-! ## Steps -/

namespace GrowthStep

variable {t t' : Tree} {step : GrowthStep}

/-- The node that a step grows below. -/
def parent : GrowthStep → Nat
  | add parent _ => parent
  | identifier parent _ => parent
  | call parent _ _ => parent

/-- What a step puts below its parent. -/
def rose : GrowthStep → Rose NodeData
  | add _ data => .leaf data
  | identifier _ name => identifierRose name none
  | call _ callee arguments => callRose ((callee :: arguments).map (identifierRose · none)) none

/-- **Every step is a graft.** -/
theorem perform?_eq_graft? (t : Tree) (step : GrowthStep) :
    step.perform? t = t.graft? step.parent step.rose := by
  cases step with
  | add parent data =>
    rw [perform?, rose, Rose.leaf, GrowthStep.parent, Tree.graft?, Tree.graft, Tree.graftAll,
      Tree.add]
    by_cases hp : parent < t.nodes.size
    · rw [Tree.add?, dif_pos hp, if_pos (show parent < t.size from hp), Option.getD_some]
    · rw [Tree.add?, dif_neg hp, if_neg (show ¬ parent < t.size from hp)]
  | identifier parent name => rfl
  | call parent callee arguments => rfl

theorem perform?_of_lt (h : step.parent < t.size) :
    step.perform? t = some (t.graft step.parent step.rose) := by
  rw [perform?_eq_graft?, Tree.graft?, if_pos h]

theorem perform?_of_le (h : t.size ≤ step.parent) : step.perform? t = none := by
  rw [perform?_eq_graft?, Tree.graft?, if_neg (Nat.not_lt.mpr h)]

end GrowthStep

namespace Tree

variable {t : Tree} {step : GrowthStep}

theorem run_cons_of_lt (h : step.parent < t.size) (steps : List GrowthStep) :
    t.run (step :: steps) =
      (some t.size :: ((t.graft step.parent step.rose).run steps).1,
        ((t.graft step.parent step.rose).run steps).2) := by
  rw [run, GrowthStep.perform?_of_lt h]

theorem run_cons_of_le (h : t.size ≤ step.parent) (steps : List GrowthStep) :
    t.run (step :: steps) = (none :: (t.run steps).1, (t.run steps).2) := by
  rw [run, GrowthStep.perform?_of_le h]

theorem length_run (t : Tree) (steps : List GrowthStep) :
    (t.run steps).1.length = steps.length := by
  induction steps generalizing t with
  | nil => rfl
  | cons step steps ih =>
    rcases Nat.lt_or_ge step.parent t.size with h | h
    · rw [run_cons_of_lt h, List.length_cons, List.length_cons, ih]
    · rw [run_cons_of_le h, List.length_cons, List.length_cons, ih]

theorem run_append (t : Tree) (xs ys : List GrowthStep) :
    t.run (xs ++ ys) = ((t.run xs).1 ++ ((t.run xs).2.run ys).1, ((t.run xs).2.run ys).2) := by
  induction xs generalizing t with
  | nil => rfl
  | cons step xs ih =>
    rcases Nat.lt_or_ge step.parent t.size with h | h
    · rw [List.cons_append, run_cons_of_lt h, run_cons_of_lt h, ih, List.cons_append]
    · rw [List.cons_append, run_cons_of_le h, run_cons_of_le h, ih, List.cons_append]

/-- **No step takes anything back.** -/
theorem run_extends (t : Tree) (steps : List GrowthStep) : t.Extends (t.run steps).2 := by
  induction steps generalizing t with
  | nil => exact .refl t
  | cons step steps ih =>
    rcases Nat.lt_or_ge step.parent t.size with h | h
    · rw [run_cons_of_lt h]
      exact (graft_grows step.rose t step.parent h).1.extends.trans (ih _)
    · rw [run_cons_of_le h]
      exact ih t

end Tree

namespace GrowthStep

variable {t₀ t₁ last : Tree}

/-- What becomes of a step that finds tree `t₀`, leaves tree `t₁` and gives out `id`, where `last`
is the tree at the end. It is refused below an unknown node and changes nothing then. Otherwise it
adds a subtree below its parent and gives out the number of its top. A call below which nothing is
added later has the callee and the arguments of the step as its signature. -/
structure Account (step : GrowthStep) (t₀ t₁ last : Tree) (id : Option Nat) : Prop where
  refused : t₀.size ≤ step.parent → id = none ∧ t₁ = t₀
  performed : step.parent < t₀.size →
    id = some t₀.size ∧ t₀.GrowsBelow t₁ step.parent [t₀.size] ∧ t₁.rose t₀.size = step.rose
  signature : ∀ parent callee arguments, step = .call parent callee arguments → parent < t₀.size →
    (∀ i ∈ last.descendants t₀.size, i < t₁.size) → last.signature t₀.size = { callee, arguments }

/-- A subtree that a step has added reads the same at the end if nothing is added below its top. -/
theorem rose_of_nothing_below {p : Nat} (h : t₀.GrowsBelow t₁ p [t₀.size]) (hlast : t₁.Extends last)
    (hbelow : ∀ i ∈ last.descendants t₀.size, i < t₁.size) :
    last.rose t₀.size = t₁.rose t₀.size := by
  have hlt : t₀.size < t₁.size := h.lt_size_of_mem List.mem_cons_self
  refine hlast.rose_eq ?_
  intro i hi
  by_cases hne : i = t₀.size
  · rwa [hne]
  · exact hbelow i (Tree.mem_descendants_iff.mpr ⟨Nat.lt_of_lt_of_le hlt hlast.size_le, hi, hne⟩)

/-- **What one step does, whatever follows.** -/
theorem account (step : GrowthStep) (t : Tree) (after : List GrowthStep) :
    ∃ id, (t.run (step :: after)).1.head? = some id ∧
      step.Account t (t.run [step]).2 (t.run (step :: after)).2 id := by
  rcases Nat.lt_or_ge step.parent t.size with h | h
  · obtain ⟨hgrows, hrose, -⟩ := Tree.graft_grows step.rose t step.parent h
    rw [Tree.run_cons_of_lt h, Tree.run_cons_of_lt h]
    refine ⟨_, rfl, ?_, ?_, ?_⟩
    · intro hle
      omega
    · intro _
      exact ⟨rfl, hgrows, hrose⟩
    · rintro parent callee arguments rfl - hbelow
      have hlast := (t.graft parent (call parent callee arguments).rose).run_extends after
      have hlt := Nat.lt_of_lt_of_le (hgrows.lt_size_of_mem List.mem_cons_self) hlast.size_le
      exact Tree.signature_of_rose hlt ((rose_of_nothing_below hgrows hlast hbelow).trans hrose)
  · rw [Tree.run_cons_of_le h, Tree.run_cons_of_le h]
    refine ⟨_, rfl, ?_, ?_, ?_⟩
    · intro _
      exact ⟨rfl, rfl⟩
    · intro hlt
      omega
    · rintro parent callee arguments rfl hlt -
      exact absurd hlt (Nat.not_lt.mpr h)

end GrowthStep

/-- **Whatever steps are taken on a new tree, it stays rooted, and each step is accounted for.** -/
theorem Tree.run_rooted (root : NodeData) (steps : List GrowthStep) :
    ((single root).run steps).2.Rooted ∧
      ∀ before step after, steps = before ++ step :: after → ∃ id,
        ((single root).run steps).1[before.length]? = some id ∧
          step.Account ((single root).run before).2 ((single root).run (before ++ [step])).2
            ((single root).run steps).2 id := by
  refine ⟨rooted _, ?_⟩
  rintro before step after rfl
  obtain ⟨id, hid, haccount⟩ := step.account ((single root).run before).2 after
  refine ⟨id, ?_, ?_⟩
  · rw [run_append, List.getElem?_append_right (Nat.le_of_eq (length_run _ before)), length_run,
      Nat.sub_self, ← List.head?_eq_getElem?]
    exact hid
  · rw [run_append, run_append]
    exact haccount

/-- A call, a name below a node that is not there, and a call with a number below it. -/
def mixedSteps : List GrowthStep :=
  [.call 0 "send" ["buf", "len"], .identifier 50 "lost", .call 0 "free" ["buf"],
    .add 8 { kind := .other, typeName := "number_literal", label := some "1" }]

/-- The second step is refused. The last goes below the second call, so that the first keeps its
names. -/
theorem Tree.run_rooted_mixed :
    let run := (single { kind := .other, typeName := "block" }).run mixedSteps
    run.1 = [some 1, none, some 8, some 13] ∧ run.2.Rooted ∧
      (∀ i ∈ run.2.descendants 1, i < 8) ∧
      run.2.signature 1 = { callee := "send", arguments := ["buf", "len"] } := by
  intro run
  have hbelow : ∀ i ∈ run.2.descendants 1, i < 8 := by decide +kernel
  obtain ⟨hrooted, hsteps⟩ := run_rooted { kind := .other, typeName := "block" } mixedSteps
  obtain ⟨_, -, haccount⟩ := hsteps [] _ _ rfl
  exact ⟨by decide +kernel, hrooted, hbelow, haccount.signature _ _ _ rfl (by decide) hbelow⟩

end CallDelta
