import CallDelta.Calls.Locate
import CallDelta.Proofs.LoweredText
import Mathlib.Data.List.Basic

/-!
# Identifiers and calls survive lowering

A call is lowered through its fields, and the level of its argument list disappears; all other nodes
are lowered through the children that count. Where calls have the form that the grammar gives them,
both ways visit the same syntax: all that is not in a comment, in punctuation, in a made-up node or
inside an identifier (`ConcreteTree.Place.counts`). So whatever is found node by node in the syntax
is found in the same order in the lowered tree (`ConcreteTree.Agree`), identifiers as well as calls.
-/

namespace CallDelta

/-- Whether the nodes below a node may count. -/
def ConcreteNode.isOpen (n : ConcreteNode) : Bool := n.isSignificant && n.kind != "identifier"

namespace ConcreteTree

variable {n : ConcreteNode} {c d : ConcreteTree} {cs : List ConcreteTree} {text : Span → String}

/-! ## The syntax that counts -/

/-- A subtree in its place, with the nodes above it, the nearest first. -/
structure Place where
  above : List ConcreteNode
  tree : ConcreteTree

mutual

/-- The places in a tree, in pre-order. -/
def places (above : List ConcreteNode) : ConcreteTree → List Place
  | .node n cs => ⟨above, .node n cs⟩ :: placesAll (n :: above) cs

/-- The same for a list of trees. -/
def placesAll (above : List ConcreteNode) : List ConcreteTree → List Place
  | [] => []
  | c :: cs => places above c ++ placesAll above cs

end

/-- Whether a node counts: neither the node nor one above it is a comment, punctuation or made up,
and it is not below an identifier. -/
def Place.counts (p : Place) : Bool := p.tree.value.isSignificant && p.above.all (·.isOpen)

/-- The trees that count in the syntax of a text or of a call, which is taken to count itself. -/
def counted (c : ConcreteTree) : List ConcreteTree :=
  c :: ((placesAll [] c.children).filter Place.counts).map Place.tree

mutual

/-- The trees that count, by recursion. -/
def kept : ConcreteTree → List ConcreteTree
  | .node n cs =>
    if n.isSignificant then .node n cs :: (if n.kind = "identifier" then [] else keptAll cs) else []

/-- The same for a list of trees. -/
def keptAll : List ConcreteTree → List ConcreteTree
  | [] => []
  | c :: cs => kept c ++ keptAll cs

end

mutual

theorem map_tree_places (above : List ConcreteNode) : ∀ c : ConcreteTree,
    ((places above c).filter Place.counts).map Place.tree =
      if above.all (·.isOpen) then kept c else []
  | .node n cs => by
    have hcs := map_tree_placesAll (n :: above) cs
    have hhere : Place.counts ⟨above, .node n cs⟩ = (n.isSignificant && above.all (·.isOpen)) := rfl
    rw [List.all_cons, ConcreteNode.isOpen] at hcs
    rw [places, List.filter_cons, hhere, kept]
    -- below a node that does not count, or that is an identifier, nothing counts
    generalize above.all (·.isOpen) = free at hcs ⊢
    cases free <;> cases hsig : n.isSignificant <;> by_cases hid : n.kind = "identifier" <;>
      simp_all

theorem map_tree_placesAll (above : List ConcreteNode) : ∀ cs : List ConcreteTree,
    ((placesAll above cs).filter Place.counts).map Place.tree =
      if above.all (·.isOpen) then keptAll cs else []
  | [] => by simp [placesAll, keptAll]
  | c :: cs => by
    rw [placesAll, List.filter_append, List.map_append, map_tree_places above c,
      map_tree_placesAll above cs, keptAll]
    split <;> rfl

end

theorem counted_node (n : ConcreteNode) (cs : List ConcreteTree) :
    counted (.node n cs) = .node n cs :: keptAll cs := by
  rw [counted, map_tree_placesAll]
  rfl

theorem kept_eq_counted (hid : c.value.kind ≠ "identifier") (hsig : c.value.isSignificant = true) :
    kept c = counted c := by
  obtain ⟨n, cs⟩ := c
  have hid : n.kind ≠ "identifier" := hid
  have hsig : n.isSignificant = true := hsig
  rw [counted_node, kept, if_pos hsig, if_neg hid]

theorem kept_of_not_isSignificant (h : c.value.isSignificant = false) : kept c = [] := by
  obtain ⟨n, cs⟩ := c
  have h : ¬ n.isSignificant = true := Bool.eq_false_iff.mp h
  rw [kept, if_neg h]

theorem isSignificant_of_mem (h : c ∈ significant cs) : c.value.isSignificant = true :=
  (List.mem_filter.mp h).2

theorem keptAll_eq_flatMap (cs : List ConcreteTree) :
    keptAll cs = (significant cs).flatMap kept := by
  induction cs with
  | nil => rw [keptAll]; rfl
  | cons c cs ih =>
    rw [keptAll, ih, significant_cons]
    cases hc : c.value.isSignificant with
    | true => rfl
    | false => rw [kept_of_not_isSignificant hc, List.nil_append]; rfl

/-! ## The form of a call -/

/-- Apart from comments, the named nodes directly below a call are what fills its function field and
the argument list that fills its arguments field. Neither is made up. -/
def IsCallForm (cs : List ConcreteTree) : Prop :=
  ∃ f ∈ withField? "function" cs, ∃ a ∈ withField? "arguments" cs,
    cs.filter (fun c => c.value.named && c.value.kind != "comment") = [f, a] ∧
      a.value.kind = "argument_list" ∧ f.value.missing = false ∧ a.value.missing = false

instance (cs : List ConcreteTree) : Decidable (IsCallForm cs) :=
  inferInstanceAs (Decidable (∃ f ∈ withField? "function" cs, ∃ a ∈ withField? "arguments" cs, _))

/-- All calls in a tree have the form that the grammar gives them. -/
def CallsFormed (c : ConcreteTree) : Prop :=
  c.Everywhere (fun n cs => n.kind = "call_expression" → IsCallForm cs)

instance (c : ConcreteTree) : Decidable c.CallsFormed :=
  inferInstanceAs (Decidable (Rose.Everywhere _ c))

/-- In a call of this form the function and the arguments are all that counts. -/
theorem IsCallForm.parts_eq (hn : n.kind = "call_expression") (h : IsCallForm cs) :
    ∃ f a, significant cs = [f, a] ∧ parts n cs = f :: significant a.children ∧
      a.value.kind = "argument_list" := by
  obtain ⟨f, hf, a, ha, hnamed, hkind, hfm, ham⟩ := h
  refine ⟨f, a, ?_, ?_, hkind⟩
  · have hsplit : significant cs =
        (cs.filter (fun c => c.value.named && c.value.kind != "comment")).filter
          (fun c => !c.value.missing) := by
      rw [List.filter_filter]
      refine List.filter_congr fun c _ => ?_
      rw [ConcreteNode.isSignificant, Bool.and_comm]
    rw [hsplit, hnamed]
    simp [hfm, ham]
  · rw [parts, if_pos hn, Option.mem_def.mp hf, Option.mem_def.mp ha]
    simp

theorem isSignificant_of_mem_parts (h : n.kind = "call_expression" → IsCallForm cs)
    (hd : d ∈ parts n cs) : d.value.isSignificant = true := by
  by_cases hn : n.kind = "call_expression"
  · obtain ⟨f, a, hsig, hparts, -⟩ := (h hn).parts_eq hn
    rw [hparts] at hd
    rcases List.mem_cons.mp hd with rfl | hd
    · exact isSignificant_of_mem (hsig ▸ List.mem_cons_self)
    · exact isSignificant_of_mem hd
  · rw [parts, if_neg hn] at hd
    exact isSignificant_of_mem hd

theorem CallsFormed.of_mem_parts (h : CallsFormed (.node n cs)) (hd : d ∈ parts n cs) :
    d.CallsFormed :=
  everywhere_parts h hd

theorem CallsFormed.callForm (h : CallsFormed (.node n cs)) :
    n.kind = "call_expression" → IsCallForm cs :=
  (Rose.everywhere_node_iff.mp h).1

/-! ## What is found in the syntax is found after lowering -/

/-- What `see` finds at the lowered form of a node is what `find` finds at the node, and an argument
list is nothing to be found. -/
structure Agree {β : Type} (text : Span → String) (see : Rose NodeData → Option β)
    (find : ConcreteTree → Option β) : Prop where
  identifier : ∀ n cs, n.kind = "identifier" →
    (lower text (.node n cs)).subtrees.filterMap see = (find (.node n cs)).toList
  other : ∀ c, c.value.kind ≠ "identifier" → c.value.isSignificant = true → c.CallsFormed →
    see (c.lower text) = find c
  argumentList : ∀ c, c.value.kind = "argument_list" → find c = none

namespace Agree

variable {β : Type} {see : Rose NodeData → Option β} {find : ConcreteTree → Option β}

/-- Below a node the same is found in what counts and in the parts. -/
theorem filterMap_keptAll (h : Agree text see find)
    (hn : n.kind = "call_expression" → IsCallForm cs) :
    (keptAll cs).filterMap find = (parts n cs).flatMap (fun d => (kept d).filterMap find) := by
  by_cases hcall : n.kind = "call_expression"
  · obtain ⟨f, a, hsig, hparts, hkind⟩ := (hn hcall).parts_eq hcall
    have ha : a ∈ significant cs := by simp [hsig]
    obtain ⟨m, ds⟩ := a
    -- the argument list itself is the one node more that counts
    have hlist : kept (.node m ds) = .node m ds :: (significant ds).flatMap kept := by
      rw [kept_eq_counted (by rw [hkind]; decide) (isSignificant_of_mem ha), counted_node,
        keptAll_eq_flatMap]
    rw [keptAll_eq_flatMap, hsig, hparts, List.flatMap_cons, List.flatMap_cons, List.flatMap_nil,
      List.append_nil, hlist, List.filterMap_append,
      List.filterMap_cons_none (h.argumentList _ hkind), List.filterMap_flatMap, List.flatMap_cons]
    rfl
  · rw [keptAll_eq_flatMap, List.filterMap_flatMap, parts, if_neg hcall]

/-- **What is found in the syntax that counts is found in the lowered tree, in the same order.** -/
theorem filterMap_subtrees_lower (h : Agree text see find) (c : ConcreteTree)
    (hsig : c.value.isSignificant = true) (hcalls : c.CallsFormed) :
    (c.lower text).subtrees.filterMap see = (kept c).filterMap find := by
  induction c using induction_parts with
  | h n cs ih =>
    by_cases hid : n.kind = "identifier"
    · have hkept : kept (.node n cs) = [.node n cs] := by
        have hsig : n.isSignificant = true := hsig
        rw [kept, if_pos hsig, if_pos hid]
      rw [h.identifier n cs hid, hkept, List.filterMap_cons]
      cases find (.node n cs) <;> rfl
    · have hbelow : ((parts n cs).map (lower text)).flatMap (fun r => r.subtrees.filterMap see) =
          (keptAll cs).filterMap find := by
        rw [h.filterMap_keptAll hcalls.callForm, List.flatMap_map]
        refine List.flatMap_congr fun d hd => ?_
        exact ih d hd (isSignificant_of_mem_parts hcalls.callForm hd) (hcalls.of_mem_parts hd)
      have hhere := h.other (.node n cs) hid hsig hcalls
      rw [kept_eq_counted (c := .node n cs) hid hsig, counted_node]
      rw [lower_of_ne_identifier hid] at hhere ⊢
      rw [Rose.subtrees_node, List.filterMap_cons, List.filterMap_cons, hhere,
        List.filterMap_flatMap, hbelow]

/-- The same for the syntax of a whole text, with nothing to be found at the root. -/
theorem filterMap_subtrees_lowerRoot (h : Agree text see find) (c : ConcreteTree)
    (hcalls : c.CallsFormed) (hsee : see (c.lowerRoot text) = none) (hfind : find c = none) :
    (c.lowerRoot text).subtrees.filterMap see = c.counted.filterMap find := by
  obtain ⟨n, cs⟩ := c
  have hcs := (Rose.everywhere_node_iff.mp hcalls).2
  rw [counted_node, List.filterMap_cons_none hfind, keptAll_eq_flatMap, List.filterMap_flatMap]
  rw [lowerRoot_eq] at hsee ⊢
  rw [Rose.subtrees_node, List.filterMap_cons_none hsee, List.filterMap_flatMap, List.flatMap_map]
  refine List.flatMap_congr fun d hd => ?_
  obtain ⟨hmem, hsig⟩ := List.mem_filter.mp hd
  exact h.filterMap_subtrees_lower d hsig (hcs d hmem)

end Agree

/-! ## Identifiers and calls -/

/-- The label of a token. -/
def tokenLabel? (r : Rose NodeData) : Option (Option String) :=
  if r.value.kind = .tokenLeaf then some r.value.label else none

/-- The text of an identifier, which is to be the label of its token. -/
def identifierText? (text : Span → String) (c : ConcreteTree) : Option (Option String) :=
  if c.value.kind = "identifier" then some (some (text c.value.span)) else none

/-- The span of a call and the labels of the tokens in it. -/
def callTokens? (r : Rose NodeData) : Option (Option Span × List (Option String)) :=
  if r.value.kind = .callExpression then some (r.value.span, r.subtrees.filterMap tokenLabel?)
    else none

/-- The span of a call and the texts of the identifiers in it. -/
def callTexts? (text : Span → String) (c : ConcreteTree) :
    Option (Option Span × List (Option String)) :=
  if c.value.kind = "call_expression" then
    some (some c.value.span, c.counted.filterMap (identifierText? text))
  else
    none

theorem kind_lower (h : c.value.kind ≠ "identifier") :
    (c.lower text).value.kind =
      if c.value.kind = "call_expression" then .callExpression else .other := by
  obtain ⟨n, cs⟩ := c
  have h : n.kind ≠ "identifier" := h
  rw [lower_of_ne_identifier h, Rose.value, loweredData, Rose.value]
  split <;> rfl

theorem agree_identifiers (text : Span → String) :
    Agree text tokenLabel? (identifierText? text) where
  identifier n cs hid := by
    rw [lower_identifier hid, identifierText?, Rose.value, if_pos hid]
    rfl
  other c hid _ _ := by
    rw [tokenLabel?, kind_lower hid, identifierText?, if_neg hid]
    split <;> simp_all
  argumentList c hkind := by
    rw [identifierText?, hkind]
    rfl

theorem agree_calls (text : Span → String) : Agree text callTokens? (callTexts? text) where
  identifier n cs hid := by
    rw [lower_identifier hid, callTexts?, Rose.value, hid]
    rfl
  other c hid hsig hcalls := by
    rw [callTokens?, kind_lower hid, callTexts?, span_lower,
      (agree_identifiers text).filterMap_subtrees_lower c hsig hcalls, kept_eq_counted hid hsig]
    split <;> simp_all
  argumentList c hkind := by
    rw [callTexts?, hkind]
    rfl

/-- The source texts of the identifiers that count in a tree. -/
def identifierTexts (text : Span → String) (c : ConcreteTree) : List String :=
  (c.counted.filter (fun d => d.value.kind == "identifier")).map (fun d => text d.value.span)

theorem filterMap_identifierText? (text : Span → String) (c : ConcreteTree) :
    c.counted.filterMap (identifierText? text) = (c.identifierTexts text).map some := by
  rw [identifierTexts, List.map_map, ← List.filterMap_eq_map, List.filterMap_filter]
  refine List.filterMap_congr fun d _ => ?_
  simp [identifierText?]

end ConcreteTree

/-! ## The lowered tree -/

namespace Tree

variable {t : Tree} {i : Nat}

/-- The labels of the tokens in the subtree of a node, in pre-order. -/
def tokenLabels (t : Tree) (i : Nat) : List (Option String) :=
  ((t.preOrder i).filter (fun j => t.kind? j == some .tokenLeaf)).map t.label?

theorem filterMap_preOrder {β : Type} {f : Nat → Option β} {g : Rose NodeData → Option β}
    (h : ∀ j, j < t.size → f j = g (t.rose j)) (hi : i < t.size) :
    (t.preOrder i).filterMap f = (t.rose i).subtrees.filterMap g := by
  rw [← map_rose_preOrder hi, List.filterMap_map]
  exact List.filterMap_congr fun j hj => h j (lt_size_of_mem_preOrder hj)

theorem tokenLabels_eq (hi : i < t.size) :
    t.tokenLabels i = (t.rose i).subtrees.filterMap ConcreteTree.tokenLabel? := by
  rw [tokenLabels, ← List.filterMap_eq_map, List.filterMap_filter]
  refine filterMap_preOrder (fun j hj => ?_) hi
  simp [ConcreteTree.tokenLabel?, value_rose, kind?_eq_data hj, label?_eq_data]

theorem map_calls_eq (hi : i < t.size) :
    ((t.preOrder i).filter t.isCall).map (fun j => (t.span? j, t.tokenLabels j)) =
      (t.rose i).subtrees.filterMap ConcreteTree.callTokens? := by
  rw [← List.filterMap_eq_map, List.filterMap_filter]
  refine filterMap_preOrder (fun j hj => ?_) hi
  simp [ConcreteTree.callTokens?, value_rose, isCall, kind?_eq_data hj, span?_eq_data,
    tokenLabels_eq hj]

end Tree

/-- **Lowering keeps every identifier and every call that counts.** The tokens of the lowered tree
are labelled, in pre-order, with the texts of the identifiers. Its calls are those of the syntax, in
the same order, with their spans and with the identifiers in them. The root stands for the whole
text and is not asked whether it counts; if it does, then what counts is what is not at or below a
comment, punctuation or a made-up node and not below an identifier. -/
theorem identifiers_and_calls_kept (source : String) (c : ConcreteTree)
    (hid : c.value.kind ≠ "identifier") (hcall : c.value.kind ≠ "call_expression")
    (hcalls : c.CallsFormed) :
    let t := Tree.ofConcrete source c
    let texts (d : ConcreteTree) : List (Option String) :=
      (d.identifierTexts (sourceText source)).map some
    t.tokenLabels t.root = texts c ∧
      ((t.preOrder t.root).filter t.isCall).map (fun i => (t.span? i, t.tokenLabels i)) =
        (c.counted.filter (fun d => d.value.kind == "call_expression")).map
          (fun d => (some d.value.span, texts d)) ∧
      (c.value.isSignificant = true →
        c.counted =
          ((c.places []).filter ConcreteTree.Place.counts).map ConcreteTree.Place.tree) := by
  intro t texts
  have hrose : t.rose t.root = c.lowerRoot (sourceText source) := Tree.rose_ofRose _
  have hkind : (c.lowerRoot (sourceText source)).value.kind = .other := by
    obtain ⟨n, cs⟩ := c
    rw [ConcreteTree.lowerRoot_eq]
    rfl
  refine ⟨?_, ?_, fun hsig => ?_⟩
  · rw [Tree.tokenLabels_eq t.root_lt_size, hrose,
      (ConcreteTree.agree_identifiers _).filterMap_subtrees_lowerRoot c hcalls,
      ConcreteTree.filterMap_identifierText?]
    · rw [ConcreteTree.tokenLabel?, hkind]
      rfl
    · rw [ConcreteTree.identifierText?, if_neg hid]
  · rw [Tree.map_calls_eq t.root_lt_size, hrose,
      (ConcreteTree.agree_calls _).filterMap_subtrees_lowerRoot c hcalls]
    · rw [← List.filterMap_eq_map, List.filterMap_filter]
      refine List.filterMap_congr fun d _ => ?_
      simp [ConcreteTree.callTexts?, ConcreteTree.filterMap_identifierText?, texts]
    · rw [ConcreteTree.callTokens?, hkind]
      rfl
    · rw [ConcreteTree.callTexts?, if_neg hcall]
  · rw [ConcreteTree.map_tree_places, ← ConcreteTree.kept_eq_counted hid hsig]
    rfl

/-- The syntax of a call in a call with a comment behind it, such as `f(g(x) /*y*/);`. -/
def callInCall : ConcreteTree :=
  .rule "translation_unit" none 0 14
    [.rule "expression_statement" none 0 14
      [.rule "call_expression" none 0 13
        [.rule "identifier" (some "function") 0 1 [],
          .rule "argument_list" (some "arguments") 1 13
            [.mark "(" 1 2,
              .rule "call_expression" none 2 6
                [.rule "identifier" (some "function") 2 3 [],
                  .rule "argument_list" (some "arguments") 3 6
                    [.mark "(" 3 4, .rule "identifier" none 4 5 [], .mark ")" 5 6]],
              .rule "comment" none 7 12 [],
              .mark ")" 12 13]],
        .mark ";" 13 14]]

theorem identifiers_and_calls_kept_callInCall :
    let t := Tree.ofConcrete "f(g(x) /*y*/);" callInCall
    callInCall.CallsFormed ∧ t.tokenLabels t.root = [some "f", some "g", some "x"] ∧
      ((t.preOrder t.root).filter t.isCall).map (fun i => (t.span? i, t.tokenLabels i)) =
        [(some ⟨0, 13, 0, 0, 0, 13⟩, [some "f", some "g", some "x"]),
          (some ⟨2, 6, 0, 2, 0, 6⟩, [some "g", some "x"])] ∧
      callInCall.counted =
        ((callInCall.places []).filter ConcreteTree.Place.counts).map ConcreteTree.Place.tree := by
  intro t
  have hcalls : callInCall.CallsFormed := by decide +kernel
  obtain ⟨htokens, hcall, hcounted⟩ :=
    identifiers_and_calls_kept "f(g(x) /*y*/);" callInCall (by decide) (by decide) hcalls
  refine ⟨hcalls, htokens.trans ?_, hcall.trans ?_, hcounted rfl⟩ <;> decide +kernel

end CallDelta
