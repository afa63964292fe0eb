import CallDelta.Grammar.Language
import CallDelta.Pipeline
import CallDelta.Proofs.IdenticalTrees
import CallDelta.Proofs.Lowered

/-!
# Comments and layout

Two source texts with one syntax up to comments and positions have an empty edit script, if those
nodes have the same text whose text becomes a label.

* `ConcreteTree.lower_strip`: comments do not matter for lowering
* `ConcreteTree.map_content_lower`: neither do positions, as long as labels are the same
-/

namespace CallDelta

/-- A comment stands between the parts of a rule and fills no field. -/
def ConcreteNode.isComment (n : ConcreteNode) : Bool := n.kind == "comment" && n.field.isNone

theorem ConcreteNode.isSignificant_of_isComment {n : ConcreteNode} (h : n.isComment = true) :
    n.isSignificant = false := by
  simp_all [isComment, isSignificant]

theorem ConcreteNode.field_of_isComment {n : ConcreteNode} (h : n.isComment = true) :
    n.field = none := by
  simp_all [isComment]

namespace ConcreteTree

variable {text text' : Span → String}

/-! ## Without comments -/

mutual

/-- The tree without its comments. -/
def strip : ConcreteTree → ConcreteTree
  | .node n cs => .node n (stripAll cs)

/-- The same for a list of trees. -/
def stripAll : List ConcreteTree → List ConcreteTree
  | [] => []
  | c :: cs => if c.value.isComment then stripAll cs else strip c :: stripAll cs

end

theorem value_strip (c : ConcreteTree) : c.strip.value = c.value := by
  obtain ⟨n, cs⟩ := c
  rw [strip]
  rfl

theorem significant_stripAll (cs : List ConcreteTree) :
    significant (stripAll cs) = (significant cs).map strip := by
  induction cs with
  | nil => rw [stripAll]; rfl
  | cons c cs ih =>
    rw [stripAll]
    by_cases hc : c.value.isComment = true
    · simpa [hc, significant, ConcreteNode.isSignificant_of_isComment hc] using ih
    · by_cases hs : c.value.isSignificant = true <;>
        simpa [hc, significant, value_strip, hs] using ih

theorem withField?_stripAll (name : String) (cs : List ConcreteTree) :
    withField? name (stripAll cs) = (withField? name cs).map strip := by
  induction cs with
  | nil => rw [stripAll]; rfl
  | cons c cs ih =>
    rw [stripAll]
    by_cases hc : c.value.isComment = true
    · simpa [hc, withField?, ConcreteNode.field_of_isComment hc] using ih
    · by_cases hf : c.value.field = some name
      · simp [hc, withField?, value_strip, hf]
      · simpa [hc, withField?, value_strip, hf] using ih

theorem label?_stripAll (span : Span) (cs : List ConcreteTree) :
    label? text span (stripAll cs) = label? text span cs := by
  rw [label?, label?, significant_stripAll, withField?_stripAll, Option.map_map, List.isEmpty_map]
  simp [Function.comp_def, value_strip]

mutual

/-- **Comments do not matter for lowering.** -/
theorem lower_strip : ∀ c : ConcreteTree, c.strip.lower text = c.lower text
  | .node n cs => by
    rw [strip, lower, lower, lowerFunction_stripAll cs, lowerArguments_stripAll cs, label?_stripAll,
      lowerSignificant_stripAll cs]

theorem lowerSignificant_stripAll : ∀ cs : List ConcreteTree,
    lowerSignificant text (stripAll cs) = lowerSignificant text cs
  | [] => by rw [stripAll]
  | c :: cs => by
    rw [stripAll, lowerSignificant]
    split
    · next hc =>
      rw [ConcreteNode.isSignificant_of_isComment hc, lowerSignificant_stripAll cs]
      rfl
    · rw [lowerSignificant, value_strip, lower_strip c, lowerSignificant_stripAll cs]

theorem lowerFunction_stripAll : ∀ cs : List ConcreteTree,
    lowerFunction text (stripAll cs) = lowerFunction text cs
  | [] => by rw [stripAll]
  | c :: cs => by
    rw [stripAll, lowerFunction]
    split
    · next hc =>
      rw [ConcreteNode.field_of_isComment hc, lowerFunction_stripAll cs]
      rfl
    · rw [lowerFunction, value_strip, lower_strip c, lowerFunction_stripAll cs]

theorem lowerArguments_stripAll : ∀ cs : List ConcreteTree,
    lowerArguments text (stripAll cs) = lowerArguments text cs
  | [] => by rw [stripAll]
  | .node n ds :: cs => by
    rw [stripAll, lowerArguments]
    split
    · next hc =>
      have hfield : n.field = none := ConcreteNode.field_of_isComment hc
      rw [hfield, lowerArguments_stripAll cs]
      rfl
    · rw [strip, lowerArguments, lowerSignificant_stripAll ds, lowerArguments_stripAll cs]

end

end ConcreteTree

/-! ## Without positions -/

/-- What is left of a concrete node without its position. -/
structure BareNode where
  kind : String
  field : Option String
  named : Bool
  missing : Bool
  /-- The source text, where it is kept. -/
  text : Option String
  deriving DecidableEq

/-- What counts is seen without the position. -/
def BareNode.isSignificant (n : BareNode) : Bool := n.named && n.kind != "comment" && !n.missing

namespace ConcreteTree

/-- Whether a node is the argument list of a call, given whether it stands directly in a call. -/
def isArgumentList (inCall : Bool) (n : ConcreteNode) : Bool :=
  inCall && n.field == some "arguments"

mutual

/-- The tree without positions. Source text is left at the nodes that `keep` selects. Beside a node
it looks at what is below the node and at whether the node stands directly in a call. -/
def bare (text : Span → String) (keep : Bool → ConcreteNode → List ConcreteTree → Bool)
    (inCall : Bool) : ConcreteTree → Rose BareNode
  | .node n cs =>
    .node
      { kind := n.kind, field := n.field, named := n.named, missing := n.missing
        text := if keep inCall n cs then some (text n.span) else none }
      (bareAll text keep (n.kind == "call_expression" && !isArgumentList inCall n) cs)

/-- The same for a list of trees. -/
def bareAll (text : Span → String) (keep : Bool → ConcreteNode → List ConcreteTree → Bool)
    (inCall : Bool) : List ConcreteTree → List (Rose BareNode)
  | [] => []
  | c :: cs => bare text keep inCall c :: bareAll text keep inCall cs

end

/-- The text of a node without children is left. -/
def isChildless (_ : Bool) (_ : ConcreteNode) (cs : List ConcreteTree) : Bool := cs.isEmpty

/-- The text of a node is left if it is an identifier, an operator, or a node without children that
count. Calls and their argument lists have no label. -/
def givesLabel (inCall : Bool) (n : ConcreteNode) (cs : List ConcreteTree) : Bool :=
  n.kind == "identifier" || n.field == some "operator" ||
    ((significant cs).isEmpty && n.kind != "call_expression" && !isArgumentList inCall n)

variable {text text' : Span → String} {inCall : Bool} {cs cs' : List ConcreteTree}

theorem isSignificant_bare (text : Span → String)
    (keep : Bool → ConcreteNode → List ConcreteTree → Bool) (inCall : Bool) (c : ConcreteTree) :
    (bare text keep inCall c).value.isSignificant = c.value.isSignificant := by
  obtain ⟨n, cs⟩ := c
  rw [bare]
  rfl

theorem field_bare (text : Span → String) (keep : Bool → ConcreteNode → List ConcreteTree → Bool)
    (inCall : Bool) (c : ConcreteTree) : (bare text keep inCall c).value.field = c.value.field := by
  obtain ⟨n, cs⟩ := c
  rw [bare]
  rfl

theorem isEmpty_significant (text : Span → String)
    (keep : Bool → ConcreteNode → List ConcreteTree → Bool) (inCall : Bool)
    (cs : List ConcreteTree) :
    (significant cs).isEmpty =
      (bareAll text keep inCall cs).all (fun r => !r.value.isSignificant) := by
  induction cs with
  | nil => rw [bareAll]; rfl
  | cons c cs ih =>
    rw [bareAll, List.all_cons, ← ih, isSignificant_bare, significant, List.filter_cons]
    cases c.value.isSignificant <;> rfl

/-- The text of an operator is left. -/
theorem operator_text (text : Span → String) (inCall : Bool) (cs : List ConcreteTree) :
    (withField? "operator" cs).map (fun c => text c.value.span) =
      ((bareAll text givesLabel inCall cs).find? (fun r => r.value.field == some "operator")).bind
        (·.value.text) := by
  induction cs with
  | nil => rw [bareAll]; rfl
  | cons c cs ih =>
    obtain ⟨n, ds⟩ := c
    rw [bareAll, bare]
    by_cases hn : n.field = some "operator"
    · simp [withField?, Rose.value, givesLabel, hn]
    · simpa [withField?, Rose.value, hn] using ih

theorem label?_eq_of_bareAll_eq {span span' : Span} (h : bareAll text givesLabel inCall cs =
      bareAll text' givesLabel inCall cs')
    (hspan : (significant cs).isEmpty = true → text span = text' span') :
    label? text span cs = label? text' span' cs' := by
  have hempty : (significant cs).isEmpty = (significant cs').isEmpty := by
    rw [isEmpty_significant text givesLabel inCall, h, ← isEmpty_significant]
  rw [label?, label?, ← hempty, operator_text text inCall, h, ← operator_text]
  split
  · next he => rw [hspan he]
  · rfl

/-- Where a node has its label from, the text is left. -/
theorem text_eq_of_bare_eq {n n' : ConcreteNode}
    (h : bare text givesLabel inCall (.node n cs) = bare text' givesLabel inCall (.node n' cs'))
    (hlabel : givesLabel inCall n cs = true) : text n.span = text' n'.span := by
  rw [bare, bare, Rose.node.injEq, BareNode.mk.injEq] at h
  obtain ⟨⟨hkind, hfield, -, -, htext⟩, hbelow⟩ := h
  have hlist : isArgumentList inCall n' = isArgumentList inCall n := by
    rw [isArgumentList, isArgumentList, hfield]
  rw [← hkind, hlist] at hbelow
  have hempty : (significant cs').isEmpty = (significant cs).isEmpty := by
    rw [isEmpty_significant, ← hbelow, ← isEmpty_significant]
  have hlabel' : givesLabel inCall n' cs' = true := by
    rw [givesLabel, ← hkind, ← hfield, hempty, hlist]
    exact hlabel
  rw [hlabel, hlabel', if_pos rfl, if_pos rfl] at htext
  exact Option.some.inj htext

mutual

/-- **Positions do not matter for lowering, where the labels are the same.** -/
theorem map_content_lower : ∀ (c c' : ConcreteTree) (inCall : Bool),
    isArgumentList inCall c.value = false →
    bare text givesLabel inCall c = bare text' givesLabel inCall c' →
    (c.lower text).map (·.content) = (c'.lower text').map (·.content)
  | .node n cs, .node n' cs', inCall, hplace, h => by
    have htext := text_eq_of_bare_eq h
    rw [bare, bare, Rose.node.injEq, BareNode.mk.injEq] at h
    obtain ⟨⟨hkind, hfield, -⟩, hbelow⟩ := h
    have hplace : isArgumentList inCall n = false := hplace
    have hlist : isArgumentList inCall n' = false := by
      rw [isArgumentList, ← hfield]
      exact hplace
    rw [← hkind, hplace, hlist] at hbelow
    rw [lower, lower, ← hkind]
    by_cases hid : n.kind = "identifier"
    · rw [if_pos hid, if_pos hid, htext (by simp [givesLabel, hid])]
      rfl
    · rw [if_neg hid, if_neg hid]
      by_cases hcall : n.kind = "call_expression"
      · rw [if_pos hcall, if_pos hcall, callRose, callRose, Rose.map_node, Rose.map_node,
          List.map_append, List.map_append]
        rw [hcall] at hbelow
        rw [map_content_lowerFunction cs cs' hbelow, map_content_lowerArguments cs cs' hbelow]
        rfl
      · have hnotCall : (n.kind == "call_expression") = false := beq_eq_false_iff_ne.mpr hcall
        rw [hnotCall] at hbelow
        rw [if_neg hcall, if_neg hcall, Rose.map_node, Rose.map_node,
          map_content_lowerSignificant cs cs' hbelow, label?_eq_of_bareAll_eq hbelow fun he =>
            htext (by simp [givesLabel, he, hplace, hcall])]
        rfl

theorem map_content_lowerSignificant : ∀ cs cs' : List ConcreteTree,
    bareAll text givesLabel false cs = bareAll text' givesLabel false cs' →
    (lowerSignificant text cs).map (Rose.map (·.content)) =
      (lowerSignificant text' cs').map (Rose.map (·.content))
  | [], [], _ => by rw [lowerSignificant, lowerSignificant]
  | [], c' :: cs', h => by simp [bareAll] at h
  | c :: cs, [], h => by simp [bareAll] at h
  | c :: cs, c' :: cs', h => by
    rw [bareAll, bareAll, List.cons.injEq] at h
    have hsig : c.value.isSignificant = c'.value.isSignificant := by
      rw [← isSignificant_bare text givesLabel false c, h.1, isSignificant_bare]
    have hrest := map_content_lowerSignificant cs cs' h.2
    rw [lowerSignificant, lowerSignificant, ← hsig]
    split
    · rw [List.map_cons, List.map_cons, map_content_lower c c' false rfl h.1, hrest]
    · exact hrest

theorem map_content_lowerFunction : ∀ cs cs' : List ConcreteTree,
    bareAll text givesLabel true cs = bareAll text' givesLabel true cs' →
    (lowerFunction text cs).map (Rose.map (·.content)) =
      (lowerFunction text' cs').map (Rose.map (·.content))
  | [], [], _ => by rw [lowerFunction, lowerFunction]
  | [], c' :: cs', h => by simp [bareAll] at h
  | c :: cs, [], h => by simp [bareAll] at h
  | c :: cs, c' :: cs', h => by
    rw [bareAll, bareAll, List.cons.injEq] at h
    have hfield : c.value.field = c'.value.field := by
      rw [← field_bare text givesLabel true c, h.1, field_bare]
    rw [lowerFunction, lowerFunction, ← hfield]
    split
    · next hf =>
      have hplace : isArgumentList true c.value = false := by simp [isArgumentList, hf]
      rw [List.map_singleton, List.map_singleton, map_content_lower c c' true hplace h.1]
    · exact map_content_lowerFunction cs cs' h.2

theorem map_content_lowerArguments : ∀ cs cs' : List ConcreteTree,
    bareAll text givesLabel true cs = bareAll text' givesLabel true cs' →
    (lowerArguments text cs).map (Rose.map (·.content)) =
      (lowerArguments text' cs').map (Rose.map (·.content))
  | [], [], _ => by rw [lowerArguments, lowerArguments]
  | [], c' :: cs', h => by simp [bareAll] at h
  | c :: cs, [], h => by simp [bareAll] at h
  | .node n ds :: cs, .node n' ds' :: cs', h => by
    rw [bareAll, bareAll, List.cons.injEq, bare, bare, Rose.node.injEq, BareNode.mk.injEq] at h
    obtain ⟨⟨⟨hkind, hfield, -⟩, hbelow⟩, hrest⟩ := h
    rw [lowerArguments, lowerArguments, ← hfield]
    split
    · next hf =>
      have hlist : isArgumentList true n = true := by simp [isArgumentList, hf]
      have hlist' : isArgumentList true n' = true := by simp [isArgumentList, ← hfield, hf]
      rw [hlist, hlist', Bool.not_true, Bool.and_false, Bool.and_false] at hbelow
      exact map_content_lowerSignificant ds ds' hbelow
    · exact map_content_lowerArguments cs cs' hrest

end

/-- The same for the tree of a whole text, which gets no label. -/
def bareRoot (text : Span → String) (keep : Bool → ConcreteNode → List ConcreteTree → Bool) :
    ConcreteTree → Rose BareNode
  | .node n cs =>
    .node { kind := n.kind, field := n.field, named := n.named, missing := n.missing, text := none }
      (bareAll text keep false cs)

theorem lowerRoot_strip (c : ConcreteTree) : c.strip.lowerRoot text = c.lowerRoot text := by
  obtain ⟨n, cs⟩ := c
  rw [strip, lowerRoot, lowerRoot, lowerSignificant_stripAll]

theorem map_content_lowerRoot {c c' : ConcreteTree}
    (h : c.bareRoot text givesLabel = c'.bareRoot text' givesLabel) :
    (c.lowerRoot text).map (·.content) = (c'.lowerRoot text').map (·.content) := by
  obtain ⟨n, cs⟩ := c
  obtain ⟨n', cs'⟩ := c'
  rw [bareRoot, bareRoot, Rose.node.injEq, BareNode.mk.injEq] at h
  obtain ⟨⟨hkind, -⟩, hbelow⟩ := h
  rw [lowerRoot, lowerRoot, Rose.map_node, Rose.map_node, map_content_lowerSignificant _ _ hbelow,
    hkind]
  rfl

end ConcreteTree

/-! ## The diff -/

open ConcreteTree (givesLabel isChildless)

theorem isomorphic_ofConcrete {before after : String} {cb ca : ConcreteTree}
    (h : cb.strip.bareRoot (sourceText before) givesLabel =
      ca.strip.bareRoot (sourceText after) givesLabel) :
    Isomorphic (.ofConcrete before cb) (.ofConcrete after ca) (Tree.ofConcrete before cb).root
      (Tree.ofConcrete after ca).root := by
  have hcontent := ConcreteTree.map_content_lowerRoot h
  rw [ConcreteTree.lowerRoot_strip, ConcreteTree.lowerRoot_strip] at hcontent
  rw [isomorphic_iff_rose (Tree.root_lt_size _) (Tree.root_lt_size _), Tree.ofConcrete,
    Tree.ofConcrete, Tree.rose_ofRose, Tree.rose_ofRose]
  exact hcontent

theorem script_of_isomorphic {src dst : Tree} (options : MatchOptions)
    (h : Isomorphic src dst src.root dst.root) :
    EditScript.ofMapping src dst (matchTrees options src dst) = [] := by
  refine ofMapping_eq_nil_of_zip h fun s d => ?_
  rw [matchTrees, MatchProblem.solve_of_equal_roots (MatchProblem.sound_ofTrees src dst) h options]
  exact MatchProblem.dstOf?_linkSubtrees_empty (p := .ofTrees src dst) h

/-- **Comments and layout are invisible where they are in no label.** Two texts have isomorphic
trees and an empty edit script if their syntax is the same up to comments and positions, and the
nodes that give labels have the same text. -/
theorem diff_of_comments_and_layout (grammar : Grammar) (options : MatchOptions)
    (before after : String) (cb ca : ConcreteTree) (hbefore : grammar before = some cb)
    (hafter : grammar after = some ca)
    (hbare : cb.strip.bareRoot (sourceText before) givesLabel =
      ca.strip.bareRoot (sourceText after) givesLabel) :
    let src := Tree.ofConcrete before cb
    let dst := Tree.ofConcrete after ca
    isomorphic src src.root dst dst.root = true ∧
      ∃ outcome, (Pipeline.standard (Language.c.parse grammar) options).diff before after =
        .ok outcome ∧ outcome.script = [] ∧ outcome.records = [] := by
  intro src dst
  have hiso : Isomorphic src dst src.root dst.root := isomorphic_ofConcrete hbare
  have hscript := script_of_isomorphic options hiso
  refine ⟨hiso, (Pipeline.standard (Language.c.parse grammar) options).compare ⟨src, dst⟩, ?_,
    hscript, ?_⟩
  · simp only [Pipeline.diff, Pipeline.standard, Language.parse, hbefore, hafter]
    rfl
  · show (EditScript.ofMapping src dst (matchTrees options src dst)).records ⟨src, dst⟩ = []
    rw [hscript]
    rfl

/-- The syntax of `f()`, and of the same with a comment for the arguments. -/
def callOfNothing (inner : List ConcreteTree) (stop : Nat) : ConcreteTree :=
  .rule "translation_unit" none 0 (stop + 2)
    [.rule "expression_statement" none 0 (stop + 2)
      [.rule "call_expression" none 0 (stop + 1)
        [.rule "identifier" (some "function") 0 1 [],
          .rule "argument_list" (some "arguments") 1 (stop + 1)
            (.mark "(" 1 2 :: inner ++ [.mark ")" stop (stop + 1)])],
        .mark ";" (stop + 1) (stop + 2)]]

theorem diff_of_comment_for_arguments :
    let cb := callOfNothing [] 2
    let ca := callOfNothing [.rule "comment" none 3 13 []] 14
    let src := Tree.ofConcrete "f();" cb
    let dst := Tree.ofConcrete "f( /* none */ );" ca
    let grammar : Grammar := fun source => some (if source = "f();" then cb else ca)
    cb.strip.bareRoot (sourceText "f();") givesLabel =
        ca.strip.bareRoot (sourceText "f( /* none */ );") givesLabel ∧
      isomorphic src src.root dst dst.root = true ∧
      ∃ outcome, (Pipeline.standard (Language.c.parse grammar) {}).diff "f();" "f( /* none */ );" =
        .ok outcome ∧ outcome.script = [] ∧ outcome.records = [] := by
  intro cb ca src dst grammar
  have hbare : cb.strip.bareRoot (sourceText "f();") givesLabel =
      ca.strip.bareRoot (sourceText "f( /* none */ );") givesLabel := by
    decide +kernel
  exact ⟨hbare, diff_of_comments_and_layout grammar {} _ _ cb ca rfl rfl hbare⟩

/-- A blank in an empty body is seen, though it is in no node without children: nothing in the body
counts, so the body is labelled with its text. -/
theorem blank_in_empty_body_updated :
    let src := Tree.ofConcrete "void f(void) \x7b\x7d" (emptyFunction 0)
    let dst := Tree.ofConcrete "void f(void) \x7b \x7d" (emptyFunction 1)
    (emptyFunction 0).strip.bareRoot (sourceText "void f(void) \x7b\x7d") isChildless =
        (emptyFunction 1).strip.bareRoot (sourceText "void f(void) \x7b \x7d") isChildless ∧
      isomorphic src src.root dst dst.root = false ∧
      EditScript.ofMapping src dst (matchTrees {} src dst) =
        [.updateNode 9 (some "\x7b \x7d")] := by
  decide +kernel

end CallDelta
