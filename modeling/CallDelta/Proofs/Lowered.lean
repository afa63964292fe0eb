import CallDelta.Grammar.Lowering
import CallDelta.Proofs.RoseOfTree

/-!
# The shape of lowered trees

Lowering goes from a node to its parts (`ConcreteTree.parts`): through the fields of a call, and
elsewhere through the children that count. So an induction over the parts is one over all that is
lowered (`ConcreteTree.induction_parts`).

Lowering makes three kinds of rose trees: identifiers, calls, and nodes that keep the grammar's word
(`LoweringRules`). What these three rules keep holds of every lowered tree. So identifiers and
tokens belong together (`Tree.IsLowered`): below an identifier stands one token and nothing else,
and a token stands nowhere else. If the grammar does not use the word `token`, then the type names
tell identifiers and tokens from everything else (`Tree.TypesTellKinds`).
-/

namespace CallDelta

/-! ## Part by part -/

namespace ConcreteTree

variable {n : ConcreteNode} {c d : ConcreteTree} {cs : List ConcreteTree}

/-- What is lowered below a node: in a call the function and what counts of the arguments, elsewhere
what counts. -/
def parts (n : ConcreteNode) (cs : List ConcreteTree) : List ConcreteTree :=
  if n.kind = "call_expression" then
    (withField? "function" cs).toList ++
      (withField? "arguments" cs).toList.flatMap (fun a => significant a.children)
  else
    significant cs

/-- What a node says about itself after lowering, unless it is an identifier. -/
def loweredData (text : Span → String) (n : ConcreteNode) (cs : List ConcreteTree) : NodeData :=
  if n.kind = "call_expression" then
    { kind := .callExpression, typeName := "call_expression", span := some n.span }
  else
    { kind := .other, typeName := n.kind, label := label? text n.span cs, span := some n.span }

theorem significant_cons (c : ConcreteTree) (cs : List ConcreteTree) :
    significant (c :: cs) = if c.value.isSignificant then c :: significant cs else significant cs :=
  List.filter_cons

theorem withField?_cons (name : String) (c : ConcreteTree) (cs : List ConcreteTree) :
    withField? name (c :: cs) =
      if c.value.field = some name then some c else withField? name cs := by
  rw [withField?, List.find?_cons]
  by_cases hc : c.value.field = some name
  · rw [if_pos hc, beq_iff_eq.mpr hc]
  · rw [if_neg hc, beq_eq_false_iff_ne.mpr hc]
    rfl

variable (text : Span → String)

theorem lowerSignificant_eq_map (cs : List ConcreteTree) :
    lowerSignificant text cs = (significant cs).map (lower text) := by
  induction cs with
  | nil => rw [lowerSignificant]; rfl
  | cons c cs ih =>
    rw [lowerSignificant, ih, significant_cons]
    split <;> rfl

theorem lowerFunction_eq_map (cs : List ConcreteTree) :
    lowerFunction text cs = (withField? "function" cs).toList.map (lower text) := by
  induction cs with
  | nil => rw [lowerFunction]; rfl
  | cons c cs ih =>
    rw [lowerFunction, ih, withField?_cons]
    split <;> rfl

theorem lowerArguments_eq_map (cs : List ConcreteTree) :
    lowerArguments text cs =
      ((withField? "arguments" cs).toList.flatMap (fun a => significant a.children)).map
        (lower text) := by
  induction cs with
  | nil => rw [lowerArguments]; rfl
  | cons c cs ih =>
    obtain ⟨n, ds⟩ := c
    rw [lowerArguments, ih, withField?_cons, lowerSignificant_eq_map, Rose.value]
    split
    · rw [Option.toList_some, List.flatMap_singleton]
      rfl
    · rfl

variable {text}

theorem lower_identifier (h : n.kind = "identifier") :
    lower text (.node n cs) = identifierRose (text n.span) (some n.span) := by
  rw [lower, if_pos h]

/-- **Apart from identifiers, a node is lowered part by part.** -/
theorem lower_of_ne_identifier (h : n.kind ≠ "identifier") :
    lower text (.node n cs) = .node (loweredData text n cs) ((parts n cs).map (lower text)) := by
  rw [lower, if_neg h, loweredData, parts, lowerSignificant_eq_map, lowerFunction_eq_map,
    lowerArguments_eq_map]
  split
  · rw [List.map_append]
    rfl
  · rfl

theorem lowerRoot_eq (text : Span → String) (n : ConcreteNode) (cs : List ConcreteTree) :
    lowerRoot text (.node n cs) =
      .node { kind := .other, typeName := n.kind, span := some n.span }
        ((significant cs).map (lower text)) := by
  rw [lowerRoot, lowerSignificant_eq_map]

theorem mem_parts (h : d ∈ parts n cs) : ∃ c ∈ cs, d = c ∨ d ∈ c.children := by
  rw [parts] at h
  split at h
  · rcases List.mem_append.mp h with h | h
    · exact ⟨d, List.mem_of_find?_eq_some (Option.mem_toList.mp h), Or.inl rfl⟩
    · obtain ⟨a, ha, hd⟩ := List.mem_flatMap.mp h
      exact ⟨a, List.mem_of_find?_eq_some (Option.mem_toList.mp ha),
        Or.inr (List.mem_filter.mp hd).1⟩
  · exact ⟨d, (List.mem_filter.mp h).1, Or.inl rfl⟩

theorem sizeOf_lt_of_mem_children (h : d ∈ c.children) : sizeOf d < sizeOf c := by
  obtain ⟨n, cs⟩ := c
  have hlt := List.sizeOf_lt_of_mem (show d ∈ cs from h)
  rw [Rose.node.sizeOf_spec]
  omega

/-- What passes from the parts of a node to the node holds of all trees. -/
theorem induction_parts {P : ConcreteTree → Prop}
    (h : ∀ n cs, (∀ d ∈ parts n cs, P d) → P (.node n cs)) : ∀ c, P c
  | .node n cs => h n cs fun d _hd => induction_parts h d
termination_by c => sizeOf c
decreasing_by
  obtain ⟨c, hc, rfl | hd⟩ := mem_parts _hd
  · exact sizeOf_lt_of_mem_children hc
  · have hlt : sizeOf c < sizeOf (Rose.node n cs) := sizeOf_lt_of_mem_children hc
    exact Nat.lt_trans (sizeOf_lt_of_mem_children hd) hlt

/-- A rule that holds everywhere in a tree holds everywhere in its parts. -/
theorem everywhere_parts {P : ConcreteNode → List ConcreteTree → Prop}
    (h : Rose.Everywhere P (.node n cs)) (hd : d ∈ parts n cs) : d.Everywhere P := by
  have hcs := (Rose.everywhere_node_iff.mp h).2
  obtain ⟨c, hc, rfl | hd⟩ := mem_parts hd
  · exact hcs d hc
  · obtain ⟨m, ds⟩ := c
    exact (Rose.everywhere_node_iff.mp (hcs _ hc)).2 d hd

end ConcreteTree

/-! ## What lowering keeps -/

/-- A property of rose trees that the rules of lowering keep, for concrete nodes with property
`P`. -/
structure LoweringRules (P : ConcreteNode → Prop) (Q : Rose NodeData → Prop) : Prop where
  identifier : ∀ name span, Q (identifierRose name span)
  call : ∀ rs span, (∀ r ∈ rs, Q r) → Q (callRose rs span)
  other : ∀ n label rs, P n → n.kind ≠ "identifier" → n.kind ≠ "call_expression" → (∀ r ∈ rs, Q r) →
    Q (.node { kind := .other, typeName := n.kind, label, span := some n.span } rs)

namespace LoweringRules

variable {P : ConcreteNode → Prop} {Q : Rose NodeData → Prop}

theorem lower (h : LoweringRules P Q) (text : Span → String) (c : ConcreteTree)
    (hc : c.Everywhere (fun n _ => P n)) : Q (c.lower text) := by
  induction c using ConcreteTree.induction_parts with
  | h n cs ih =>
    by_cases hid : n.kind = "identifier"
    · rw [ConcreteTree.lower_identifier hid]
      exact h.identifier _ _
    · have hparts : ∀ r ∈ (ConcreteTree.parts n cs).map (ConcreteTree.lower text), Q r :=
        List.forall_mem_map.mpr fun d hd => ih d hd (ConcreteTree.everywhere_parts hc hd)
      rw [ConcreteTree.lower_of_ne_identifier hid, ConcreteTree.loweredData]
      split
      · exact h.call _ _ hparts
      · next hcall => exact h.other n _ _ (Rose.everywhere_node_iff.mp hc).1 hid hcall hparts

/-- The root keeps the grammar's word whatever it is. -/
theorem lowerRoot (h : LoweringRules P Q) (text : Span → String) {c : ConcreteTree}
    (hc : c.Everywhere (fun n _ => P n)) :
    ∃ rs, c.lowerRoot text =
      .node { kind := .other, typeName := c.value.kind, span := some c.value.span } rs ∧
      ∀ r ∈ rs, Q r := by
  obtain ⟨n, cs⟩ := c
  have hcs := (Rose.everywhere_node_iff.mp hc).2
  refine ⟨_, ConcreteTree.lowerRoot_eq text n cs, List.forall_mem_map.mpr fun d hd => ?_⟩
  exact h.lower text d (hcs d (List.mem_filter.mp hd).1)

end LoweringRules

/-! ## Identifiers and their tokens -/

/-- The rule for what stands below a node: below an identifier its token, and elsewhere no token. -/
def TokenPlaces (d : NodeData) (rs : List (Rose NodeData)) : Prop :=
  (d.kind = .identifierWrapper → ∃ name, identifierRose name d.span = .node d rs) ∧
    (d.kind ≠ .identifierWrapper → ∀ r ∈ rs, r.value.kind ≠ .tokenLeaf)

theorem everywhere_tokenPlaces_identifierRose (name : String) (span : Option Span) :
    (identifierRose name span).Everywhere TokenPlaces := by
  refine .node ⟨fun _ => ⟨name, rfl⟩, fun h => absurd rfl h⟩ fun r hr => ?_
  cases List.mem_singleton.mp hr
  refine .node ⟨nofun, fun _ r hr => ?_⟩ fun r hr => ?_ <;>
  exact absurd hr List.not_mem_nil

theorem loweringRules_tokenPlaces :
    LoweringRules (fun _ => True)
      (fun r => r.value.kind ≠ .tokenLeaf ∧ r.Everywhere TokenPlaces) where
  identifier name span := ⟨nofun, everywhere_tokenPlaces_identifierRose name span⟩
  call rs span hrs := by
    refine ⟨nofun, .node ⟨nofun, fun _ r hr => ?_⟩ fun r hr => ?_⟩
    · exact (hrs r hr).1
    · exact (hrs r hr).2
  other n label rs _ _ _ hrs := by
    refine ⟨nofun, .node ⟨nofun, fun _ r hr => ?_⟩ fun r hr => ?_⟩
    · exact (hrs r hr).1
    · exact (hrs r hr).2

namespace Tree

variable {t : Tree} {w tok : Nat}

/-- Node `w` is an identifier, and `tok` is the token with its spelling. -/
@[mk_iff]
structure Wraps (t : Tree) (w tok : Nat) : Prop where
  kind_identifier : t.kind? w = some .identifierWrapper
  kind_token : t.kind? tok = some .tokenLeaf
  typeName_identifier : t.typeName w = "identifier"
  typeName_token : t.typeName tok = "token"
  label_identifier : t.label? w = none
  label_token : (t.label? tok).isSome = true
  children_identifier : t.children w = [tok]
  children_token : t.children tok = []

instance (t : Tree) (w tok : Nat) : Decidable (t.Wraps w tok) :=
  decidable_of_iff _ (t.wraps_iff w tok).symm

theorem Wraps.parent_token (h : t.Wraps w tok) : t.parent? tok = some w := by
  rw [← mem_children, h.children_identifier]
  exact List.mem_cons_self

theorem Wraps.ne_token {v u : Nat} (h : t.Wraps w tok) (h' : t.Wraps v u) : w ≠ u := fun he => by
  have hkind := h.kind_identifier
  rw [he, h'.kind_token] at hkind
  cases hkind

theorem Wraps.eq_iff {v u : Nat} (h : t.Wraps w tok) (h' : t.Wraps v u) : w = v ↔ tok = u := by
  constructor
  · rintro rfl
    have hchildren := h.children_identifier
    rw [h'.children_identifier] at hchildren
    exact (List.cons.inj hchildren).1.symm
  · rintro rfl
    have hparent := h.parent_token
    rw [h'.parent_token] at hparent
    exact (Option.some.inj hparent).symm

/-- Identifiers and tokens belong together, and the root is none of them. -/
structure IsLowered (t : Tree) : Prop where
  kind_root : t.kind? t.root = some .other
  exists_token : ∀ w, t.kind? w = some .identifierWrapper → ∃ tok, t.Wraps w tok
  exists_identifier : ∀ tok, t.kind? tok = some .tokenLeaf → ∃ w, t.Wraps w tok

/-- A node that reads as an identifier is one with its token. -/
theorem exists_wraps_of_rose {name : String} (hw : w < t.size)
    (h : identifierRose name (t.data w).span = t.rose w) : ∃ tok, t.Wraps w tok := by
  rw [identifierRose, rose_eq, Rose.node.injEq] at h
  obtain ⟨hdata, hchildren⟩ := h
  obtain ⟨tok, htok, hrose⟩ : ∃ tok, t.children w = [tok] ∧ Rose.leaf _ = t.rose tok := by
    obtain ⟨tok, htok, hrose⟩ := List.map_eq_singleton_iff.mp hchildren.symm
    exact ⟨tok, htok, hrose.symm⟩
  rw [Rose.leaf, rose_eq, Rose.node.injEq] at hrose
  obtain ⟨htokData, htokChildren⟩ := hrose
  have hlt : tok < t.size := lt_size_of_mem_children (htok ▸ List.mem_cons_self)
  refine ⟨tok, ?_, ?_, ?_, ?_, ?_, ?_, htok, List.map_eq_nil_iff.mp htokChildren.symm⟩
  · rw [kind?_eq_data hw, ← hdata]
  · rw [kind?_eq_data hlt, ← htokData]
  · rw [typeName_eq_data, ← hdata]
  · rw [typeName_eq_data, ← htokData]
  · rw [label?_eq_data, ← hdata]
  · rw [label?_eq_data, ← htokData]
    rfl

theorem isLowered_of_everywhere (hroot : (t.data t.root).kind = .other)
    (h : (t.rose t.root).Everywhere TokenPlaces) : t.IsLowered := by
  have hidentifier : ∀ w, t.kind? w = some .identifierWrapper → ∃ tok, t.Wraps w tok := by
    intro w hkind
    have hw := lt_size_of_kind? hkind
    rw [kind?_eq_data hw, Option.some.injEq] at hkind
    obtain ⟨name, hname⟩ := (everywhere_rose h (.of_root hw)).1 hkind
    exact exists_wraps_of_rose hw (hname.trans (t.rose_eq w).symm)
  refine ⟨by rw [kind?_eq_data t.root_lt_size, hroot], hidentifier, fun tok hkind => ?_⟩
  have htok := lt_size_of_kind? hkind
  rw [kind?_eq_data htok, Option.some.injEq] at hkind
  obtain ⟨w, hparent⟩ : ∃ w, t.parent? tok = some w := by
    refine exists_parent? htok fun h => ?_
    rw [h, hroot] at hkind
    cases hkind
  have hw : w < t.size := Nat.lt_trans (lt_of_parent? hparent) htok
  have hchild : tok ∈ t.children w := mem_children.mpr hparent
  by_cases hwrapper : (t.data w).kind = .identifierWrapper
  · obtain ⟨tok', hwraps⟩ := hidentifier w (by rw [kind?_eq_data hw, hwrapper])
    rw [hwraps.children_identifier, List.mem_singleton] at hchild
    exact ⟨w, hchild ▸ hwraps⟩
  · -- elsewhere there is no token
    have hnot := (everywhere_rose h (.of_root hw)).2 hwrapper _ (List.mem_map_of_mem hchild)
    rw [value_rose] at hnot
    exact absurd hkind hnot

/-- **In a lowered tree identifiers and tokens belong together.** -/
theorem isLowered_ofConcrete (source : String) (c : ConcreteTree) :
    (ofConcrete source c).IsLowered := by
  obtain ⟨rs, hc, hrs⟩ := loweringRules_tokenPlaces.lowerRoot (sourceText source)
    (c.everywhere_of_forall fun _ _ => trivial)
  have hrose := rose_ofRose (c.lowerRoot (sourceText source))
  rw [hc] at hrose
  refine isLowered_of_everywhere ?_ ?_
  · rw [← value_rose, ofConcrete, hc, hrose]
    rfl
  · rw [ofConcrete, hc, hrose]
    exact .node ⟨nofun, fun _ r hr => (hrs r hr).1⟩ fun r hr => (hrs r hr).2

/-! ## Type names -/

/-- Only identifiers have the type name `identifier`, and only tokens have the type name `token`. -/
structure TypesTellKinds (t : Tree) : Prop where
  identifier : ∀ i, t.typeName i = "identifier" → t.kind? i = some .identifierWrapper
  token : ∀ i, t.typeName i = "token" → t.kind? i = some .tokenLeaf

end Tree

/-- The syntax of a file: the whole is not an identifier, and no rule of the grammar is called
`token`. -/
structure ConcreteTree.IsFile (c : ConcreteTree) : Prop where
  root_ne_identifier : c.value.kind ≠ "identifier"
  ne_token : c.Everywhere (fun n _ => n.kind ≠ "token")

/-- The rule for the type name of a node. -/
def TypeTellsKind (d : NodeData) (_ : List (Rose NodeData)) : Prop :=
  (d.typeName = "identifier" → d.kind = .identifierWrapper) ∧
    (d.typeName = "token" → d.kind = .tokenLeaf)

theorem loweringRules_typeTellsKind :
    LoweringRules (fun n => n.kind ≠ "token") (·.Everywhere TypeTellsKind) where
  identifier name span := by
    refine .node ⟨fun _ => rfl, by simp⟩ fun r hr => ?_
    cases List.mem_singleton.mp hr
    exact .node ⟨by simp, fun _ => rfl⟩ fun r hr => absurd hr List.not_mem_nil
  call rs span hrs := .node ⟨by simp, by simp⟩ hrs
  other n label rs htoken hid _ hrs := .node ⟨fun h => absurd h hid, fun h => absurd h htoken⟩ hrs

theorem Tree.typesTellKinds_ofConcrete (source : String) {c : ConcreteTree} (hc : c.IsFile) :
    (ofConcrete source c).TypesTellKinds := by
  obtain ⟨rs, hlower, hrs⟩ := loweringRules_typeTellsKind.lowerRoot (sourceText source) hc.ne_token
  have hall : ((ofConcrete source c).rose (ofConcrete source c).root).Everywhere TypeTellsKind := by
    rw [ofConcrete, rose_ofRose, hlower]
    refine .node ⟨fun h => absurd h hc.root_ne_identifier, fun h => ?_⟩ hrs
    obtain ⟨n, cs⟩ := c
    exact absurd h (Rose.everywhere_node_iff.mp hc.ne_token).1
  have hat : ∀ i, i < (ofConcrete source c).size → TypeTellsKind ((ofConcrete source c).data i) _ :=
    fun i hi => everywhere_rose hall (.of_root hi)
  constructor <;> intro i htype
  · have hi : i < (ofConcrete source c).size := lt_size_of_typeName (by rw [htype]; decide)
    rw [kind?_eq_data hi, (hat i hi).1 (by rw [← typeName_eq_data, htype])]
  · have hi : i < (ofConcrete source c).size := lt_size_of_typeName (by rw [htype]; decide)
    rw [kind?_eq_data hi, (hat i hi).2 (by rw [← typeName_eq_data, htype])]

/-- The syntax of a rule on the first line of a text. -/
def ConcreteTree.rule (kind : String) (field : Option String) (start stop : Nat)
    (cs : List ConcreteTree) : ConcreteTree :=
  .node
    { kind, field, named := true, missing := false, span := ⟨start, stop, 0, start, 0, stop⟩ } cs

/-- The same for a piece of punctuation. -/
def ConcreteTree.mark (kind : String) (start stop : Nat) : ConcreteTree :=
  .node
    { kind, field := none, named := false, missing := false
      span := ⟨start, stop, 0, start, 0, stop⟩ } []

/-- The syntax of `void f(void) {}`, with blanks in the body. -/
def emptyFunction (blanks : Nat) : ConcreteTree :=
  .rule "translation_unit" none 0 (15 + blanks)
    [.rule "function_definition" none 0 (15 + blanks)
      [.rule "primitive_type" (some "type") 0 4 [],
        .rule "function_declarator" (some "declarator") 5 12
          [.rule "identifier" (some "declarator") 5 6 [],
            .rule "parameter_list" (some "parameters") 6 12
              [.mark "(" 6 7,
                .rule "parameter_declaration" none 7 11
                  [.rule "primitive_type" (some "type") 7 11 []],
                .mark ")" 11 12]],
        .rule "compound_statement" (some "body") 13 (15 + blanks)
          [.mark "\x7b" 13 14, .mark "\x7d" (14 + blanks) (15 + blanks)]]]

end CallDelta
