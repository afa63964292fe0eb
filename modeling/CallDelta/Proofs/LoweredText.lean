import CallDelta.Proofs.Lowered

/-!
# Lowered trees and their source text

A syntax tree fits a source text if each of its nodes covers whole characters of the text and lies
within its parent (`ConcreteTree.FitsSource`). Lowering then leaves spans nested, although it takes
the level of the argument list away, and whatever is a leaf afterwards is labelled with its text.
Together with the numbering and the pairs of identifiers and tokens this says what a lowered tree is
made of (`Tree.readsOff_ofConcrete`).
-/

namespace CallDelta

/-! ## Spans -/

namespace Span

variable {a b c span : Span} {source : String}

/-- The bytes of one span lie within those of another. -/
def Encloses (outer inner : Span) : Prop :=
  outer.startByte ≤ inner.startByte ∧ inner.endByte ≤ outer.endByte

instance (outer inner : Span) : Decidable (outer.Encloses inner) :=
  inferInstanceAs (Decidable (_ ∧ _))

theorem Encloses.refl (a : Span) : a.Encloses a := ⟨Nat.le_refl _, Nat.le_refl _⟩

theorem Encloses.trans (hab : a.Encloses b) (hbc : b.Encloses c) : a.Encloses c :=
  ⟨Nat.le_trans hab.1 hbc.1, Nat.le_trans hbc.2 hab.2⟩

/-- A span covers whole characters of a source text. -/
def IsSlice (span : Span) (source : String) : Prop :=
  span.startByte ≤ span.endByte ∧ (String.Pos.Raw.mk span.startByte).IsValid source ∧
    (String.Pos.Raw.mk span.endByte).IsValid source

instance (span : Span) (source : String) : Decidable (span.IsSlice source) :=
  inferInstanceAs (Decidable (_ ∧ _ ∧ _))

/-- A source text has `text` at a span. -/
def Spells (span : Span) (source text : String) : Prop :=
  ∃ before after, source = before ++ text ++ after ∧ before.utf8ByteSize = span.startByte ∧
    (before ++ text).utf8ByteSize = span.endByte

/-- **What is taken from a source text at a span stands there.** -/
theorem IsSlice.spells (h : span.IsSlice source) : span.Spells source (sourceText source span) := by
  obtain ⟨hle, hstart, hend⟩ := h
  have hsize : span.endByte ≤ source.toByteArray.size := hend.le_rawEndPos
  have hvalid := (String.Pos.Raw.isValidUTF8_extract_iff _ _ hle hend.le_rawEndPos).mpr
    (Or.inr ⟨hstart, hend⟩)
  have htext : (sourceText source span).toByteArray =
      source.toByteArray.extract span.startByte span.endByte := by
    rw [sourceText, String.toUTF8_eq_toByteArray, String.fromUTF8?, dif_pos hvalid]
    rfl
  have hupTo : source.toByteArray.extract 0 span.startByte ++ (sourceText source span).toByteArray =
      source.toByteArray.extract 0 span.endByte := by
    rw [htext, ByteArray.extract_append_extract, Nat.min_eq_left (Nat.zero_le _),
      Nat.max_eq_right hle]
  have hwhole : source.toByteArray.extract 0 span.endByte ++
      source.toByteArray.extract span.endByte source.utf8ByteSize = source.toByteArray := by
    rw [ByteArray.extract_append_extract, Nat.min_eq_left (Nat.zero_le _),
      ← String.size_toByteArray, Nat.max_eq_right hsize, ByteArray.extract_zero_size]
  refine ⟨⟨_, hstart.isValidUTF8_extract_zero⟩, ⟨_, hend.isValidUTF8_extract_utf8ByteSize⟩, ?_, ?_,
    ?_⟩
  · apply String.toByteArray_inj.mp
    rw [String.toByteArray_append, String.toByteArray_append, hupTo, hwhole]
  · rw [← String.size_toByteArray, ByteArray.size_extract, Nat.sub_zero]
    exact Nat.min_eq_left (Nat.le_trans hle hsize)
  · rw [← String.size_toByteArray, String.toByteArray_append, hupTo, ByteArray.size_extract,
      Nat.sub_zero]
    exact Nat.min_eq_left hsize

end Span

/-! ## Syntax that fits a text -/

namespace ConcreteTree

variable {source : String} {text : Span → String} {n : ConcreteNode} {cs : List ConcreteTree}
  {d : ConcreteTree}

/-- Each node covers whole characters of a source text and lies within its parent. -/
def FitsSource (c : ConcreteTree) (source : String) : Prop :=
  c.Everywhere (fun n cs => n.span.IsSlice source ∧ ∀ d ∈ cs, n.span.Encloses d.value.span)

instance (c : ConcreteTree) (source : String) : Decidable (c.FitsSource source) :=
  inferInstanceAs (Decidable (Rose.Everywhere _ c))

/-- The level of an argument list can be taken away. -/
theorem FitsSource.encloses (h : FitsSource (.node n cs) source) (hd : d ∈ parts n cs) :
    n.span.Encloses d.value.span := by
  obtain ⟨⟨-, hn⟩, hcs⟩ := Rose.everywhere_node_iff.mp h
  obtain ⟨c, hc, rfl | hd⟩ := mem_parts hd
  · exact hn d hc
  · obtain ⟨m, ds⟩ := c
    exact (hn _ hc).trans ((Rose.everywhere_node_iff.mp (hcs _ hc)).1.2 d hd)

theorem span_loweredData (text : Span → String) (n : ConcreteNode) (cs : List ConcreteTree) :
    (loweredData text n cs).span = some n.span := by
  rw [loweredData]
  split <;> rfl

theorem span_lower (text : Span → String) (c : ConcreteTree) :
    (c.lower text).value.span = some c.value.span := by
  obtain ⟨n, cs⟩ := c
  by_cases hid : n.kind = "identifier"
  · rw [lower_identifier hid]
    rfl
  · rw [lower_of_ne_identifier hid]
    exact span_loweredData text n cs

/-- A node without parts is a call or is labelled with its text. -/
theorem label_loweredData (hparts : parts n cs = [])
    (hkind : (loweredData text n cs).kind ≠ .callExpression) :
    (loweredData text n cs).label = some (text n.span) := by
  rw [loweredData] at hkind ⊢
  split at hkind
  · exact absurd rfl hkind
  · next hcall =>
    rw [parts, if_neg hcall] at hparts
    rw [if_neg hcall, label?, hparts]
    rfl

end ConcreteTree

/-! ## What lowering makes of it -/

/-- The rule for a node of a lowered tree: only calls are called so, what is below lies within, and
a leaf that is no call is labelled with its text. -/
structure KeepsText (source : String) (d : NodeData) (rs : List (Rose NodeData)) : Prop where
  call : d.kind = .callExpression → d.typeName = "call_expression"
  encloses : ∃ span, d.span = some span ∧
    ∀ r ∈ rs, ∃ inner, r.value.span = some inner ∧ span.Encloses inner
  leaf : rs = [] → d.kind ≠ .callExpression →
    ∃ span text, d.span = some span ∧ d.label = some text ∧ span.Spells source text

namespace ConcreteTree

variable {source : String}

theorem everywhere_keepsText_identifierRose {span : Span} (h : span.IsSlice source) :
    (identifierRose (sourceText source span) (some span)).Everywhere (KeepsText source) := by
  refine .node ⟨by simp, ⟨span, rfl, ?_⟩, by simp⟩ fun r hr => ?_
  · intro r hr
    cases List.mem_singleton.mp hr
    exact ⟨span, rfl, .refl span⟩
  · cases List.mem_singleton.mp hr
    refine .node ⟨by simp, ⟨span, rfl, by simp⟩, fun _ _ => ⟨span, _, rfl, rfl, h.spells⟩⟩ ?_
    simp

theorem everywhere_keepsText_lower (c : ConcreteTree) (h : c.FitsSource source) :
    (c.lower (sourceText source)).Everywhere (KeepsText source) := by
  induction c using induction_parts with
  | h n cs ih =>
    have hslice := (Rose.everywhere_node_iff.mp h).1.1
    by_cases hid : n.kind = "identifier"
    · rw [lower_identifier hid]
      exact everywhere_keepsText_identifierRose hslice
    · rw [lower_of_ne_identifier hid]
      refine .node ⟨?_, ⟨n.span, span_loweredData _ _ _, ?_⟩, ?_⟩ ?_
      · intro hkind
        rw [loweredData] at hkind ⊢
        split at hkind
        · next hcall => rw [if_pos hcall]
        · cases hkind
      · rw [List.forall_mem_map]
        exact fun d hd => ⟨d.value.span, span_lower _ d, h.encloses hd⟩
      · intro hparts hkind
        rw [List.map_eq_nil_iff] at hparts
        exact ⟨n.span, _, span_loweredData _ _ _, label_loweredData hparts hkind, hslice.spells⟩
      · rw [List.forall_mem_map]
        exact fun d hd => ih d hd (everywhere_parts h hd)

end ConcreteTree

namespace Tree

variable {t : Tree} {source : String} {i p : Nat}

/-- A rule that holds everywhere below the root holds at every other node. -/
theorem rule_of_ne_root {P : NodeData → List (Rose NodeData) → Prop}
    (h : ∀ r ∈ (t.rose t.root).children, r.Everywhere P) (hi : i < t.size) (hne : i ≠ t.root) :
    P (t.data i) ((t.children i).map t.rose) := by
  obtain ⟨c, hc, hci⟩ := (Within.iff_children.mp (Within.of_root hi)).resolve_left hne
  refine everywhere_rose (h (t.rose c) ?_) hci
  rw [rose_eq]
  exact List.mem_map_of_mem hc

/-- A node is labelled with the text of its span. -/
def ShowsText (t : Tree) (source : String) (i : Nat) : Prop :=
  ∃ span text, t.span? i = some span ∧ t.label? i = some text ∧ span.Spells source text

/-- What a tree that is read off a source text is made of. -/
structure ReadsOff (t : Tree) (source : String) : Prop where
  /-- The numbers follow the pre-order. -/
  preOrder_root : t.preOrder t.root = List.range t.size
  /-- Below an identifier stands one token with its spelling. -/
  identifier : ∀ w, t.kind? w = some .identifierWrapper →
    ∃ tok, t.children w = [tok] ∧ t.kind? tok = some .tokenLeaf ∧ t.children tok = [] ∧
      t.ShowsText source tok
  /-- Tokens stand nowhere else. -/
  token : ∀ tok, t.kind? tok = some .tokenLeaf →
    ∃ w, t.parent? tok = some w ∧ t.kind? w = some .identifierWrapper
  call : ∀ i, t.kind? i = some .callExpression → t.typeName i = "call_expression"
  /-- A node lies within its parent. -/
  encloses : ∀ i p, t.parent? i = some p →
    ∃ outer inner, t.span? p = some outer ∧ t.span? i = some inner ∧ outer.Encloses inner
  /-- A leaf other than the root is a call or is labelled with its text. -/
  leaf : ∀ i, i < t.size → i ≠ t.root → t.children i = [] → t.kind? i ≠ some .callExpression →
    t.ShowsText source i

/-- What a lowered tree is made of follows from the rules for its nodes. -/
theorem IsLowered.readsOff (h : t.IsLowered) (hnumbers : t.preOrder t.root = t.ids)
    (hspans : ∀ p, p < t.size → ∃ outer, (t.data p).span = some outer ∧
      ∀ r ∈ (t.children p).map t.rose, ∃ inner, r.value.span = some inner ∧ outer.Encloses inner)
    (hrules : ∀ i, i < t.size → i ≠ t.root →
      KeepsText source (t.data i) ((t.children i).map t.rose)) : t.ReadsOff source := by
  have hne : ∀ {i : Nat} {kind : NodeKind}, t.kind? i = some kind → kind ≠ .other → i ≠ t.root := by
    rintro i kind hkind hother rfl
    rw [h.kind_root] at hkind
    exact hother (Option.some.inj hkind).symm
  have hleaf : ∀ i, i < t.size → i ≠ t.root → t.children i = [] →
      t.kind? i ≠ some .callExpression → t.ShowsText source i := by
    intro i hi hroot hchildren hkind
    rw [kind?_eq_data hi, ne_eq, Option.some.injEq] at hkind
    obtain ⟨span, text, hspan, hlabel, hspells⟩ :=
      (hrules i hi hroot).leaf (List.map_eq_nil_iff.mpr hchildren) hkind
    exact ⟨span, text, (t.span?_eq_data i).trans hspan, (t.label?_eq_data i).trans hlabel, hspells⟩
  refine ⟨hnumbers, fun w hw => ?_, fun tok htok => ?_, fun i hi => ?_, fun i p hp => ?_, hleaf⟩
  · obtain ⟨tok, hwraps⟩ := h.exists_token w hw
    refine ⟨tok, hwraps.children_identifier, hwraps.kind_token, hwraps.children_token, ?_⟩
    refine hleaf tok (lt_size_of_kind? hwraps.kind_token) (hne hwraps.kind_token (by decide))
      hwraps.children_token ?_
    rw [hwraps.kind_token]
    decide
  · obtain ⟨w, hwraps⟩ := h.exists_identifier tok htok
    exact ⟨w, hwraps.parent_token, hwraps.kind_identifier⟩
  · have hsize := lt_size_of_kind? hi
    have hroot := hne hi (by decide)
    rw [kind?_eq_data hsize, Option.some.injEq] at hi
    rw [typeName_eq_data]
    exact (hrules i hsize hroot).call hi
  · have hsize := Nat.lt_trans (lt_of_parent? hp) (lt_size_of_parent? hp)
    obtain ⟨outer, houter, hbelow⟩ := hspans p hsize
    obtain ⟨inner, hinner, hencloses⟩ :=
      hbelow (t.rose i) (List.mem_map_of_mem (mem_children.mpr hp))
    rw [value_rose] at hinner
    exact ⟨outer, inner, (t.span?_eq_data p).trans houter, (t.span?_eq_data i).trans hinner,
      hencloses⟩

/-- **A tree that is lowered from syntax that fits its source text is numbered in pre-order, its
spans are nested, identifiers and tokens belong together, and its leaves show the text.** -/
theorem readsOff_ofConcrete (source : String) (c : ConcreteTree) (hc : c.FitsSource source) :
    (ofConcrete source c).ReadsOff source := by
  obtain ⟨n, cs⟩ := c
  obtain ⟨⟨-, hroot⟩, hcs⟩ := Rose.everywhere_node_iff.mp hc
  have hlowered := isLowered_ofConcrete source (.node n cs)
  have hnumbers := preOrder_ofRose (ConcreteTree.lowerRoot (sourceText source) (.node n cs))
  have hrose := rose_ofRose (ConcreteTree.lowerRoot (sourceText source) (.node n cs))
  rw [← ofConcrete] at hnumbers hrose
  rw [ConcreteTree.lowerRoot_eq] at hrose
  generalize ofConcrete source (.node n cs) = t at hlowered hnumbers hrose ⊢
  have hrules : ∀ i, i < t.size → i ≠ t.root →
      KeepsText source (t.data i) ((t.children i).map t.rose) := by
    refine fun i hi hne => rule_of_ne_root ?_ hi hne
    rw [hrose, Rose.children, List.forall_mem_map]
    exact fun d hd => d.everywhere_keepsText_lower (hcs d (List.mem_filter.mp hd).1)
  refine hlowered.readsOff hnumbers (fun p hp => ?_) hrules
  by_cases hp₀ : p = t.root
  · rw [rose_eq, Rose.node.injEq] at hrose
    rw [hp₀, hrose.1, hrose.2]
    refine ⟨n.span, rfl, List.forall_mem_map.mpr fun d hd => ?_⟩
    exact ⟨d.value.span, ConcreteTree.span_lower _ d, hroot d (List.mem_filter.mp hd).1⟩
  · exact (hrules p hp hp₀).encloses

/-- The syntax of a call with a text of its own, such as `f("é");`. -/
def quotingCall : ConcreteTree :=
  .rule "translation_unit" none 0 8
    [.rule "expression_statement" none 0 8
      [.rule "call_expression" none 0 7
        [.rule "identifier" (some "function") 0 1 [],
          .rule "argument_list" (some "arguments") 1 7
            [.mark "(" 1 2,
              .rule "string_literal" none 2 6
                [.mark "\"" 2 3, .rule "string_content" none 3 5 [], .mark "\"" 5 6],
              .mark ")" 6 7]],
        .mark ";" 7 8]]

/-- A letter of two bytes. -/
theorem readsOff_quotingCall : quotingCall.FitsSource "f(\"é\");" ∧
    (ofConcrete "f(\"é\");" quotingCall).ReadsOff "f(\"é\");" := by
  have hfits : quotingCall.FitsSource "f(\"é\");" := by decide +kernel
  exact ⟨hfits, readsOff_ofConcrete _ _ hfits⟩

end Tree

end CallDelta
