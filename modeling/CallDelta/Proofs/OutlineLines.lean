import CallDelta.Proofs.LoweredText
import CallDelta.Proofs.Measures
import CallDelta.Proofs.TextLines
import CallDelta.Tree.Outline

/-!
# Reading an outline

The indentation of an outline tells the depths of the nodes, and nodes that are listed in pre-order
with their depths make a tree again (`Rose.ofListing_listing`). But an outline is read line by line,
and type names and labels are not escaped: one with a line feed goes on in the next line, without
indentation.

* `Tree.length_textLines_outline`: how many lines an outline has
* `Tree.linePerNode_iff`: when there is one line for each node
* `Tree.readOutline_outline_iff`: when the tree can be read back
* `outline_line_per_node_iff`: both for the trees of source texts
-/

namespace CallDelta

/-! ## Listings -/

namespace Rose

variable {α β : Type}

mutual

/-- The values in pre-order with their depths, where the top has depth `n`. -/
def listing (n : Nat) : Rose α → List (Nat × α)
  | node a rs => (n, a) :: listingAll (n + 1) rs

/-- The same for a list of rose trees. -/
def listingAll (n : Nat) : List (Rose α) → List (Nat × α)
  | [] => []
  | r :: rs => listing n r ++ listingAll n rs

end

theorem listingAll_eq_flatMap (n : Nat) (rs : List (Rose α)) :
    listingAll n rs = rs.flatMap (listing n) := by
  induction rs with
  | nil => rfl
  | cons r rs ih => rw [listingAll, ih, List.flatMap_cons]

theorem listing_node (n : Nat) (a : α) (rs : List (Rose α)) :
    (node a rs).listing n = (n, a) :: rs.flatMap (listing (n + 1)) := by
  rw [listing, listingAll_eq_flatMap]

/-- A value takes the rose trees that are one level deeper, and leaves a forest that is no
deeper. -/
theorem attach_children {n : Nat} (a : α) (rs : List (Rose α)) {forest : List (Nat × Rose α)}
    (hforest : ∀ top, forest.head? = some top → top.1 ≤ n) :
    attach (n, a) (rs.map (fun r => (n + 1, r)) ++ forest) = (n, node a rs) :: forest := by
  have hdeeper : ∀ top ∈ rs.map (fun r => (n + 1, r)), decide (n < top.1) = true := by
    intro top htop
    obtain ⟨r, -, rfl⟩ := List.mem_map.mp htop
    simp
  have hstop : forest.takeWhile (fun top => decide (n < top.1)) = [] ∧
      forest.dropWhile (fun top => decide (n < top.1)) = forest := by
    cases forest with
    | nil => exact ⟨rfl, rfl⟩
    | cons top forest =>
      have htop := hforest top rfl
      have hnot : ¬ n < top.1 := by omega
      simp [hnot]
  simp only [attach, List.takeWhile_append_of_pos hdeeper, List.dropWhile_append_of_pos hdeeper,
    hstop.1, hstop.2, List.append_nil, List.map_map, Function.comp_def, List.map_id']

mutual

theorem foldr_attach_listing : ∀ (r : Rose α) (n : Nat) (forest : List (Nat × Rose α)),
    (∀ top, forest.head? = some top → top.1 ≤ n) →
    (r.listing n).foldr attach forest = (n, r) :: forest
  | node a rs, n, forest, hforest => by
    have hdeeper : ∀ top, forest.head? = some top → top.1 ≤ n + 1 := by
      intro top htop
      exact Nat.le_succ_of_le (hforest top htop)
    rw [listing, List.foldr_cons, foldr_attach_listingAll rs (n + 1) forest hdeeper,
      attach_children a rs hforest]

theorem foldr_attach_listingAll : ∀ (rs : List (Rose α)) (n : Nat) (forest : List (Nat × Rose α)),
    (∀ top, forest.head? = some top → top.1 ≤ n) →
    (listingAll n rs).foldr attach forest = rs.map (fun r => (n, r)) ++ forest
  | [], _, _, _ => rfl
  | r :: rs, n, forest, hforest => by
    have hnext : ∀ top, (rs.map (fun r => (n, r)) ++ forest).head? = some top → top.1 ≤ n := by
      intro top htop
      cases rs with
      | nil => exact hforest top htop
      | cons r' rs =>
        cases htop
        exact Nat.le_refl n
    rw [listingAll, List.foldr_append, foldr_attach_listingAll rs n forest hforest,
      foldr_attach_listing r n _ hnext, List.map_cons, List.cons_append]

end

/-- **A rose tree that is listed with the depths is put together again.** -/
theorem ofListing_listing (r : Rose α) (n : Nat) : ofListing (r.listing n) = [r] := by
  have hempty : ∀ top, ([] : List (Nat × Rose α)).head? = some top → top.1 ≤ n := by
    intro top htop
    cases htop
  rw [ofListing, foldr_attach_listing r n [] hempty]
  rfl

/-- Every value of a listing gets a place, whatever the depths. -/
theorem length_subtrees_ofListing (rows : List (Nat × α)) :
    ((ofListing rows).flatMap subtrees).length = rows.length := by
  induction rows with
  | nil => rfl
  | cons row rows ih =>
    have hcut : (rows.foldr attach []).takeWhile (fun top => row.1 < top.1) ++
        (rows.foldr attach []).dropWhile (fun top => row.1 < top.1) = rows.foldr attach [] :=
      List.takeWhile_append_dropWhile
    rw [ofListing, ← hcut, List.map_append, List.flatMap_append, List.length_append] at ih
    rw [ofListing, List.foldr_cons, attach, List.map_cons, List.flatMap_cons, subtrees_node,
      List.cons_append, List.length_cons, List.length_append, ih, List.length_cons]

mutual

theorem subtrees_map (f : α → β) : ∀ r : Rose α, (r.map f).subtrees = r.subtrees.map (map f)
  | node a rs => by rw [map, subtrees, subtrees, List.map_cons, map, subtreesAll_mapAll f rs]

theorem subtreesAll_mapAll (f : α → β) :
    ∀ rs : List (Rose α), subtreesAll (mapAll f rs) = (subtreesAll rs).map (map f)
  | [] => rfl
  | r :: rs => by
    rw [mapAll, subtreesAll, subtreesAll, List.map_append, subtrees_map f r,
      subtreesAll_mapAll f rs]

end

end Rose

/-! ## Line feeds in a line -/

theorem toList_pushn (c : Char) (n : Nat) : ("".pushn c n).toList = List.replicate n c := by
  rw [String.pushn_eq_repeat_push]
  induction n with
  | zero => rfl
  | succ n ih => rw [Nat.repeat, String.toList_push, ih, List.replicate_succ']

theorem lineFeed_notMem_toDigits (n : Nat) : '\n' ∉ Nat.toDigits 10 n := by
  intro h
  have hdigit : '\n'.isDigit = true := Nat.isDigit_of_mem_toDigits (by omega) (by omega) h
  cases hdigit

theorem Span.lineFeed_notMem_text (s : Span) : '\n' ∉ s.text.toList := by
  simp [Span.text, lineFeed_notMem_toDigits]

theorem NodeData.lineFeed_mem_text_iff (d : NodeData) :
    '\n' ∈ d.text.toList ↔
      '\n' ∈ d.typeName.toList ∨ ∃ label, d.label = some label ∧ '\n' ∈ label.toList := by
  have hspan : '\n' ∉ (d.span.elim "" (" " ++ ·.text)).toList := by
    cases d.span with
    | none => simp
    | some s => simp [Span.lineFeed_notMem_text]
  cases hlabel : d.label with
  | none => simp [NodeData.text, hlabel, hspan]
  | some label => simp [NodeData.text, hlabel, hspan]

/-! ## Reading lines -/

/-- A line of an outline as a depth, told by the indentation, and a text. -/
def readOutlineLine (line : String) : Nat × String :=
  ((line.toList.takeWhile (· == ' ')).length / 2, .ofList (line.toList.dropWhile (· == ' ')))

/-- The rose trees of an outline. -/
def readOutline (outline : String) : List (Rose String) :=
  Rose.ofListing ((textLines outline).map readOutlineLine)

theorem readOutlineLine_indented (n : Nat) {text : String} (htext : text.toList.head? ≠ some ' ') :
    readOutlineLine ("".pushn ' ' (2 * n) ++ text) = (n, text) := by
  have hblank : ∀ c ∈ List.replicate (2 * n) ' ', (c == ' ') = true := by
    intro c hc
    rw [List.eq_of_mem_replicate hc]
    rfl
  have hstop : text.toList.takeWhile (· == ' ') = [] ∧
      text.toList.dropWhile (· == ' ') = text.toList := by
    cases hcs : text.toList with
    | nil => exact ⟨rfl, rfl⟩
    | cons first rest =>
      have hfirst : first ≠ ' ' := by
        intro h
        exact htext (by rw [hcs, h, List.head?_cons])
      simp [hfirst]
  rw [readOutlineLine, String.toList_append, toList_pushn, List.takeWhile_append_of_pos hblank,
    List.dropWhile_append_of_pos hblank, hstop.1, hstop.2, List.append_nil, List.length_replicate,
    Nat.mul_div_cancel_left n Nat.two_pos, String.ofList_toList]

namespace Tree

variable {t : Tree} {i c : Nat}

/-! ## The lines of an outline -/

theorem depth_of_mem_children (hc : c ∈ t.children i) : t.depth c = t.depth i + 1 := by
  rw [depth, ancestors_eq, mem_children.mp hc]
  rfl

/-- A walk with the depths lists the rose trees. -/
theorem map_visit_eq_listing {α : Type} (f : NodeData → α) (t : Tree) (stack : List Nat) :
    (t.visit stack).map (fun i => (t.depth i, f (t.data i))) =
      stack.flatMap (fun i => ((t.rose i).map f).listing (t.depth i)) := by
  fun_induction visit t stack with
  | case1 => rfl
  | case2 i rest ih =>
    have hbelow : (t.children i).flatMap (fun c => ((t.rose c).map f).listing (t.depth i + 1)) =
        (t.children i).flatMap (fun c => ((t.rose c).map f).listing (t.depth c)) := by
      refine List.flatMap_congr ?_
      intro c hc
      rw [depth_of_mem_children hc]
    rw [List.map_cons, ih, List.flatMap_append, List.flatMap_cons, rose_eq, Rose.map_node,
      Rose.listing_node, List.cons_append, List.map_map, List.flatMap_map, ← hbelow]
    rfl

/-- The line of a node, without the line feed behind it. -/
def lineText (t : Tree) (i : Nat) : String := "".pushn ' ' (2 * t.depth i) ++ (t.data i).text

theorem outlineLine_eq (t : Tree) (i : Nat) : t.outlineLine i = t.lineText i ++ "\n" := by
  unfold outlineLine lineText data
  cases t.get? i with
  | none => rfl
  | some n => rfl

theorem outline_eq_linesText (t : Tree) :
    t.outline = linesText ((t.preOrder t.root).map t.lineText) := by
  rw [outline, linesText, List.map_map]
  refine congrArg String.join (List.map_congr_left ?_)
  intro i _
  exact t.outlineLine_eq i

theorem textLines_outline (t : Tree) :
    textLines t.outline = (t.preOrder t.root).flatMap (fun i => linePieces (t.lineText i)) := by
  rw [outline_eq_linesText, textLines_linesText, List.flatMap_map]

theorem count_lineText (t : Tree) (i : Nat) :
    (t.lineText i).toList.count '\n' = (t.data i).text.toList.count '\n' := by
  simp [lineText, toList_pushn, List.count_replicate]

theorem length_preOrder_root (t : Tree) : (t.preOrder t.root).length = t.size := by
  rw [t.preOrder_root_perm_ids.length_eq, ids, List.length_range]

/-- **An outline has a line for each node, and one more for each line feed in the text of a
node.** -/
theorem length_textLines_outline (t : Tree) :
    (textLines t.outline).length =
      t.size + sumOf ((t.preOrder t.root).map fun i => (t.data i).text.toList.count '\n') := by
  rw [textLines_outline, length_flatMap_eq_sumOf]
  simp only [length_linePieces, count_lineText]
  rw [sumOf_map_add_one, length_preOrder_root]

/-! ## One line for each node -/

/-- No type name and no label has a line feed. -/
def NoLineFeeds (t : Tree) : Prop :=
  ∀ i, i < t.size → '\n' ∉ (t.typeName i).toList ∧
    ∀ label ∈ t.label? i, '\n' ∉ label.toList

theorem noLineFeeds_iff : t.NoLineFeeds ↔ ∀ i, i < t.size → '\n' ∉ (t.data i).text.toList := by
  refine forall₂_congr ?_
  intro i _
  rw [NodeData.lineFeed_mem_text_iff, typeName_eq_data, label?_eq_data]
  simp

theorem length_textLines_outline_iff :
    (textLines t.outline).length = t.size ↔ t.NoLineFeeds := by
  rw [length_textLines_outline, Nat.add_eq_left, sumOf_eq_zero_iff, noLineFeeds_iff]
  simp only [List.forall_mem_map, List.count_eq_zero]
  constructor
  · intro h i hi
    exact h i (mem_preOrder_root hi)
  · intro h i hi
    exact h i (lt_size_of_mem_preOrder hi)

theorem NoLineFeeds.textLines_outline (h : t.NoLineFeeds) :
    textLines t.outline = (t.preOrder t.root).map t.lineText := by
  rw [Tree.textLines_outline, List.map_eq_flatMap]
  refine List.flatMap_congr ?_
  intro i hi
  refine linePieces_of_notMem ?_
  rw [← List.count_eq_zero, count_lineText, List.count_eq_zero]
  exact noLineFeeds_iff.mp h i (lt_size_of_mem_preOrder hi)

/-- The outline has one line for each node, indented by two blanks a level and with the type name in
front. -/
structure LinePerNode (t : Tree) : Prop where
  ended : linesText (textLines t.outline) = t.outline
  count : (textLines t.outline).length = t.size
  starts : List.Forall₂
    (fun i line => List.replicate (2 * t.depth i) ' ' ++ (t.typeName i).toList <+: line.toList)
    (t.preOrder t.root) (textLines t.outline)

theorem typeName_prefix_lineText (t : Tree) (i : Nat) :
    List.replicate (2 * t.depth i) ' ' ++ (t.typeName i).toList <+: (t.lineText i).toList := by
  rw [lineText, String.toList_append, toList_pushn, List.prefix_append_right_inj, NodeData.text,
    String.toList_append, String.toList_append, List.append_assoc, typeName_eq_data]
  exact List.prefix_append _ _

/-- **There is one line for each node exactly if nothing has a line feed.** -/
theorem linePerNode_iff : t.LinePerNode ↔ t.NoLineFeeds := by
  constructor
  · intro h
    exact length_textLines_outline_iff.mp h.count
  · intro h
    refine ⟨?_, length_textLines_outline_iff.mpr h, ?_⟩
    · rw [h.textLines_outline, outline_eq_linesText]
    · rw [h.textLines_outline, List.forall₂_map_right_iff, List.forall₂_same]
      intro i _
      exact t.typeName_prefix_lineText i

/-! ## Reading the tree back -/

/-- Every type name begins with a character that is not taken for indentation. -/
def NamesShow (t : Tree) : Prop :=
  ∀ i, i < t.size → t.typeName i ≠ "" ∧ (t.typeName i).toList.head? ≠ some ' '

theorem readOutlineLine_lineText (h : t.NamesShow) (hi : i < t.size) :
    readOutlineLine (t.lineText i) = (t.depth i, (t.data i).text) := by
  obtain ⟨hne, hfirst⟩ := h i hi
  refine readOutlineLine_indented (t.depth i) ?_
  have hname : (t.typeName i).toList ≠ [] := by simpa using hne
  rwa [NodeData.text, String.toList_append, String.toList_append, List.append_assoc,
    ← typeName_eq_data, List.head?_append_of_ne_nil _ hname]

theorem readOutline_outline (hnames : t.NamesShow) (hfeeds : t.NoLineFeeds) :
    readOutline t.outline = [(t.rose t.root).map NodeData.text] := by
  have hrows : (t.preOrder t.root).map (fun i => readOutlineLine (t.lineText i)) =
      (t.preOrder t.root).map (fun i => (t.depth i, (t.data i).text)) := by
    refine List.map_congr_left ?_
    intro i hi
    exact readOutlineLine_lineText hnames (lt_size_of_mem_preOrder hi)
  rw [readOutline, hfeeds.textLines_outline, List.map_map]
  show Rose.ofListing ((t.preOrder t.root).map fun i => readOutlineLine (t.lineText i)) = _
  rw [hrows, preOrder_of_lt t.root_lt_size, map_visit_eq_listing, List.flatMap_singleton,
    Rose.ofListing_listing]

/-- What is read has as many nodes as the outline has lines. -/
theorem noLineFeeds_of_readOutline
    (h : readOutline t.outline = [(t.rose t.root).map NodeData.text]) : t.NoLineFeeds := by
  have hnodes := Rose.length_subtrees_ofListing ((textLines t.outline).map readOutlineLine)
  rw [← readOutline, h, List.flatMap_singleton, Rose.subtrees_map,
    ← map_rose_preOrder t.root_lt_size, List.length_map, List.length_map, List.length_map,
    length_preOrder_root] at hnodes
  exact length_textLines_outline_iff.mp hnodes.symm

/-- **The tree can be read back exactly if nothing has a line feed.** -/
theorem readOutline_outline_iff (h : t.NamesShow) :
    readOutline t.outline = [(t.rose t.root).map NodeData.text] ↔ t.NoLineFeeds :=
  ⟨noLineFeeds_of_readOutline, readOutline_outline h⟩

end Tree

/-! ## Outlines of source texts -/

/-- **The outline of a source text has one line for each node exactly if no type name and no label
has a line feed, and exactly then the tree can be read back from the indentation.** -/
theorem outline_line_per_node_iff (source : String) (c : ConcreteTree) :
    let t := Tree.ofConcrete source c
    (t.LinePerNode ↔ t.NoLineFeeds) ∧
      (t.NamesShow →
        (readOutline t.outline = [(t.rose t.root).map NodeData.text] ↔ t.NoLineFeeds)) :=
  ⟨Tree.linePerNode_iff, Tree.readOutline_outline_iff⟩

theorem outline_of_quotingCall :
    let t := Tree.ofConcrete "f(\"é\");" Tree.quotingCall
    t.NamesShow ∧ t.LinePerNode ∧ readOutline t.outline = [(t.rose t.root).map NodeData.text] := by
  have hnames : (Tree.ofConcrete "f(\"é\");" Tree.quotingCall).NamesShow := by
    unfold Tree.NamesShow
    decide +kernel
  have hfeeds : (Tree.ofConcrete "f(\"é\");" Tree.quotingCall).NoLineFeeds := by
    unfold Tree.NoLineFeeds
    decide +kernel
  obtain ⟨hlines, hread⟩ := outline_line_per_node_iff "f(\"é\");" Tree.quotingCall
  exact ⟨hnames, hlines.mpr hfeeds, (hread hnames).mpr hfeeds⟩

/-- An empty body is a leaf and labelled with its text, here with a line feed between the
brackets. -/
theorem outline_of_emptyFunction :
    let t := Tree.ofConcrete "void f(void) \x7b\n\x7d" (emptyFunction 1)
    t.size = 10 ∧ (textLines t.outline).length = 11 ∧ ¬ t.LinePerNode ∧
      readOutline t.outline ≠ [(t.rose t.root).map NodeData.text] := by
  have hsize : (Tree.ofConcrete "void f(void) \x7b\n\x7d" (emptyFunction 1)).size = 10 := by
    decide +kernel
  have hlines : (textLines
      (Tree.ofConcrete "void f(void) \x7b\n\x7d" (emptyFunction 1)).outline).length = 11 := by
    rw [Tree.length_textLines_outline]
    decide +kernel
  have hfeed : ¬ (Tree.ofConcrete "void f(void) \x7b\n\x7d" (emptyFunction 1)).NoLineFeeds := by
    intro h
    have hcount := Tree.length_textLines_outline_iff.mpr h
    rw [hlines, hsize] at hcount
    cases hcount
  refine ⟨hsize, hlines, ?_, ?_⟩
  · intro h
    exact hfeed (Tree.linePerNode_iff.mp h)
  · intro h
    exact hfeed (Tree.noLineFeeds_of_readOutline h)

end CallDelta
