import CallDelta.Rose
import CallDelta.Tree.Basic

/-!
# Concrete syntax trees

What a grammar makes of source text: every token and every rule has a node, with the field that the
node fills in its parent. A grammar lists its nodes in pre-order with their depths, and
`ConcreteTree.ofListing?` puts such a listing together. Text that a grammar makes nothing of is one
error below the root (`ConcreteTree.unparsed`).
-/

namespace CallDelta

/-- A node of a concrete syntax tree. -/
structure ConcreteNode where
  /-- The grammar's word for the node. -/
  kind : String
  /-- The field that the node fills in its parent. -/
  field : Option String
  /-- Whether the node stands for a rule with a name, and not for a piece of punctuation. -/
  named : Bool
  /-- Whether the grammar made the node up to go on after an error. -/
  missing : Bool
  span : Span
  deriving DecidableEq

/-- A concrete syntax tree. -/
abbrev ConcreteTree : Type := Rose ConcreteNode

/-- A grammar gives a source text its concrete syntax tree. -/
abbrev Grammar : Type := String → Option ConcreteTree

namespace ConcreteNode

/-- Comments, punctuation and made-up nodes do not count. -/
def isSignificant (n : ConcreteNode) : Bool :=
  n.named && n.kind != "comment" && !n.missing

end ConcreteNode

namespace ConcreteTree

/-- The first of some trees that fills a field. -/
def withField? (name : String) (cs : List ConcreteTree) : Option ConcreteTree :=
  cs.find? (fun c => c.value.field == some name)

/-- The trees that count. -/
def significant (cs : List ConcreteTree) : List ConcreteTree :=
  cs.filter (fun c => c.value.isSignificant)

/-- The tree of a listing in pre-order. Each node comes with its depth. -/
def ofListing? (rows : List (Nat × ConcreteNode)) : Option ConcreteTree :=
  (Rose.ofListing rows).head?

/-- The byte, the row and the column behind some text, where columns count bytes. -/
def positionBehind (cs : List Char) : Nat × Nat × Nat :=
  cs.foldl
    (fun (byte, row, col) c =>
      if c = '\n' then (byte + 1, row + 1, 0) else (byte + c.utf8Size, row, col + c.utf8Size))
    (0, 0, 0)

/-- The span of a piece of text behind another. -/
def spanBehind (before piece : List Char) : Span :=
  let (startByte, startRow, startCol) := positionBehind before
  let (endByte, endRow, endCol) := positionBehind (before ++ piece)
  { startByte, endByte, startRow, startCol, endRow, endCol }

/-- The tree of a text that does not follow the grammar. All that is not blank is one error. -/
def unparsed (source : String) : ConcreteTree :=
  let cs := source.toList
  let blank := cs.takeWhile Char.isWhitespace
  let rest := cs.dropWhile Char.isWhitespace
  let piece := (rest.reverse.dropWhile Char.isWhitespace).reverse
  let node (kind : String) (span : Span) : ConcreteNode :=
    { kind, field := none, named := true, missing := false, span }
  .node (node "translation_unit" (spanBehind blank rest))
    (if piece.isEmpty then [] else [.node (node "ERROR" (spanBehind blank piece)) []])

end ConcreteTree

end CallDelta
