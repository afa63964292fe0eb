import CallDelta.Grammar.ConcreteTree
import CallDelta.Tree.Growth

/-!
# From concrete to abstract syntax

* An identifier becomes a wrapper around one token with its spelling.
* A call becomes a node with the callee and the arguments directly below it; the level of the
  argument list disappears.
* Any other node keeps the grammar's word. Without children that count it is labelled with its text,
  otherwise with the text of its operator if it has one.

Comments, punctuation and made-up nodes are dropped. The root is never labelled.
-/

namespace CallDelta

/-- The text of a span. -/
def sourceText (source : String) (span : Span) : String :=
  (String.fromUTF8? (source.toUTF8.extract span.startByte span.endByte)).getD ""

namespace ConcreteTree

variable (text : Span → String)

/-- The label of a node that is neither an identifier nor a call. -/
def label? (span : Span) (cs : List ConcreteTree) : Option String :=
  if (significant cs).isEmpty then some (text span)
  else (withField? "operator" cs).map (fun c => text c.value.span)

mutual

/-- The abstract syntax of a node, where `text` gives the source text of a span. -/
def lower : ConcreteTree → Rose NodeData
  | .node n cs =>
    if n.kind = "identifier" then identifierRose (text n.span) (some n.span)
    else if n.kind = "call_expression" then
      callRose (lowerFunction cs ++ lowerArguments cs) (some n.span)
    else
      .node
        { kind := .other, typeName := n.kind, label := label? text n.span cs, span := some n.span }
        (lowerSignificant cs)

/-- The abstract syntax of the trees that count. -/
def lowerSignificant : List ConcreteTree → List (Rose NodeData)
  | [] => []
  | c :: cs => if c.value.isSignificant then lower c :: lowerSignificant cs else lowerSignificant cs

/-- The abstract syntax of the first tree that fills the function field. -/
def lowerFunction : List ConcreteTree → List (Rose NodeData)
  | [] => []
  | c :: cs => if c.value.field = some "function" then [lower c] else lowerFunction cs

/-- The abstract syntax of what counts below the first tree that fills the arguments field. -/
def lowerArguments : List ConcreteTree → List (Rose NodeData)
  | [] => []
  | .node n ds :: cs =>
    if n.field = some "arguments" then lowerSignificant ds else lowerArguments cs

end

/-- The abstract syntax of a whole source text. -/
def lowerRoot : ConcreteTree → Rose NodeData
  | .node n cs =>
    .node { kind := .other, typeName := n.kind, span := some n.span } (lowerSignificant text cs)

end ConcreteTree

/-- The tree of a source text with the given concrete syntax. -/
def Tree.ofConcrete (source : String) (c : ConcreteTree) : Tree :=
  .ofRose (c.lowerRoot (sourceText source))

end CallDelta
