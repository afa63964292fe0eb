import CallDelta.Json.Decode
import CallDelta.Tree.Basic

/-!
# Nodes and spans in JSON
-/

namespace CallDelta

namespace NodeKind

/-- The name of a kind of node. -/
def name : NodeKind → String
  | callExpression => "CallExpression"
  | identifierWrapper => "IdentifierWrapper"
  | tokenLeaf => "TokenLeaf"
  | other => "Other"

/-- All kinds of nodes. -/
def all : List NodeKind := [callExpression, identifierWrapper, tokenLeaf, other]

/-- A kind of node as a value. -/
def toJson (k : NodeKind) : Json := .text k.name

/-- Reads a kind of node. -/
def ofJson? (v : Json) : Option NodeKind := v.asChoice? name all

end NodeKind

namespace Span

/-- A span as a value. -/
def toJson (s : Span) : Json :=
  .record
    [("start_byte", .nat s.startByte), ("end_byte", .nat s.endByte), ("start_row", .nat s.startRow),
      ("start_col", .nat s.startCol), ("end_row", .nat s.endRow), ("end_col", .nat s.endCol)]

/-- Reads a span. -/
def ofJson? (v : Json) : Option Span :=
  match v.fields? ["start_byte", "end_byte", "start_row", "start_col", "end_row", "end_col"] 6 with
  | some [startByte, endByte, startRow, startCol, endRow, endCol] => do
    let startByte ← Json.required Json.asSize? startByte
    let endByte ← Json.required Json.asSize? endByte
    let startRow ← Json.required Json.asSize? startRow
    let startCol ← Json.required Json.asSize? startCol
    let endRow ← Json.required Json.asSize? endRow
    let endCol ← Json.required Json.asSize? endCol
    some { startByte, endByte, startRow, startCol, endRow, endCol }
  | _ => none

end Span

namespace Node

/-- A node as a value. -/
def toJson (n : Node) : Json :=
  .record
    [("kind", n.kind.toJson), ("type_name", .text n.typeName), ("label", .opt .text n.label),
      ("parent", .opt .nat n.parent), ("children", .list .nat n.children),
      ("span", .opt Span.toJson n.span)]

/-- Reads a node. -/
def ofJson? (v : Json) : Option Node :=
  match v.fields? ["kind", "type_name", "label", "parent", "children", "span"] 6 with
  | some [kind, typeName, label, parent, children, span] => do
    let kind ← Json.required NodeKind.ofJson? kind
    let typeName ← Json.required Json.asText? typeName
    let label ← Json.optional Json.asText? label
    let parent ← Json.optional Json.asNodeId? parent
    let children ← Json.required (Json.asList? Json.asNodeId?) children
    let span ← Json.optional Span.ofJson? span
    some { kind, typeName, label, parent, children, span }
  | _ => none

end Node

end CallDelta
