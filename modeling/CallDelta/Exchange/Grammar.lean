import CallDelta.Grammar.ConcreteTree
import CallDelta.Json.Decode

/-!
# Grammars as JSON tables

A table has a member for each source text. Its value lists the concrete syntax tree in pre-order, a
row for each node: depth, kind, field, flags, and the six numbers of the span. The flags add 1 for a
named and 2 for a missing node. A text without a member does not follow the grammar.
-/

namespace CallDelta

/-- Reads a node with its depth. -/
def ConcreteNode.ofJson? : Json → Option (Nat × ConcreteNode)
  | .arr (depth :: kind :: field :: flags :: numbers) => do
    let depth ← depth.asSize?
    let kind ← kind.asText?
    let field ← field.asOption? Json.asText?
    let flags ← flags.asSize?
    match ← numbers.mapM Json.asSize? with
    | [startByte, endByte, startRow, startCol, endRow, endCol] =>
      some (depth,
        { kind, field, named := flags % 2 == 1, missing := flags / 2 % 2 == 1
          span := { startByte, endByte, startRow, startCol, endRow, endCol } })
    | _ => none
  | _ => none

/-- Reads a concrete syntax tree. -/
def ConcreteTree.ofJson? (v : Json) : Option ConcreteTree := do
  ConcreteTree.ofListing? (← v.asList? ConcreteNode.ofJson?)

/-- The grammar that looks source texts up in a table. -/
def Grammar.ofJson (table : Json) : Grammar := fun source =>
  let found := match table with
    | .obj members => (Json.membersNamed source members).head?
    | _ => none
  match found with
  | some listing => ConcreteTree.ofJson? listing
  | none => some (ConcreteTree.unparsed source)

end CallDelta
