import CallDelta.Calls.Record
import CallDelta.Exchange.Script
import CallDelta.Exchange.Tree

/-!
# Signatures, change records and summaries in JSON

The span and the previous callee of a change record are left out where there are none.
-/

namespace CallDelta

namespace CallSignature

/-- A signature as a value. -/
def toJson (s : CallSignature) : Json :=
  .record [("callee", .text s.callee), ("arguments", .list .text s.arguments)]

/-- Reads a signature. -/
def ofJson? (v : Json) : Option CallSignature :=
  match v.fields? ["callee", "arguments"] 2 with
  | some [callee, arguments] => do
    let callee ← Json.required Json.asText? callee
    let arguments ← Json.required (Json.asList? Json.asText?) arguments
    some { callee, arguments }
  | _ => none

end CallSignature

namespace ChangeKind

/-- A kind of change as a value. -/
def toJson (k : ChangeKind) : Json := .text k.name

/-- Reads a kind of change. -/
def ofJson? (v : Json) : Option ChangeKind := v.asChoice? name [inserted, deleted, renamed]

end ChangeKind

namespace ChangeRecord

/-- A member that is left out where there is no value. -/
def present {α : Type} (name : String) (write : α → Json) (value : Option α) :
    List (String × Json) :=
  (value.map (fun a => (name, write a))).toList

/-- A change record as a value. -/
def toJson (r : ChangeRecord) : Json :=
  .record
    ([("action_index", .nat r.actionIndex), ("action", r.action.toJson),
        ("node_type", .text r.nodeType)] ++
      present "span" Span.toJson r.span ++
      [("change", r.change.toJson), ("callee", .text r.callee),
        ("arguments", .list .text r.arguments)] ++
      present "previous_callee" .text r.previousCallee)

/-- The names of the fields. -/
def fieldNames : List String :=
  ["action_index", "action", "node_type", "span", "change", "callee", "arguments",
   "previous_callee"]

/-- Reads a change record. -/
def ofJson? (v : Json) : Option ChangeRecord :=
  match v.fields? fieldNames 8 with
  | some [actionIndex, action, nodeType, span, change, callee, arguments, previousCallee] => do
    let actionIndex ← Json.required Json.asSize? actionIndex
    let action ← Json.required ActionKind.ofJson? action
    let nodeType ← Json.required Json.asText? nodeType
    let span ← Json.optional Span.ofJson? span
    let change ← Json.required ChangeKind.ofJson? change
    let callee ← Json.required Json.asText? callee
    let arguments ← Json.required (Json.asList? Json.asText?) arguments
    let previousCallee ← Json.optional Json.asText? previousCallee
    some { actionIndex, action, nodeType, span, change, callee, arguments, previousCallee }
  | _ => none

end ChangeRecord

namespace ReportSummary

/-- A summary as a value. -/
def toJson (s : ReportSummary) : Json :=
  .record
    [("actions", .nat s.actions), ("inserted", .nat s.inserted), ("deleted", .nat s.deleted),
      ("renamed", .nat s.renamed)]

/-- Reads a summary. -/
def ofJson? (v : Json) : Option ReportSummary :=
  match v.fields? ["actions", "inserted", "deleted", "renamed"] 4 with
  | some [actions, inserted, deleted, renamed] => do
    let actions ← Json.required Json.asSize? actions
    let inserted ← Json.required Json.asSize? inserted
    let deleted ← Json.required Json.asSize? deleted
    let renamed ← Json.required Json.asSize? renamed
    some { actions, inserted, deleted, renamed }
  | _ => none

end ReportSummary

end CallDelta
