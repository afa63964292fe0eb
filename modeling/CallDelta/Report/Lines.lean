import CallDelta.Calls.Record

/-!
# Report lines

A report begins with the number of actions. Then comes a header for each action that has something
to report, followed by the names:

    edit script: <n> actions
    action <i>: <kind> <type> [<start>,<end>]
    function name: <callee>
    argument: <argument>
    action <i>: update-node <old> -> <new>
    function name: <new>

Calls of one action share its header.
-/

namespace CallDelta

namespace ChangeRecord

/-- The beginning of every header. -/
def headerStart (r : ChangeRecord) : String :=
  "action " ++ toString r.actionIndex ++ ": " ++ r.action.name ++ " "

/-- The header above a renaming. -/
def renameHeader (r : ChangeRecord) : String :=
  r.headerStart ++ r.previousCallee.getD "" ++ " -> " ++ r.callee

/-- The header above calls. -/
def callHeader (r : ChangeRecord) : String :=
  r.headerStart ++ r.nodeType ++ r.span.elim "" (" " ++ ·.text)

/-- The line with the callee. -/
def nameLine (r : ChangeRecord) : String := "function name: " ++ r.callee

/-- The lines with the arguments. -/
def argumentLines (r : ChangeRecord) : List String := r.arguments.map ("argument: " ++ ·)

/-- The lines of a record. `above` is the action of the header last written. -/
def lines (above : Option Nat) (r : ChangeRecord) : List String :=
  if r.change = .renamed then [r.renameHeader, r.nameLine]
  else
    let header := if above = some r.actionIndex then [] else [r.callHeader]
    header ++ r.nameLine :: r.argumentLines

end ChangeRecord

/-- The lines of records below a header. -/
def recordLines (above : Option Nat) : List ChangeRecord → List String
  | [] => []
  | r :: rest => r.lines above ++ recordLines (some r.actionIndex) rest

/-- The lines of a report. -/
def reportLines (actions : Nat) (records : List ChangeRecord) : List String :=
  ("edit script: " ++ toString actions ++ " actions") :: recordLines none records

end CallDelta
