import CallDelta.Tree.Walk

/-!
# Call signatures

The signature of a call is read off the identifiers of its subtree, in pre-order: the first is the
callee and the rest are the arguments. The identifiers of a call that stands as an argument count as
arguments. Field names are not identifiers.
-/

namespace CallDelta

/-- The names in a call. -/
structure CallSignature where
  callee : String
  arguments : List String
  deriving DecidableEq

namespace CallSignature

/-- The signature of a call without identifiers. -/
def empty : CallSignature := { callee := "", arguments := [] }

/-- A call without a callee is not reported. -/
def isReportable (s : CallSignature) : Bool := !s.callee.isEmpty

/-- The first name is the callee, the others are the arguments. -/
def ofNames : List String → CallSignature
  | [] => empty
  | callee :: arguments => { callee, arguments }

end CallSignature

namespace Tree

/-- The spelling of a token that stands directly in an identifier. A missing label is an empty
spelling. -/
def identifierName? (t : Tree) (i : Nat) : Option String :=
  if t.kind? i == some .tokenLeaf && (t.parent? i).bind t.kind? == some .identifierWrapper then
    some ((t.label? i).getD "")
  else
    none

/-- The signature of a call. -/
def signature (t : Tree) (call : Nat) : CallSignature :=
  .ofNames ((t.preOrder call).filterMap t.identifierName?)

end Tree

end CallDelta
