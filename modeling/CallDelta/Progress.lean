/-!
# Progress of a batch

The records of a batch may be done in any order. Who watches is told the number of records, a note
for each record that is skipped, each record that is done, and the end. A bar counts what is done.
-/

namespace CallDelta

/-- News about a batch. -/
inductive ProgressEvent where
  | start (records : Nat)
  | note (text : String)
  | done (index : Nat) (skipped : Bool)
  | finish
  deriving DecidableEq

/-- The counts that a bar shows. -/
structure ProgressBar where
  done : Nat := 0
  skipped : Nat := 0
  deriving DecidableEq

namespace ProgressBar

/-- The bar after some news. A new batch starts from nothing. -/
def after (bar : ProgressBar) : ProgressEvent → ProgressBar
  | .start _ => {}
  | .done _ skipped =>
    { done := bar.done + 1, skipped := if skipped then bar.skipped + 1 else bar.skipped }
  | .note _ | .finish => bar

end ProgressBar

end CallDelta
