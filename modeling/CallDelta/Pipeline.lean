import CallDelta.Calls.Record
import CallDelta.Error
import CallDelta.Matching.Match
import CallDelta.Report.Lines

/-!
# From two source texts to change records

A pipeline reads both texts, pairs the nodes of the two trees, derives the edit script and looks for
the calls that it changes. Each of the first three steps can be exchanged.
-/

namespace CallDelta

/-- The steps of a diff. -/
structure Pipeline where
  parse : String → Except SourceError Tree
  pair : Tree → Tree → Mapping
  script : Tree → Tree → Mapping → EditScript

/-- What a diff finds. -/
structure DiffOutcome where
  trees : TreePair
  mapping : Mapping
  script : EditScript
  records : List ChangeRecord

namespace DiffOutcome

/-- The lines of the report. -/
def lines (o : DiffOutcome) : List String := reportLines o.script.length o.records

/-- The counts of the report. -/
def summary (o : DiffOutcome) : ReportSummary := .ofRecords o.script.length o.records

end DiffOutcome

namespace Pipeline

/-- The usual pairing and script on top of a reader of source text. -/
def standard (parse : String → Except SourceError Tree) (options : MatchOptions) : Pipeline :=
  { parse, pair := matchTrees options, script := EditScript.ofMapping }

/-- What a pipeline finds in two trees. -/
def compare (p : Pipeline) (trees : TreePair) : DiffOutcome :=
  let mapping := p.pair trees.src trees.dst
  let script := p.script trees.src trees.dst mapping
  { trees, mapping, script, records := script.records trees }

/-- The diff of two source texts. The text before is read first. -/
def diff (p : Pipeline) (before after : String) : Except SourceError DiffOutcome := do
  let src ← p.parse before
  let dst ← p.parse after
  return p.compare { src, dst }

end Pipeline

end CallDelta
