import CallDelta.Report.Lines
import CallDelta.Report.Sink

/-!
# Reporting a script

The calls that a script changes are looked up and the report goes to one sink or to several. With
several sinks the summary is given in any case, beside the failures in the order of the sinks.
-/

namespace CallDelta

namespace EditScript

/-- The lines of the report on a script. -/
def reportLines (trees : TreePair) (script : EditScript) : List String :=
  CallDelta.reportLines script.length (script.records trees)

/-- The summary of the report on a script. -/
def summary (trees : TreePair) (script : EditScript) : ReportSummary :=
  .ofRecords script.length (script.records trees)

variable {σ ω : Type} [ReportSink σ ω]

/-- Reports a script to one sink. -/
def report (trees : TreePair) (script : EditScript) (s : σ) (w : ω) :
    Except ReportError ReportSummary × σ × ω :=
  let r := emit (script.reportLines trees) s w
  (r.failure.elim (.ok (script.summary trees)) .error, r.sink, r.world)

/-- Reports a script to all sinks. -/
def reportAll (trees : TreePair) (script : EditScript) (sinks : List σ) (w : ω) :
    ReportSummary × SinkPass σ ω :=
  (script.summary trees, emitAll (script.reportLines trees) sinks w)

end EditScript

end CallDelta
