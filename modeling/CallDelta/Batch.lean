import CallDelta.Dataset
import CallDelta.Pipeline
import CallDelta.Progress
import CallDelta.Report.Sink

/-!
# Batches

Every record of a data set is diffed on its own, and a record whose sources cannot be read is
skipped. The reports are written in the order of the data set, each in a frame. A sink that fails
gets no more lines and is not finished; the others go on.
-/

namespace CallDelta

/-- A record with its diff. -/
structure BatchItem where
  record : DiffRecord
  outcome : Except SourceError DiffOutcome

/-- Diffs all records. -/
def Pipeline.diffAll (p : Pipeline) (records : List DiffRecord) : List BatchItem :=
  records.map (fun record => { record, outcome := p.diff record.before record.after })

/-- The line above a frame. -/
def beginMarker : String := "-------- begin --------"

/-- The line below a frame. -/
def endMarker : String := "-------- end --------"

namespace DiffRecord

/-- The line of a frame that has the commit of a record. -/
def commitLine (r : DiffRecord) : String := "commit_id_source: " ++ r.commit.getD ""

/-- The line of a frame that has the diff of a record. -/
def diffLine (r : DiffRecord) : String := "diff_source: " ++ r.diff.getD ""

/-- The lines between the markers of a frame. -/
def body (r : DiffRecord) (outcome : DiffOutcome) : List String :=
  r.commitLine :: r.diffLine :: outcome.lines

/-- The frame of a record with the report of its diff. -/
def frame (r : DiffRecord) (outcome : DiffOutcome) : List String :=
  beginMarker :: (r.body outcome ++ [endMarker])

end DiffRecord

namespace BatchItem

/-- The outcome of a record that is not skipped. -/
def outcome? (item : BatchItem) : Option DiffOutcome := item.outcome.toOption

/-- Whether the record is skipped. -/
def skipped (item : BatchItem) : Bool := item.outcome?.isNone

/-- The lines for a record that is not skipped. -/
def frame? (item : BatchItem) : Option (List String) := item.outcome?.map item.record.frame

/-- The news when a record is done. -/
def news (item : BatchItem) (index : Nat) : List ProgressEvent :=
  match item.outcome with
  | .ok _ => [.done index false]
  | .error e =>
    [.note ("skipping record " ++ toString index ++ ": " ++ (DiffError.source e).message),
      .done index true]

end BatchItem

/-- The news about a batch whose records are done in the given order. -/
def batchNews (items : List BatchItem) (order : List Nat) : List ProgressEvent :=
  .start items.length ::
    order.flatMap (fun index => (items[index]?.map (·.news index)).getD []) ++ [.finish]

/-- The counts of a batch. -/
structure BatchSummary where
  records : Nat
  reported : Nat
  skipped : Nat
  inserted : Nat
  deleted : Nat
  renamed : Nat
  deriving DecidableEq

namespace BatchSummary

/-- The counts of a batch in which no record was seen yet. -/
def zero (records : Nat) : BatchSummary :=
  { records, reported := 0, skipped := 0, inserted := 0, deleted := 0, renamed := 0 }

/-- Counts a change. -/
def countChange (s : BatchSummary) (change : ChangeRecord) : BatchSummary :=
  match change.change with
  | .inserted => { s with inserted := s.inserted + 1 }
  | .deleted => { s with deleted := s.deleted + 1 }
  | .renamed => { s with renamed := s.renamed + 1 }

/-- Counts a record, and if it is not skipped its changes one by one. -/
def count (s : BatchSummary) (item : BatchItem) : BatchSummary :=
  match item.outcome? with
  | none => { s with skipped := s.skipped + 1 }
  | some outcome => outcome.records.foldl countChange { s with reported := s.reported + 1 }

end BatchSummary

/-- A sink during a batch. -/
structure LiveSink (σ : Type) where
  sink : σ
  /-- Whether no line has been refused yet. -/
  alive : Bool := true

/-- What a batch leaves behind. -/
structure BatchRun (σ ω : Type) where
  summary : BatchSummary
  errors : List ReportError
  sinks : List σ
  world : ω

section

variable {σ ω : Type} [ReportSink σ ω]

/-- Writes lines to a sink that is alive. It dies when a line is refused. -/
def LiveSink.write (lines : List String) (s : LiveSink σ) (w : ω) :
    SinkStep ReportError (LiveSink σ) ω :=
  if s.alive then
    let r := (writeLines lines s.sink w).blame
    { failure := r.failure
      sink := { sink := r.sink, alive := r.failure.isNone }
      world := r.world }
  else
    { failure := none, sink := s, world := w }

/-- Finishes a sink that is alive. -/
def LiveSink.finish (s : LiveSink σ) (w : ω) : SinkStep ReportError (LiveSink σ) ω :=
  if s.alive then
    let r := (ReportSink.finish s.sink w).blame
    { failure := r.failure, sink := { s with sink := r.sink }, world := r.world }
  else
    { failure := none, sink := s, world := w }

/-- Writes the frames one by one to all sinks. -/
def writeFrames : List (List String) → List (LiveSink σ) → ω → SinkPass (LiveSink σ) ω
  | [], sinks, w => { errors := [], sinks, world := w }
  | frame :: frames, sinks, w =>
    let pass := passOver (LiveSink.write frame) sinks w
    let rest := writeFrames frames pass.sinks pass.world
    { rest with errors := pass.errors ++ rest.errors }

/-- Reports a batch to all sinks. -/
def reportBatch (items : List BatchItem) (sinks : List σ) (w : ω) : BatchRun σ ω :=
  let frames := items.filterMap (·.frame?)
  let written := writeFrames frames (sinks.map (fun sink => { sink })) w
  let finished := passOver LiveSink.finish written.sinks written.world
  { summary := items.foldl .count (.zero items.length)
    errors := written.errors ++ finished.errors
    sinks := finished.sinks.map (·.sink)
    world := finished.world }

/-- Diffs and reports a batch. -/
def Pipeline.runBatch (p : Pipeline) (records : List DiffRecord) (sinks : List σ) (w : ω) :
    BatchRun σ ω :=
  reportBatch (p.diffAll records) sinks w

end

end CallDelta
