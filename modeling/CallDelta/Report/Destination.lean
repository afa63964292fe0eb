import CallDelta.Files.LogFile
import CallDelta.Report.Sink

/-!
# The destinations of a report

A report goes to memory, to the standard output or to a log file. The last two need a `Host`: a disk
and a standard output, which may have room for a number of bytes only.
-/

namespace CallDelta

/-- The standard output of a program. -/
structure Output where
  /-- What has been taken. -/
  bytes : ByteArray
  /-- The number of bytes that are still taken, if there is a bound. -/
  room : Option Nat
  /-- The refusal of what there is no room for. -/
  refusal : OsError := .noSpace

namespace Output

/-- An output that takes everything. -/
def fresh : Output := { bytes := .empty, room := none }

/-- Whether there is room for a text. -/
def takes (o : Output) (text : String) : Bool := o.room.all (text.utf8ByteSize ≤ ·)

/-- Prints a text. What there is room for is taken even if the text is refused. -/
def print (text : String) (o : Output) : Option OsError × Output :=
  let taken :=
    match o.room with
    | none => text.toUTF8
    | some n => text.toUTF8.extract 0 n
  (if o.takes text then none else some o.refusal,
    { o with bytes := o.bytes ++ taken, room := o.room.map (· - text.utf8ByteSize) })

end Output

/-- What a program runs on. -/
structure Host where
  disk : Disk
  output : Output

namespace Host

/-- The output of a host. -/
def outputPart : WorldPart Host Output where
  get w := w.output
  put output w := { w with output }
  get_put _ _ := rfl
  put_get _ := rfl
  put_put _ _ _ := rfl

/-- The disk of a host. -/
def diskPart : WorldPart Host Disk where
  get w := w.disk
  put disk w := { w with disk }
  get_put _ _ := rfl
  put_get _ := rfl
  put_put _ _ _ := rfl

end Host

/-- A sink that keeps its lines. -/
structure MemorySink where
  lines : List String := []
  deriving DecidableEq

namespace MemorySink

/-- The lines with line feeds between them. -/
def contents (s : MemorySink) : String := "\n".intercalate s.lines

instance (ω : Type) : ReportSink MemorySink ω where
  name _ := "memory"
  writeLine line s w := { failure := none, sink := { lines := s.lines ++ [line] }, world := w }
  finish s w := { failure := none, sink := s, world := w }

end MemorySink

/-- The sink that prints. -/
inductive ConsoleSink where
  | console

instance : ReportSink ConsoleSink Output where
  name _ := "console"
  writeLine line s o :=
    let r := o.print (line ++ "\n")
    { failure := r.1.map .os, sink := s, world := r.2 }
  finish s o := { failure := none, sink := s, world := o }

instance : ReportSink ConsoleSink Host := .inPart Host.outputPart

instance (δ : Type) [Storage δ] : ReportSink LogFile δ where
  name _ := "log"
  writeLine line f d :=
    let r := f.writeLine line d
    { failure := r.1.map .os, sink := r.2.1, world := r.2.2 }
  finish f d :=
    let r := f.flush d
    { failure := r.1.map .os, sink := r.2.1, world := r.2.2 }

instance : ReportSink LogFile Host := .inPart Host.diskPart

/-- A sink of any of the three kinds. -/
inductive Destination where
  | memory (sink : MemorySink)
  | console (sink : ConsoleSink)
  | log (file : LogFile)

namespace Destination

/-- A step of one kind of sink as a step of a destination. -/
def liftStep {σ : Type} (make : σ → Destination) (r : SinkStep IoError σ Host) :
    SinkStep IoError Destination Host :=
  { failure := r.failure, sink := make r.sink, world := r.world }

instance : ReportSink Destination Host where
  name
    | memory s => ReportSink.name Host s
    | console s => ReportSink.name Host s
    | log f => ReportSink.name Host f
  writeLine line
    | memory s, w => liftStep memory (ReportSink.writeLine line s w)
    | console s, w => liftStep console (ReportSink.writeLine line s w)
    | log f, w => liftStep log (ReportSink.writeLine line f w)
  finish
    | memory s, w => liftStep memory (ReportSink.finish s w)
    | console s, w => liftStep console (ReportSink.finish s w)
    | log f, w => liftStep log (ReportSink.finish f w)

/-- Opens a log file as a destination. -/
def openLog (path : String) (w : Host) : Except ReportError LogFile × Host :=
  match LogFile.openAt path w.disk with
  | (.ok f, disk) => (.ok f, { w with disk })
  | (.error e, disk) => (.error (.cannotOpen path (.os e)), { w with disk })

end Destination

end CallDelta
