import CallDelta.Error

/-!
# Sinks

A sink takes the lines of a report one by one and is finished at the end. Each step may fail; it
leaves a new sink and a new world, whatever the sink writes to. `emit` stops at the first failure. A
report that goes to several sinks is not stopped by one that fails.

What a sink does in a small world it also does in a larger one that has the small one as a part.
-/

namespace CallDelta

/-- What a step of a sink leaves behind. -/
structure SinkStep (ε σ ω : Type) where
  failure : Option ε
  sink : σ
  world : ω

/-- A destination of report lines in a world. -/
class ReportSink (σ ω : Type) where
  /-- The name in error messages. -/
  name : σ → String
  /-- Takes a line. The sink itself ends the line. -/
  writeLine : String → σ → ω → SinkStep IoError σ ω
  /-- Passes on whatever the sink still holds. -/
  finish : σ → ω → SinkStep IoError σ ω

/-! ## Sinks in a part of a world -/

/-- A part of a world, which can be looked at and replaced. -/
structure WorldPart (ω π : Type) where
  get : ω → π
  put : π → ω → ω
  get_put : ∀ part w, get (put part w) = part
  put_get : ∀ w, put (get w) w = w
  put_put : ∀ part part' w, put part (put part' w) = put part w

/-- A step in a part of a world, as a step in the world. -/
def SinkStep.within {ε σ τ ω π : Type} (make : σ → τ) (part : WorldPart ω π) (w : ω)
    (r : SinkStep ε σ π) : SinkStep ε τ ω :=
  { failure := r.failure, sink := make r.sink, world := part.put r.world w }

/-- The sinks of a part of a world, as sinks of the world. -/
@[reducible] def ReportSink.inPart {σ ω π : Type} [ReportSink σ π] (part : WorldPart ω π) :
    ReportSink σ ω where
  name := ReportSink.name π
  writeLine line s w := (ReportSink.writeLine line s (part.get w)).within id part w
  finish s w := (ReportSink.finish s (part.get w)).within id part w

/-! ## Reports -/

variable {σ ω : Type} [ReportSink σ ω]

/-- A failed step blames the sink by its name. -/
def SinkStep.blame (r : SinkStep IoError σ ω) : SinkStep ReportError σ ω :=
  { r with failure := r.failure.map (.cannotWrite (ReportSink.name ω r.sink)) }

/-- Writes lines up to the first that fails. -/
def writeLines : List String → σ → ω → SinkStep IoError σ ω
  | [], s, w => { failure := none, sink := s, world := w }
  | line :: lines, s, w =>
    let r := ReportSink.writeLine line s w
    if r.failure.isSome then r else writeLines lines r.sink r.world

/-- Writes lines and finishes the sink if all went well. -/
def emit (lines : List String) (s : σ) (w : ω) : SinkStep ReportError σ ω :=
  let r := writeLines lines s w
  (if r.failure.isSome then r else ReportSink.finish r.sink r.world).blame

/-- What a pass over several sinks leaves behind. -/
structure SinkPass (σ ω : Type) where
  errors : List ReportError
  sinks : List σ
  world : ω

/-- Takes a step with each sink in turn. -/
def passOver {τ : Type} (step : τ → ω → SinkStep ReportError τ ω) : List τ → ω → SinkPass τ ω
  | [], w => { errors := [], sinks := [], world := w }
  | s :: sinks, w =>
    let r := step s w
    let rest := passOver step sinks r.world
    { errors := r.failure.toList ++ rest.errors, sinks := r.sink :: rest.sinks,
      world := rest.world }

/-- Writes a report to each sink. -/
def emitAll (lines : List String) (sinks : List σ) (w : ω) : SinkPass σ ω :=
  passOver (emit lines) sinks w

end CallDelta
