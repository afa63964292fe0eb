import CallDelta.Batch
import CallDelta.Report.Script
import Mathlib.Data.List.Forall2
import Mathlib.Data.List.Perm.Basic

/-!
# Sinks do not disturb each other

A report may go to several sinks, and each of them may fail at any line or when it is finished.
Sinks here have no world but their own state, so that whatever reaches one through another would be
the doing of the program. Nothing does: a batch gives each sink the lines of all frames, as one
report would, up to the first that the sink refuses.

* `LiveSink.after`: a sink during a batch is the sink after the lines that it was given so far
* `runBatch_sinks`: a batch leaves a sink as one report with all its lines does
* `sinks_isolated`: each sink fares as it does alone, and the errors come in order
-/

namespace CallDelta

/-! ## Lines for one sink -/

section

variable {σ ω : Type} [ReportSink σ ω]

@[simp] theorem writeLines_nil (s : σ) (w : ω) :
    writeLines [] s w = { failure := none, sink := s, world := w } := rfl

/-- Lines are written in two parts, unless the first part fails. -/
theorem writeLines_append (before lines : List String) (s : σ) (w : ω) :
    writeLines (before ++ lines) s w =
      if (writeLines before s w).failure.isSome then writeLines before s w
      else writeLines lines (writeLines before s w).sink (writeLines before s w).world := by
  induction before generalizing s w with
  | nil => rfl
  | cons line before ih =>
    simp only [List.cons_append, writeLines]
    by_cases hfailed : (ReportSink.writeLine line s w).failure.isSome = true
    · simp [hfailed]
    · simp [hfailed, ih]

@[simp] theorem SinkStep.sink_blame (r : SinkStep IoError σ ω) : r.blame.sink = r.sink := rfl

@[simp] theorem SinkStep.isSome_failure_blame (r : SinkStep IoError σ ω) :
    r.blame.failure.isSome = r.failure.isSome := by
  simp [SinkStep.blame]

end

/-! ## Calls on a sink -/

/-- A call on a sink. -/
inductive SinkCall where
  | writeLine (line : String)
  | finish
  deriving DecidableEq

/-- A sink with the calls that have been made on it. -/
structure WatchedSink (σ : Type) where
  sink : σ
  calls : List SinkCall := []

section

variable {σ ω : Type} [ReportSink σ ω]

/-- A step of a sink as a step of the watched sink. -/
def WatchedSink.noting (s : WatchedSink σ) (call : SinkCall) (r : SinkStep IoError σ ω) :
    SinkStep IoError (WatchedSink σ) ω :=
  { failure := r.failure, sink := { sink := r.sink, calls := s.calls ++ [call] }, world := r.world }

instance : ReportSink (WatchedSink σ) ω where
  name s := ReportSink.name ω s.sink
  writeLine line s w := s.noting (.writeLine line) (ReportSink.writeLine line s.sink w)
  finish s w := s.noting .finish (ReportSink.finish s.sink w)

/-- The lines that a sink is given out of a list. Writing stops at the first that it refuses. -/
def offered : List String → σ → ω → List String
  | [], _, _ => []
  | line :: lines, s, w =>
    let r := ReportSink.writeLine line s w
    line :: if r.failure.isSome then [] else offered lines r.sink r.world

/-- Watching a sink changes nothing. -/
theorem writeLines_watched (lines : List String) (s : σ) (calls : List SinkCall) (w : ω) :
    writeLines lines ({ sink := s, calls } : WatchedSink σ) w =
      { failure := (writeLines lines s w).failure
        sink := { sink := (writeLines lines s w).sink
                  calls := calls ++ (offered lines s w).map .writeLine }
        world := (writeLines lines s w).world } := by
  induction lines generalizing s calls w with
  | nil => simp [offered]
  | cons line lines ih =>
    simp only [writeLines, offered, ReportSink.writeLine, WatchedSink.noting]
    by_cases hfailed : (ReportSink.writeLine line s w).failure.isSome = true
    · simp [hfailed]
    · simp [hfailed, ih]

theorem offered_of_taken {lines : List String} {s : σ} {w : ω}
    (h : (writeLines lines s w).failure = none) : offered lines s w = lines := by
  induction lines generalizing s w with
  | nil => rfl
  | cons line lines ih =>
    rw [writeLines] at h
    simp only [offered]
    split at h
    · next hfailed => simp [h] at hfailed
    · next hfailed => rw [if_neg hfailed, ih h]

theorem offered_of_refused {lines : List String} {s : σ} {w : ω}
    (h : (writeLines lines s w).failure.isSome = true) :
    ∃ before line rest, lines = before ++ line :: rest ∧ offered lines s w = before ++ [line] ∧
      (writeLines before s w).failure = none ∧
      (ReportSink.writeLine line (writeLines before s w).sink
        (writeLines before s w).world).failure.isSome = true := by
  induction lines generalizing s w with
  | nil => simp at h
  | cons line lines ih =>
    rw [writeLines] at h
    simp only [offered]
    split at h
    · next hfailed => exact ⟨[], line, lines, rfl, by rw [if_pos hfailed]; rfl, rfl, hfailed⟩
    · next hfailed =>
      obtain ⟨before, last, rest, rfl, hoffered, htaken, hrefused⟩ := ih h
      refine ⟨line :: before, last, rest, rfl, by rw [if_neg hfailed, hoffered]; rfl, ?_, ?_⟩
      · rw [writeLines, if_neg hfailed]
        exact htaken
      · rw [writeLines, if_neg hfailed]
        exact hrefused

end

/-! ## Sinks with a state of their own -/

variable {σ : Type} [ReportSink σ Unit]

/-- The calls that a sink gets with a list of lines: up to the first line that it refuses, or all
lines and one call that finishes it. -/
inductive Receives (s : σ) : List String → List SinkCall → Prop
  | all {lines : List String} (taken : (writeLines lines s ()).failure = none) :
    Receives s lines (lines.map .writeLine ++ [.finish])
  | upTo {before : List String} {line : String} {rest : List String}
    (taken : (writeLines before s ()).failure = none)
    (refused : (ReportSink.writeLine line (writeLines before s ()).sink ()).failure.isSome = true) :
    Receives s (before ++ line :: rest) ((before ++ [line]).map .writeLine)

theorem receives_watched (lines : List String) (s : σ) :
    (emit lines ({ sink := s } : WatchedSink σ) ()).sink.sink = (emit lines s ()).sink ∧
      Receives s lines (emit lines ({ sink := s } : WatchedSink σ) ()).sink.calls := by
  rw [emit, emit, writeLines_watched]
  dsimp only
  split
  case isTrue hfailed =>
    obtain ⟨before, line, rest, rfl, hoffered, htaken, hrefused⟩ := offered_of_refused hfailed
    refine ⟨rfl, ?_⟩
    rw [hoffered]
    exact .upTo htaken hrefused
  case isFalse hfailed =>
    have htaken : (writeLines lines s ()).failure = none := by simpa using hfailed
    refine ⟨rfl, ?_⟩
    rw [offered_of_taken htaken]
    exact .all htaken

/-- The error of a sink that takes some lines and refuses one of those that follow. -/
def refusal? (before lines : List String) (s : σ) : Option ReportError :=
  if (writeLines before s ()).failure.isSome then none
  else (writeLines lines (writeLines before s ()).sink ()).blame.failure

/-- The error of a sink that takes all lines and cannot be finished. -/
def finishError? (lines : List String) (s : σ) : Option ReportError :=
  if (writeLines lines s ()).failure.isSome then none
  else (ReportSink.finish (writeLines lines s ()).sink ()).blame.failure

section

variable {τ : Type} (step : τ → Unit → SinkStep ReportError τ Unit)

theorem passOver_sinks (sinks : List τ) :
    (passOver step sinks ()).sinks = sinks.map (fun s => (step s ()).sink) := by
  induction sinks with
  | nil => rfl
  | cons s sinks ih => rw [passOver, List.map_cons, ← ih]

theorem passOver_errors (sinks : List τ) :
    (passOver step sinks ()).errors = sinks.filterMap (fun s => (step s ()).failure) := by
  induction sinks with
  | nil => rfl
  | cons s sinks ih =>
    rw [passOver, List.filterMap_cons, ← ih]
    cases (step s ()).failure <;> rfl

end

/-! ## Sinks during a batch -/

namespace LiveSink

/-- The sink that was given some lines during a batch. -/
def after (lines : List String) (s : σ) : LiveSink σ :=
  { sink := (writeLines lines s ()).sink, alive := (writeLines lines s ()).failure.isNone }

/-- **Writing a frame** goes on where the lines before it ended. -/
theorem write_after (before lines : List String) (s : σ) :
    (after before s).write lines () =
      { failure := refusal? before lines s, sink := after (before ++ lines) s, world := () } := by
  simp only [after, writeLines_append, refusal?, write]
  rcases Option.eq_none_or_eq_some (writeLines before s ()).failure with h | ⟨e, h⟩
  · simp [h, SinkStep.blame]
  · simp [h]

theorem finish_after (lines : List String) (s : σ) :
    ((after lines s).finish ()).failure = finishError? lines s ∧
      ((after lines s).finish ()).sink.sink = (emit lines s ()).sink := by
  simp only [after, finishError?, finish, emit]
  rcases Option.eq_none_or_eq_some (writeLines lines s ()).failure with h | ⟨e, h⟩
  · simp [h]
  · simp [h]

end LiveSink

/-- **Writing frames** leaves each sink after all their lines, and an error for each refusal, by
frame and then by sink. -/
theorem writeFrames_after (before : List String) (frames : List (List String)) (sinks : List σ) :
    (writeFrames frames (sinks.map (LiveSink.after before)) ()).sinks =
        sinks.map (LiveSink.after (before ++ frames.flatten)) ∧
      (writeFrames frames (sinks.map (LiveSink.after before)) ()).errors =
        (List.range frames.length).flatMap (fun k =>
          sinks.filterMap (refusal? (before ++ (frames.take k).flatten) (frames[k]?.getD []))) := by
  induction frames generalizing before with
  | nil => simp [writeFrames]
  | cons frame frames ih =>
    have hsinks : (passOver (LiveSink.write frame) (sinks.map (LiveSink.after before)) ()).sinks =
        sinks.map (LiveSink.after (before ++ frame)) := by
      rw [passOver_sinks, List.map_map]
      exact List.map_congr_left fun s _ => by rw [Function.comp, LiveSink.write_after]
    have herrors : (passOver (LiveSink.write frame) (sinks.map (LiveSink.after before)) ()).errors =
        sinks.filterMap (refusal? before frame) := by
      rw [passOver_errors, List.filterMap_map]
      exact List.filterMap_congr fun s _ => by rw [Function.comp, LiveSink.write_after]
    obtain ⟨ihsinks, iherrors⟩ := ih (before ++ frame)
    rw [writeFrames, hsinks, herrors]
    constructor
    · rw [ihsinks, List.flatten_cons, List.append_assoc]
    · rw [iherrors, List.length_cons, List.range_succ_eq_map, List.flatMap_cons, List.flatMap_map]
      simp [List.append_assoc]

/-- A sink refuses a line in the first part of them or in the second. -/
theorem toList_refusal?_append (before lines more : List String) (s : σ) :
    (refusal? before (lines ++ more) s).toList =
      (refusal? before lines s).toList ++ (refusal? (before ++ lines) more s).toList := by
  simp only [refusal?, writeLines_append]
  rcases Option.eq_none_or_eq_some (writeLines before s ()).failure with h | ⟨e, h⟩
  · rcases Option.eq_none_or_eq_some (writeLines lines (writeLines before s ()).sink ()).failure
      with h' | ⟨e', h'⟩
    · simp [h, h', SinkStep.blame]
    · simp [h, h', SinkStep.blame]
  · simp [h]

/-- Of a list of frames a sink refuses at most one, since after that it gets no more. -/
theorem flatMap_refusal? (before : List String) (frames : List (List String)) (s : σ) :
    (List.range frames.length).flatMap (fun k =>
        (refusal? (before ++ (frames.take k).flatten) (frames[k]?.getD []) s).toList) =
      (refusal? before frames.flatten s).toList := by
  induction frames generalizing before with
  | nil => simp [refusal?, SinkStep.blame]
  | cons frame frames ih =>
    rw [List.length_cons, List.range_succ_eq_map, List.flatMap_cons, List.flatMap_map,
      List.flatten_cons, toList_refusal?_append, ← ih (before ++ frame)]
    simp [List.append_assoc]

/-- A report to one sink fails with the first line that is refused, or else when the sink is
finished. -/
theorem toList_failure_emit (lines : List String) (s : σ) :
    (emit lines s ()).failure.toList =
      (refusal? [] lines s).toList ++ (finishError? lines s).toList := by
  simp only [emit, refusal?, finishError?, writeLines_nil]
  rcases Option.eq_none_or_eq_some (writeLines lines s ()).failure with h | ⟨e, h⟩
  · simp [h, SinkStep.blame]
  · simp [h, SinkStep.blame]

/-! ## A batch -/

/-- The lines for a record: the frame of its report, or nothing if there is no diff. -/
def Pipeline.frame (p : Pipeline) (r : DiffRecord) : List String :=
  (BatchItem.frame? { record := r, outcome := p.diff r.before r.after }).getD []

section

variable {σ ω : Type} [ReportSink σ ω]

/-- A record without a frame is a record with a frame of no lines. -/
theorem writeFrames_filterMap {ι : Type} (frame? : ι → Option (List String)) (items : List ι)
    (sinks : List (LiveSink σ)) (w : ω) :
    writeFrames (items.filterMap frame?) sinks w =
      writeFrames (items.map (fun item => (frame? item).getD [])) sinks w := by
  have hpass (sinks : List (LiveSink σ)) (w : ω) :
      passOver (LiveSink.write []) sinks w = { errors := [], sinks, world := w } := by
    induction sinks with
    | nil => rfl
    | cons s sinks ih =>
      have hwrite : s.write [] w = { failure := none, sink := s, world := w } := by
        obtain ⟨sink, alive⟩ := s
        cases alive <;> rfl
      rw [passOver, hwrite, ih]
      rfl
  induction items generalizing sinks w with
  | nil => rfl
  | cons item items ih =>
    rw [List.map_cons, List.filterMap_cons]
    cases frame? item with
    | none =>
      rw [Option.getD_none, writeFrames, hpass, ← ih]
      rfl
    | some frame => rw [Option.getD_some, writeFrames, writeFrames, ih]

theorem writeFrames_diffAll (p : Pipeline) (records : List DiffRecord) (sinks : List (LiveSink σ))
    (w : ω) :
    writeFrames ((p.diffAll records).filterMap (·.frame?)) sinks w =
      writeFrames (records.map p.frame) sinks w := by
  rw [writeFrames_filterMap, Pipeline.diffAll, List.map_map]
  rfl

end

/-- The frames of a batch are those of its records. -/
theorem flatten_frames (p : Pipeline) (records : List DiffRecord) :
    ((p.diffAll records).filterMap (·.frame?)).flatten = records.flatMap p.frame := by
  induction records with
  | nil => rfl
  | cons r records ih =>
    rw [List.flatMap_cons, ← ih, Pipeline.diffAll, List.map_cons, List.filterMap_cons,
      Pipeline.frame]
    cases BatchItem.frame? { record := r, outcome := p.diff r.before r.after } with
    | none => rfl
    | some frame => rfl

/-- **A batch leaves a sink as one report with the lines of all frames does.** -/
theorem runBatch_sinks (p : Pipeline) (records : List DiffRecord) (sinks : List σ) :
    (p.runBatch records sinks ()).sinks =
      sinks.map (fun s => (emit (records.flatMap p.frame) s ()).sink) := by
  have hwritten := (writeFrames_after [] (records.map p.frame) sinks).1
  rw [List.nil_append, ← List.flatMap_def] at hwritten
  show ((passOver LiveSink.finish (writeFrames ((p.diffAll records).filterMap (·.frame?))
    (sinks.map (LiveSink.after [])) ()).sinks ()).sinks.map (·.sink)) = _
  rw [writeFrames_diffAll, hwritten, passOver_sinks, List.map_map, List.map_map]
  exact List.map_congr_left fun s _ => (LiveSink.finish_after _ s).2

/-- **The errors of a batch**: refusals by record and then by sink, and after them sinks that could
not be finished. -/
theorem runBatch_errors (p : Pipeline) (records : List DiffRecord) (sinks : List σ) :
    (p.runBatch records sinks ()).errors =
      (List.range records.length).flatMap (fun k => sinks.filterMap
        (refusal? ((records.take k).flatMap p.frame) ((records[k]?.map p.frame).getD []))) ++
      sinks.filterMap (finishError? (records.flatMap p.frame)) := by
  obtain ⟨hsinks, herrors⟩ := writeFrames_after [] (records.map p.frame) sinks
  rw [List.nil_append, ← List.flatMap_def] at hsinks
  show (writeFrames ((p.diffAll records).filterMap (·.frame?))
      (sinks.map (LiveSink.after [])) ()).errors ++
    (passOver LiveSink.finish (writeFrames ((p.diffAll records).filterMap (·.frame?))
      (sinks.map (LiveSink.after [])) ()).sinks ()).errors = _
  rw [writeFrames_diffAll, hsinks, herrors, passOver_errors, List.filterMap_map]
  congr 1
  · simp [← List.map_take, List.flatMap_def]
  · exact List.filterMap_congr fun s _ => (LiveSink.finish_after _ s).1

/-- A sink alone has the error of one report with the lines of all frames. -/
theorem runBatch_errors_singleton (p : Pipeline) (records : List DiffRecord) (s : σ) :
    (p.runBatch records [s] ()).errors = (emit (records.flatMap p.frame) s ()).failure.toList := by
  have hrefusals := flatMap_refusal? [] (records.map p.frame) s
  simp only [List.length_map, List.nil_append, ← List.map_take, ← List.flatMap_def,
    List.getElem?_map] at hrefusals
  rw [runBatch_errors, toList_failure_emit, ← hrefusals]
  simp only [List.filterMap_eq_flatMap_toList, List.flatMap_singleton]

theorem flatMap_flatMap_perm {α β γ : Type} (as : List α) (bs : List β) (f : α → β → List γ) :
    (as.flatMap (fun a => bs.flatMap (f a))).Perm
      (bs.flatMap (fun b => as.flatMap (fun a => f a b))) := by
  induction bs with
  | nil => simp
  | cons b bs ih =>
    simp only [List.flatMap_cons]
    exact (List.flatMap_append_perm as _ _).symm.trans (ih.append_left _)

/-- A batch has the errors that its sinks have alone. -/
theorem runBatch_errors_perm (p : Pipeline) (records : List DiffRecord) (sinks : List σ) :
    (p.runBatch records sinks ()).errors.Perm
      (sinks.flatMap (fun s => (p.runBatch records [s] ()).errors)) := by
  simp only [runBatch_errors, List.filterMap_eq_flatMap_toList, List.flatMap_singleton]
  exact ((flatMap_flatMap_perm _ sinks _).append_right _).trans (List.flatMap_append_perm sinks _ _)

/-- What it means that the sinks of a batch do not disturb each other. -/
structure BatchIsolation (p : Pipeline) (records : List DiffRecord) (sinks : List σ) : Prop where
  /-- Each sink is left as by a batch with this sink alone. -/
  sinks_alone : List.Forall₂ (fun s left => (p.runBatch records [s] ()).sinks = [left]) sinks
    (p.runBatch records sinks ()).sinks
  /-- The calls on each sink, seen by watching, which does not change what becomes of it. -/
  calls : List.Forall₂
    (fun s watched => (p.runBatch records [s] ()).sinks = [watched.sink] ∧
      Receives s (records.flatMap p.frame) watched.calls)
    sinks (p.runBatch records (sinks.map (fun sink => ({ sink } : WatchedSink σ))) ()).sinks
  /-- Each sink has at most one error alone, and these are the errors of the batch. -/
  one_error : ∀ s ∈ sinks, (p.runBatch records [s] ()).errors.length ≤ 1
  errors_alone : (p.runBatch records sinks ()).errors.Perm
    (sinks.flatMap (fun s => (p.runBatch records [s] ()).errors))
  /-- Refusals come first, by record and then by sink, and after them the sinks that could not be
  finished. -/
  errors_order : (p.runBatch records sinks ()).errors =
    (List.range records.length).flatMap (fun k => sinks.filterMap
      (refusal? ((records.take k).flatMap p.frame) ((records[k]?.map p.frame).getD []))) ++
    sinks.filterMap (finishError? (records.flatMap p.frame))
  /-- Other sinks make no difference to the summary. -/
  summary_alone : ∀ {τ : Type} [ReportSink τ Unit] (others : List τ),
    (p.runBatch records sinks ()).summary = (p.runBatch records others ()).summary

/-- The error that a report to one sink gives, if it gives one. -/
def reportError? (trees : TreePair) (script : EditScript) (s : σ) : Option ReportError :=
  match (script.report trees s ()).1 with
  | .ok _ => none
  | .error e => some e

/-- What it means that the sinks of a report do not disturb each other. -/
structure ReportIsolation (trees : TreePair) (script : EditScript) (sinks : List σ) : Prop where
  /-- Each sink is left as by a report to this sink alone. -/
  sinks_alone : (script.reportAll trees sinks ()).2.sinks =
    sinks.map (fun s => (script.report trees s ()).2.1)
  /-- The errors are those of the reports to one sink each. -/
  errors_alone :
    (script.reportAll trees sinks ()).2.errors = sinks.filterMap (reportError? trees script)

theorem batchIsolation (p : Pipeline) (records : List DiffRecord) (sinks : List σ) :
    BatchIsolation p records sinks where
  sinks_alone := by
    rw [runBatch_sinks, List.forall₂_map_right_iff]
    exact List.forall₂_same.mpr fun s _ => runBatch_sinks p records [s]
  calls := by
    rw [runBatch_sinks, List.map_map, List.forall₂_map_right_iff]
    refine List.forall₂_same.mpr fun s _ => ?_
    obtain ⟨hsink, hcalls⟩ := receives_watched (records.flatMap p.frame) s
    refine ⟨?_, hcalls⟩
    rw [runBatch_sinks, List.map_singleton]
    exact congrArg (fun left => [left]) hsink.symm
  one_error s _ := by
    rw [runBatch_errors_singleton]
    cases (emit (records.flatMap p.frame) s ()).failure <;> simp
  errors_alone := runBatch_errors_perm p records sinks
  errors_order := runBatch_errors p records sinks
  summary_alone _ := rfl

theorem reportIsolation (trees : TreePair) (script : EditScript) (sinks : List σ) :
    ReportIsolation trees script sinks where
  sinks_alone := passOver_sinks _ sinks
  errors_alone := by
    refine (passOver_errors _ sinks).trans (List.filterMap_congr fun s _ => ?_)
    rw [reportError?, EditScript.report]
    cases (emit (script.reportLines trees) s ()).failure <;> rfl

/-- **Sinks that have a state of their own do not disturb each other.** In a batch and in a report
each fares as it does alone, whatever the others refuse. -/
theorem sinks_isolated (p : Pipeline) (records : List DiffRecord) (trees : TreePair)
    (script : EditScript)
    (sinks : List σ) : BatchIsolation p records sinks ∧ ReportIsolation trees script sinks :=
  ⟨batchIsolation p records sinks, reportIsolation trees script sinks⟩

end CallDelta
