import CallDelta.CommandLine.Run
import CallDelta.Proofs.RenamedCallees
import CallDelta.Proofs.SharedWorld
import CallDelta.Proofs.TextLines

/-!
# Broken logs

A run prints its report and keeps it in a log. Whatever becomes of the log, the report is printed:
what the standard output has at the end does not depend on the log at all. The run tells of the
sinks that failed, each by an entry in the text of its error. Only if the standard output has no
room for what is printed beside the report, the run breaks off and tells of nothing.

* `RunSinks`: the sinks of a run, with a log of any kind
* `SinkFamily.output_endDiff`, `SinkFamily.output_endBatch`: what is printed
* `SinkFamily.reports_endDiff_iff`, `SinkFamily.reports_endBatch`: what is told of the sinks
* `console_spared_by_log`: all of this for the runs of the program
-/

namespace CallDelta

/-! ## Printing -/

namespace Output

/-- The output after a text has been printed, as far as there was room. -/
def showing (o : Output) (text : String) : Output := (o.print text).2

theorem print_eq (o : Output) (text : String) :
    o.print text = (if o.takes text then none else some o.refusal, o.showing text) := rfl

@[simp] theorem refusal_showing (o : Output) (text : String) :
    (o.showing text).refusal = o.refusal := rfl

theorem room_showing (o : Output) (text : String) :
    (o.showing text).room = o.room.map (· - text.utf8ByteSize) := rfl

@[simp] theorem showing_empty (o : Output) : o.showing "" = o := by
  obtain ⟨bytes, room, refusal⟩ := o
  have hnothing (n : Nat) : ByteArray.empty.extract 0 n = .empty := ByteArray.ext (by simp)
  cases room <;> simp [showing, print, hnothing]

/-- The room for a text is what is left for its parts, one behind the other. -/
theorem showing_append (o : Output) (text more : String) :
    (o.showing text).showing more = o.showing (text ++ more) := by
  obtain ⟨bytes, room, refusal⟩ := o
  cases room with
  | none => simp [showing, print, ByteArray.append_assoc]
  | some n =>
    have htaken : (text ++ more).toUTF8.extract 0 n =
        text.toUTF8.extract 0 n ++ more.toUTF8.extract 0 (n - text.utf8ByteSize) := by
      rw [String.toUTF8, String.toByteArray_append, ByteArray.extract_append,
        String.size_toByteArray, Nat.zero_sub]
      rfl
    simp only [showing, print, Option.map_some, htaken, ByteArray.append_assoc,
      String.utf8ByteSize_append, Nat.sub_sub]

theorem takes_append (o : Output) (text more : String) :
    o.takes (text ++ more) = (o.takes text && (o.showing text).takes more) := by
  unfold takes
  rw [room_showing, String.utf8ByteSize_append]
  cases o.room with
  | none => rfl
  | some n =>
    simp only [Option.all_some, Option.map_some, ← Bool.decide_and]
    exact decide_eq_decide.mpr (by omega)

/-- Behind a text that was refused there is room for the empty text only. -/
theorem takes_showing_iff (o : Output) (text more : String) :
    (o.showing text).takes more = true ↔ more = "" ∨ o.takes (text ++ more) = true := by
  unfold takes
  rw [room_showing, String.utf8ByteSize_append, ← String.utf8ByteSize_eq_zero_iff]
  cases o.room with
  | none => simp
  | some n =>
    simp only [Option.all_some, Option.map_some, decide_eq_true_eq]
    omega

/-- Nothing is taken behind a text that was refused. -/
theorem showing_of_refused {o : Output} {text : String} (h : o.takes text = false) (more : String) :
    (o.showing text).showing more = o.showing text := by
  obtain ⟨bytes, room, refusal⟩ := o
  cases room with
  | none => cases h
  | some n =>
    simp only [takes, Option.all_some, decide_eq_false_iff_not] at h
    simp [showing, print, Nat.sub_eq_zero_of_le (Nat.le_of_not_le h)]

end Output

namespace ConsoleSink

theorem writeLines_eq (lines : List String) (s : ConsoleSink) (o : Output) :
    writeLines lines s o =
      { failure := if o.takes (linesText lines) then none else some (.os o.refusal)
        sink := s
        world := o.showing (linesText lines) } := by
  induction lines generalizing o with
  | nil =>
    have hempty : o.takes "" = true := by
      unfold Output.takes
      cases o.room <;> simp
    simp [linesText, String.join, hempty]
  | cons line lines ih =>
    have hline : ReportSink.writeLine line s o =
        { failure := (if o.takes (line ++ "\n") then none else some o.refusal).map .os
          sink := s
          world := o.showing (line ++ "\n") } := rfl
    rw [writeLines, hline, linesText_cons, o.takes_append (line ++ "\n"),
      ← o.showing_append (line ++ "\n")]
    cases htakes : o.takes (line ++ "\n") with
    | true => simp [ih]
    | false => simp [Output.showing_of_refused htakes]

/-- **The console prints what there is room for, and fails if that is not all.** -/
theorem emit_eq (lines : List String) (s : ConsoleSink) (o : Output) :
    emit lines s o =
      { failure :=
          if o.takes (linesText lines) then none else some (.cannotWrite "console" (.os o.refusal))
        sink := s
        world := o.showing (linesText lines) } := by
  unfold emit
  rw [writeLines_eq]
  cases o.takes (linesText lines) with
  | true => rfl
  | false => rfl

end ConsoleSink

/-! ## The sinks of a run -/

namespace Host

theorem outputPart_disjoint : outputPart.Disjoint diskPart where
  get_left _ _ := rfl
  get_right _ _ := rfl
  comm _ _ _ := rfl

end Host

/-- The sinks of a run: whether it prints its report, and its log, if it keeps one. A log that could
not be opened is an error. -/
structure RunSinks (σ : Type) where
  console : Bool
  log : Option (Except ReportError σ)

namespace RunSinks

variable {σ : Type} (sinks : RunSinks σ)

/-- What went wrong while the sinks were opened. -/
def refusals : List ReportError :=
  match sinks.log with
  | some (.error e) => [e]
  | _ => []

def console? : Option ConsoleSink := if sinks.console then some .console else none

def log? : Option σ := sinks.log.bind Except.toOption

/-- What is printed of a report. -/
def shown (lines : List String) : String := if sinks.console then linesText lines else ""

/-- The errors of the sinks, each as if there were no other. -/
def failed [ReportSink σ Disk] (lines : List String) (host : Host) : List ReportError :=
  sinks.refusals ++ ((failureOf lines sinks.console? host.output).toList ++
    (failureOf lines sinks.log? host.disk).toList)

theorem worldAfter_console (lines : List String) (o : Output) :
    worldAfter lines sinks.console? o = o.showing (sinks.shown lines) := by
  unfold console? shown
  cases sinks.console with
  | false => simp [worldAfter]
  | true => exact congrArg SinkStep.world (ConsoleSink.emit_eq lines .console o)

end RunSinks

/-- Sinks of a run that are taken for sinks of one type. -/
structure SinkFamily (τ σ : Type) [ReportSink τ Host] [ReportSink σ Disk] where
  console : SinkPlace ConsoleSink τ Host.outputPart
  log : SinkPlace σ τ Host.diskPart
  /-- What is done with the sinks at the end. -/
  close : List τ → Host → Host
  output_close : ∀ sinks host, (close sinks host).output = host.output

/-! ## What is told of the sinks -/

/-- The text of an error with its entries. -/
def sinkErrorText (entries : List String) : String :=
  toString entries.length ++ " report sink(s) failed: " ++ "; ".intercalate entries

/-- The error of a message, if it is one. -/
def Message.errorText? : Message → Option String
  | summary _ => none
  | failure f => some f.text

/-- The texts of the errors that a run ends with. -/
def RunResult.errorTexts (run : RunResult) : List String :=
  run.messages.filterMap Message.errorText?

/-- A run that fails exactly if sinks failed, and has an entry for each of them in the text of its
error. -/
structure RunResult.Reports (run : RunResult) (failed : List ReportError) : Prop where
  status : run.status ≠ 0 ↔ failed ≠ []
  no_error : failed = [] → run.errorTexts = []
  entries : failed ≠ [] → ∃ entries, entries.Perm (failed.map ReportError.message) ∧
    run.errorTexts = [sinkErrorText entries]

theorem Failure.statusOf_ne_zero (text : String) : statusOf text ≠ 0 := by
  unfold statusOf
  dsimp only
  split
  · decide
  split
  · decide
  split
  · decide
  split
  · decide
  · decide

theorem Failure.exitStatus_ne_zero (f : Failure) : f.exitStatus ≠ 0 := statusOf_ne_zero f.text

theorem Failure.text_sinks (errors : List ReportError) :
    (Failure.sinks errors).text = sinkErrorText (errors.map ReportError.message) := by
  simp [text, layers, sinkErrorText]

theorem RunResult.ofFailure?_sinkFailure?_cons (e : ReportError) (errors : List ReportError)
    (messages : List Message) (host : Host) :
    ofFailure? (sinkFailure? (e :: errors)) messages host =
      { status := (Failure.sinks (e :: errors)).exitStatus
        messages := messages ++ [.failure (.sinks (e :: errors))]
        host } := rfl

theorem RunResult.reports_ofFailure? {errors failed : List ReportError} {messages : List Message}
    (hperm : errors.Perm failed) (hmessages : ∀ m ∈ messages, m.errorText? = none) (host : Host) :
    (RunResult.ofFailure? (sinkFailure? errors) messages host).Reports failed := by
  have hnone : messages.filterMap Message.errorText? = [] := List.filterMap_eq_nil_iff.mpr hmessages
  cases errors with
  | nil =>
    obtain rfl : failed = [] := hperm.symm.eq_nil
    exact ⟨by simp [sinkFailure?, ofFailure?], fun _ => hnone, fun h => absurd rfl h⟩
  | cons e errors =>
    have hfailed : failed ≠ [] := fun h => by simpa [h] using hperm.length_eq
    rw [ofFailure?_sinkFailure?_cons]
    refine ⟨iff_of_true ?_ hfailed, fun h => absurd h hfailed, fun _ => ?_⟩
    · dsimp only
      exact Failure.exitStatus_ne_zero _
    refine ⟨(e :: errors).map ReportError.message, hperm.map _, ?_⟩
    rw [← Failure.text_sinks]
    simp only [errorTexts, List.filterMap_append, hnone, List.nil_append]
    rfl

/-! ## The end of a run -/

theorem RunResult.host_ofFailure? (failure : Option Failure) (messages : List Message)
    (host : Host) : (ofFailure? failure messages host).host = host := by
  cases failure with
  | none => rfl
  | some f => rfl

theorem finishPrinting_of_takes {text : String} {host : Host} (h : host.output.takes text = true)
    (failure : Option Failure) :
    finishPrinting text failure host =
      .ofFailure? failure [] { host with output := host.output.showing text } := by
  unfold finishPrinting
  rw [Output.print_eq, h]
  rfl

theorem finishPrinting_of_refused {text : String} {host : Host} (h : host.output.takes text = false)
    (failure : Option Failure) :
    finishPrinting text failure host =
      { status := RunResult.brokenOff
        messages := []
        host := { host with output := host.output.showing text } } := by
  unfold finishPrinting
  rw [Output.print_eq, h]
  rfl

theorem output_finishPrinting (text : String) (failure : Option Failure) (host : Host) :
    (finishPrinting text failure host).host.output = host.output.showing text := by
  cases h : host.output.takes text with
  | true => rw [finishPrinting_of_takes h, RunResult.host_ofFailure?]
  | false => rw [finishPrinting_of_refused h]

namespace SinkFamily

variable {τ σ : Type} [ReportSink τ Host] [ReportSink σ Disk] (family : SinkFamily τ σ)
  (sinks : RunSinks σ) (lines : List String) (items : List BatchItem) (extra : String)
  (quiet : Bool) (host : Host)

/-- The sinks that are written to. -/
def list : List τ :=
  sinks.console?.toList.map family.console.make ++ sinks.log?.toList.map family.log.make

/-- The end of a diff, after its sinks are opened. -/
def endDiff : RunResult :=
  let pass := emitAll lines (family.list sinks) host
  finishPrinting extra (sinkFailure? (sinks.refusals ++ pass.errors))
    (family.close pass.sinks pass.world)

/-- The end of a batch, after its sinks are opened. -/
def endBatch : RunResult :=
  let r := reportBatch items (family.list sinks) host
  .ofFailure? (sinkFailure? (sinks.refusals ++ r.errors))
    (if quiet then [] else [.summary r.summary])
    (family.close r.sinks r.world)

/-- **A report reaches each sink as if there were no other.** -/
theorem emitAll_list :
    (sinks.refusals ++ (emitAll lines (family.list sinks) host).errors).Perm
        (sinks.failed lines host) ∧
      (emitAll lines (family.list sinks) host).world.output =
        host.output.showing (sinks.shown lines) := by
  obtain ⟨hconsole, houtput⟩ := emitAll_toList lines sinks.console? host.output
  obtain ⟨hlog, -⟩ := emitAll_toList lines sinks.log? host.disk
  unfold list
  rw [emitAll_places family.console family.log Host.outputPart_disjoint]
  constructor
  · refine List.Perm.append_left _ ?_
    rw [← hconsole, ← hlog]
    exact List.Perm.refl _
  · exact houtput.trans (sinks.worldAfter_console lines host.output)

/-- **A batch reaches each sink as if there were no other.** -/
theorem reportBatch_list :
    (sinks.refusals ++ (reportBatch items (family.list sinks) host).errors).Perm
        (sinks.failed (items.filterMap (·.frame?)).flatten host) ∧
      (reportBatch items (family.list sinks) host).world.output =
        host.output.showing (sinks.shown (items.filterMap (·.frame?)).flatten) := by
  obtain ⟨hconsole, houtput⟩ := reportBatch_toList items sinks.console? host.output
  obtain ⟨hlog, -⟩ := reportBatch_toList items sinks.log? host.disk
  obtain ⟨herrors, hworld⟩ := reportBatch_places family.console family.log Host.outputPart_disjoint
    items sinks.console?.toList sinks.log?.toList host
  constructor
  · refine (herrors.append_left _).trans (List.Perm.append_left _ ?_)
    rw [← hconsole, ← hlog]
    exact List.Perm.refl _
  · refine (congrArg Host.output hworld).trans (houtput.trans ?_)
    exact sinks.worldAfter_console _ host.output

/-- **What a diff prints does not depend on the log.** -/
theorem output_endDiff :
    (family.endDiff sinks lines extra host).host.output =
      host.output.showing (sinks.shown lines ++ extra) := by
  obtain ⟨-, houtput⟩ := family.emitAll_list sinks lines host
  unfold endDiff
  dsimp only
  rw [output_finishPrinting, family.output_close, houtput, Output.showing_append]

/-- **A diff tells of its sinks, unless there is no room for what is printed beside the report.** -/
theorem reports_endDiff_iff :
    (family.endDiff sinks lines extra host).Reports (sinks.failed lines host) ↔
      extra = "" ∨ host.output.takes (sinks.shown lines ++ extra) = true := by
  obtain ⟨hperm, houtput⟩ := family.emitAll_list sinks lines host
  rw [← Output.takes_showing_iff, ← houtput,
    ← family.output_close (emitAll lines (family.list sinks) host).sinks]
  unfold endDiff
  dsimp only
  cases htakes : (family.close (emitAll lines (family.list sinks) host).sinks
      (emitAll lines (family.list sinks) host).world).output.takes extra with
  | true =>
    rw [finishPrinting_of_takes htakes]
    exact iff_of_true (RunResult.reports_ofFailure? hperm (by simp) _) rfl
  | false =>
    -- nothing is told, though the status is that of a failure
    rw [finishPrinting_of_refused htakes]
    refine iff_of_false (fun hreports => ?_) Bool.false_ne_true
    have hfailed := hreports.status.mp (by simp [RunResult.brokenOff])
    obtain ⟨entries, -, htexts⟩ := hreports.entries hfailed
    simp [RunResult.errorTexts] at htexts

theorem output_endBatch :
    (family.endBatch sinks items quiet host).host.output =
      host.output.showing (sinks.shown (items.filterMap (·.frame?)).flatten) := by
  obtain ⟨-, houtput⟩ := family.reportBatch_list sinks items host
  unfold endBatch
  dsimp only
  rw [RunResult.host_ofFailure?, family.output_close, houtput]

theorem reports_endBatch :
    (family.endBatch sinks items quiet host).Reports
      (sinks.failed (items.filterMap (·.frame?)).flatten host) := by
  obtain ⟨hperm, -⟩ := family.reportBatch_list sinks items host
  refine RunResult.reports_ofFailure? hperm (fun m hm => ?_) _
  cases quiet with
  | true => cases hm
  | false =>
    cases List.mem_singleton.mp hm
    rfl

end SinkFamily

/-! ## Logs of any kind -/

/-- The console, or a log that can do to the disk whatever it likes and may fail at any time. -/
instance (σ : Type) [ReportSink σ Disk] : ReportSink (ConsoleSink ⊕ σ) Host where
  name
    | .inl c => ReportSink.name Output c
    | .inr s => ReportSink.name Disk s
  writeLine line
    | .inl c, w => (ReportSink.writeLine line c w.output).within .inl Host.outputPart w
    | .inr s, w => (ReportSink.writeLine line s w.disk).within .inr Host.diskPart w
  finish
    | .inl c, w => (ReportSink.finish c w.output).within .inl Host.outputPart w
    | .inr s, w => (ReportSink.finish s w.disk).within .inr Host.diskPart w

/-- The sinks of a run with a log of any kind. -/
def SinkFamily.ofLog (σ : Type) [ReportSink σ Disk] (close : List (ConsoleSink ⊕ σ) → Disk → Disk) :
    SinkFamily (ConsoleSink ⊕ σ) σ where
  console :=
    { make := .inl, name_make := fun _ => rfl, writeLine_make := fun _ _ _ => rfl
      finish_make := fun _ _ => rfl }
  log :=
    { make := .inr, name_make := fun _ => rfl, writeLine_make := fun _ _ _ => rfl
      finish_make := fun _ _ => rfl }
  close sinks host := { host with disk := close sinks host.disk }
  output_close _ _ := rfl

/-! ## The sinks of the program -/

theorem output_closeSinks (sinks : List Destination) (host : Host) :
    (closeSinks sinks host).output = host.output := by
  refine List.foldlRecOn (motive := fun w : Host => w.output = host.output) sinks _ rfl ?_
  intro w hw s _
  cases s with
  | memory _ => exact hw
  | console _ => exact hw
  | log _ => exact hw

/-- Consoles and log files as destinations. -/
def Destination.family : SinkFamily Destination LogFile where
  console :=
    { make := .console, name_make := fun _ => rfl, writeLine_make := fun _ _ _ => rfl
      finish_make := fun _ _ => rfl }
  log :=
    { make := .log, name_make := fun _ => rfl, writeLine_make := fun _ _ _ => rfl
      finish_make := fun _ _ => rfl }
  close := closeSinks
  output_close := output_closeSinks

/-- The sinks of a run as they are opened, and the host afterwards. -/
def RunSinks.opened (console : Bool) (path? : Option String) (host : Host) :
    RunSinks LogFile × Host :=
  match path? with
  | none => ({ console, log := none }, host)
  | some path =>
    ({ console, log := some (Destination.openLog path host).1 }, (Destination.openLog path host).2)

theorem RunSinks.console_opened (console : Bool) (path? : Option String) (host : Host) :
    (opened console path? host).1.console = console := by
  cases path? with
  | none => rfl
  | some path => rfl

/-- Opening a log prints nothing. -/
theorem RunSinks.output_opened (console : Bool) (path? : Option String) (host : Host) :
    (opened console path? host).2.output = host.output := by
  cases path? with
  | none => rfl
  | some path =>
    show (Destination.openLog path host).2.output = host.output
    unfold Destination.openLog
    split
    · rfl
    · rfl

theorem openSinks_eq (console : Bool) (path? : Option String) (host : Host) :
    openSinks console path? host =
      ((RunSinks.opened console path? host).1.refusals,
        Destination.family.list (RunSinks.opened console path? host).1,
        (RunSinks.opened console path? host).2) := by
  unfold openSinks RunSinks.opened
  cases path? with
  | none => cases console <;> rfl
  | some path =>
    dsimp only
    rcases Destination.openLog path host with ⟨_ | f, host'⟩
    · cases console <;> rfl
    · cases console <;> rfl

/-- The errors of the sinks of a run, each as if there were no other. -/
def failedSinks (console : Bool) (path? : Option String) (lines : List String) (host : Host) :
    List ReportError :=
  (RunSinks.opened console path? host).1.failed lines (RunSinks.opened console path? host).2

section Runs

variable {grammar : Grammar} {config : Option String} {host : Host} {settings : Settings}

theorem runDiff_eq {before after : String} {outcome : DiffOutcome}
    (h : prepareDiff grammar config before after host.disk = .ok (settings, outcome))
    (log : LogChoice) (format : OutputFormat) (showActions : Bool) :
    runDiff grammar config before after log format showActions host =
      let opened := RunSinks.opened (settings.console && format == .text) (log.path? settings) host
      Destination.family.endDiff opened.1 outcome.lines (outcome.extra format showActions)
        opened.2 := by
  rw [runDiff, h]
  dsimp only
  rw [openSinks_eq]
  rfl

theorem runBatch_eq {dataset : String} {records : List DiffRecord}
    (h : prepareBatch config dataset host.disk = .ok (settings, records)) (quiet : Bool)
    (log : LogChoice) :
    runBatch grammar config quiet dataset log host =
      let opened := RunSinks.opened settings.console (log.path? settings) host
      Destination.family.endBatch opened.1
        ((Pipeline.standard (Language.c.parse grammar) settings.matching).diffAll records) quiet
        opened.2 := by
  rw [runBatch, h]
  dsimp only
  rw [openSinks_eq]
  rfl

end Runs

/-- **A broken log does not silence the console.** What a run prints does not depend on its log, and
the run tells of the sinks that failed. A diff does so unless the output has no room for what is
printed beside the report. The same holds for logs of any kind, whatever they do and whenever they
fail. -/
theorem console_spared_by_log (grammar : Grammar) (config : Option String) (host : Host) :
    (∀ before after log format showActions settings outcome,
      prepareDiff grammar config before after host.disk = .ok (settings, outcome) →
      let run := runDiff grammar config before after log format showActions host
      let console := settings.console && format == .text
      let extra := outcome.extra format showActions
      run.host.output =
          host.output.showing ((if console then linesText outcome.lines else "") ++ extra) ∧
        (run.Reports (failedSinks console (log.path? settings) outcome.lines host) ↔
          extra = "" ∨
            host.output.takes
              ((if console then linesText outcome.lines else "") ++ extra) = true)) ∧
    (∀ quiet dataset log settings records,
      prepareBatch config dataset host.disk = .ok (settings, records) →
      let run := runBatch grammar config quiet dataset log host
      let lines :=
        records.flatMap (Pipeline.standard (Language.c.parse grammar) settings.matching).frame
      run.host.output = host.output.showing (if settings.console then linesText lines else "") ∧
        run.Reports (failedSinks settings.console (log.path? settings) lines host)) ∧
    ∀ (σ : Type) [ReportSink σ Disk] (close : List (ConsoleSink ⊕ σ) → Disk → Disk)
      (sinks : RunSinks σ) (lines : List String) (extra : String) (items : List BatchItem)
      (quiet : Bool),
      let diff := (SinkFamily.ofLog σ close).endDiff sinks lines extra host
      let batch := (SinkFamily.ofLog σ close).endBatch sinks items quiet host
      let frames := (items.filterMap (·.frame?)).flatten
      (diff.host.output =
          host.output.showing ((if sinks.console then linesText lines else "") ++ extra) ∧
        (diff.Reports (sinks.failed lines host) ↔
          extra = "" ∨
            host.output.takes ((if sinks.console then linesText lines else "") ++ extra) = true)) ∧
      batch.host.output = host.output.showing (if sinks.console then linesText frames else "") ∧
        batch.Reports (sinks.failed frames host) := by
  refine ⟨?_, ?_, ?_⟩
  · intro before after log format showActions settings outcome hprepared
    dsimp only
    rw [runDiff_eq hprepared]
    dsimp only
    rw [SinkFamily.output_endDiff, RunSinks.output_opened, RunSinks.shown, RunSinks.console_opened]
    refine ⟨rfl, ?_⟩
    rw [failedSinks, SinkFamily.reports_endDiff_iff, RunSinks.output_opened, RunSinks.shown,
      RunSinks.console_opened]
  · intro quiet dataset log settings records hprepared
    dsimp only
    rw [runBatch_eq hprepared, ← flatten_frames]
    dsimp only
    rw [SinkFamily.output_endBatch, RunSinks.output_opened, RunSinks.shown, RunSinks.console_opened]
    exact ⟨rfl, SinkFamily.reports_endBatch _ _ _ _ _⟩
  · intro σ _ close sinks lines extra items quiet
    let family := SinkFamily.ofLog σ close
    exact ⟨⟨family.output_endDiff sinks lines extra host,
      family.reports_endDiff_iff sinks lines extra host⟩,
      family.output_endBatch sinks items quiet host, family.reports_endBatch sinks items quiet host⟩

theorem exists_ok_of_any {ε α : Type} {x : Except ε α} {test : α → Bool}
    (h : x.toOption.any test = true) : ∃ a, x = .ok a ∧ test a = true := by
  cases x with
  | error e => cases h
  | ok a => exact ⟨a, rfl, h⟩

/-- A host with the files `foo(x);` and `bar(x);`, and a data set with the two. -/
def callHost (room : Option Nat) : Host where
  disk :=
    ((Disk.fresh.store "a.c" (.file "foo(x);".toUTF8)).store
      "b.c" (.file "bar(x);".toUTF8)).store
      "d.json" (.file ("[\x7b\"func_before_target\": \"foo(x);\", " ++
      "\"func_after_source\": \"bar(x);\"\x7d]").toUTF8)
  output := { bytes := .empty, room }

/-- A log on a full device is told of and spares the output, for a diff and for a batch. -/
theorem console_spared_by_full_log :
    let grammar : Grammar := fun _ => some callStatement
    let host := callHost none
    let pipeline (settings : Settings) :=
      Pipeline.standard (Language.c.parse grammar) settings.matching
    let refusal : ReportError := .cannotWrite "log" (.os .noSpace)
    (∃ settings outcome, prepareDiff grammar none "a.c" "b.c" host.disk = .ok (settings, outcome) ∧
      outcome.lines ≠ [] ∧
      let run := runDiff grammar none "a.c" "b.c" (.file "/dev/full") .text false host
      run.host.output.bytes = (linesText outcome.lines).toUTF8 ∧ run.Reports [refusal]) ∧
    ∃ settings records, prepareBatch none "d.json" host.disk = .ok (settings, records) ∧
      records ≠ [] ∧
      let run := runBatch grammar none true "d.json" (.file "/dev/full") host
      run.host.output.bytes = (linesText (records.flatMap (pipeline settings).frame)).toUTF8 ∧
        run.Reports [refusal] := by
  intro grammar host pipeline refusal
  obtain ⟨hdiff, hbatch, -⟩ := console_spared_by_log grammar none host
  constructor
  · obtain ⟨⟨settings, outcome⟩, hprepared, hfound⟩ := exists_ok_of_any
      (show (prepareDiff grammar none "a.c" "b.c" host.disk).toOption.any
        (fun (settings, outcome) => settings.console && !outcome.lines.isEmpty &&
          failedSinks true (some "/dev/full") outcome.lines host == [refusal]) = true by
        decide +kernel)
    simp only [Bool.and_eq_true, beq_iff_eq, Bool.not_eq_true', List.isEmpty_eq_false_iff] at hfound
    obtain ⟨⟨hconsole, hlines⟩, hfailed⟩ := hfound
    obtain ⟨houtput, hreports⟩ :=
      hdiff "a.c" "b.c" (.file "/dev/full") .text false settings outcome hprepared
    rw [hconsole] at houtput hreports
    refine ⟨settings, outcome, hprepared, hlines, ?_, ?_⟩
    · rw [houtput]
      simp [Output.showing, Output.print, host, callHost, DiffOutcome.extra]
    · rw [← hfailed]
      exact hreports.mpr (Or.inl rfl)
  · obtain ⟨⟨settings, records⟩, hprepared, hfound⟩ := exists_ok_of_any
      (show (prepareBatch none "d.json" host.disk).toOption.any (fun (settings, records) =>
        settings.console && !records.isEmpty && failedSinks true (some "/dev/full")
          (records.flatMap (pipeline settings).frame) host == [refusal]) = true by decide +kernel)
    simp only [Bool.and_eq_true, beq_iff_eq, Bool.not_eq_true', List.isEmpty_eq_false_iff] at hfound
    obtain ⟨⟨hconsole, hrecords⟩, hfailed⟩ := hfound
    obtain ⟨houtput, hreports⟩ :=
      hbatch true "d.json" (.file "/dev/full") settings records hprepared
    rw [hconsole] at houtput hreports
    refine ⟨settings, records, hprepared, hrecords, ?_, ?_⟩
    · rw [houtput]
      simp [Output.showing, Output.print, host, callHost, pipeline]
    · rw [← hfailed]
      exact hreports

/-- If the output is full, a diff tells that the console failed, but not if it is asked for the
script too: then it breaks off at the script, with a status of its own and without an error. -/
theorem console_failure_untold_with_script :
    let grammar : Grammar := fun _ => some callStatement
    let host := callHost (some 0)
    let run (showActions : Bool) := runDiff grammar none "a.c" "b.c" .never .text showActions host
    ((prepareDiff grammar none "a.c" "b.c" host.disk).toOption.map (fun (settings, outcome) =>
        failedSinks settings.console none outcome.lines host) =
      some [.cannotWrite "console" (.os .noSpace)]) ∧
    ((run false).status = 4 ∧ (run false).errorTexts =
      ["1 report sink(s) failed: Write to console sink failed: " ++
        "No space left on device (os error 28)"]) ∧
    (run true).status = 101 ∧ (run true).errorTexts = [] := by
  decide +kernel

/-- The output has room for a part of the report only. The log has all of it. -/
example :
    let run :=
      runDiff (fun _ => some callStatement) none "a.c" "b.c" (.file "calls.log") .text false
      (callHost (some 28))
    String.fromUTF8? run.host.output.bytes = some "edit script: 1 actions\nactio" ∧
      (run.host.disk.readText "calls.log").toOption = some ("edit script: 1 actions\n" ++
        "action 1: update-node foo -> bar\nfunction name: bar\n") ∧
      run.errorTexts = ["1 report sink(s) failed: Write to console sink failed: " ++
        "No space left on device (os error 28)"] := by
  decide +kernel

end CallDelta
