import CallDelta.Proofs.Appending
import CallDelta.Proofs.BrokenLog

/-!
# Logs only grow

What is written to a log waits in a buffer and reaches the file in pieces that have nothing to do
with lines. Still nothing is lost, repeated or put in another order: at any time, what the file has
taken and what waits make up what was written. A report has reached the file when it is finished,
and a file that stands on a disk holds the lines of all sessions one after the other.

* `Took`: what a store has taken without a refusal
* `LogFile.Passes`: what a log does with a text, for each of its operations
* `LogFile.took_emit`: a report that does not fail has reached the file
* `LogFile.sessions_eq`: sessions on a file

`log_only_grows` puts the last two together.
-/

namespace CallDelta

variable {δ : Type} [Storage δ]

/-! ## What a store has taken -/

/-- A store has taken a text at a place, piece by piece and without a refusal. -/
inductive Took (place : Location) : String → δ → δ → Prop
  | nothing (d : δ) : Took place "" d d
  | piece {text more : String} {d d' d'' : δ} (taken : Storage.append d place text = .ok d')
    (rest : Took place more d' d'') : Took place (text ++ more) d d''

namespace Took

variable {place : Location} {text more : String} {d d' d'' : δ}

theorem trans (h : Took place text d d') (h' : Took place more d' d'') :
    Took place (text ++ more) d d'' := by
  induction h with
  | nothing d => simpa using h'
  | piece taken rest ih =>
    rw [String.append_assoc]
    exact .piece taken (ih h')

theorem of_append (h : Storage.append d place text = .ok d') : Took place text d d' := by
  simpa using Took.piece h (.nothing d')

end Took

/-- A file holds what it has taken behind what it held before. -/
theorem Disk.FileAt.took {d d' : Disk} {path : String} {place : Location} {content : ByteArray}
    {text : String} (h : d.FileAt path place content) (htook : Took place text d d') :
    d'.FileAt path place (content ++ text.toUTF8) := by
  induction htook generalizing content with
  | nothing d => simpa using h
  | @piece text more d d₁ d' taken rest ih =>
    obtain ⟨d₂, hd₂, hfile⟩ := h.append text
    obtain rfl : d₁ = d₂ := Except.ok.inj (taken.symm.trans hd₂)
    rw [String.toUTF8, String.toByteArray_append, ← ByteArray.append_assoc]
    exact ih hfile

/-! ## What a log passes on -/

namespace LogFile

/-- A log passes a text on: what waited and then the text have been taken, but for what waits
now. -/
structure Passes (text : String) (f : LogFile) (d : δ) (f' : LogFile) (d' : δ) : Prop where
  place : f'.place = f.place
  sent : ∃ sent, Took f.place sent d d' ∧ f.pending ++ text = sent ++ f'.pending

namespace Passes

variable {text more : String} {f f' f'' : LogFile} {d d' d'' : δ}

theorem refl (f : LogFile) (d : δ) : Passes "" f d f d :=
  ⟨rfl, "", .nothing d, by simp⟩

theorem trans (h : Passes text f d f' d') (h' : Passes more f' d' f'' d'') :
    Passes (text ++ more) f d f'' d'' := by
  obtain ⟨hplace, sent, htook, hsent⟩ := h
  obtain ⟨hplace', sent', htook', hsent'⟩ := h'
  rw [hplace] at htook'
  refine ⟨hplace'.trans hplace, sent ++ sent', htook.trans htook', ?_⟩
  rw [← String.append_assoc, hsent, String.append_assoc, hsent', String.append_assoc]

/-- If nothing waits any more, all has been taken. -/
theorem took (h : Passes text f d f' d') (hpending : f'.pending = "") :
    Took f.place (f.pending ++ text) d d' := by
  obtain ⟨-, sent, htook, hsent⟩ := h
  rw [hsent, hpending, String.append_empty]
  exact htook

end Passes

/-! ### The operations -/

variable {piece line : String} {f f' : LogFile} {d d' : δ}

theorem passes_flush (h : f.flush d = (none, f', d')) : Passes "" f d f' d' ∧ f'.pending = "" := by
  unfold flush at h
  split at h
  next d₁ htaken =>
    cases h
    exact ⟨⟨rfl, f.pending, .of_append htaken, rfl⟩, rfl⟩
  next => cases h

/-- A piece that is too long to wait must not overtake what waits. -/
theorem passes_take (hlong : capacity ≤ piece.utf8ByteSize → f.pending = "")
    (h : f.take piece d = (none, f', d')) : Passes piece f d f' d' := by
  unfold take at h
  split at h
  next hsize =>
    split at h
    next d₁ htaken =>
      cases h
      exact ⟨rfl, piece, .of_append htaken, by simp [hlong hsize]⟩
    next => cases h
  next =>
    cases h
    exact ⟨rfl, "", .nothing d, by simp⟩

theorem passes_write (h : f.write piece d = (none, f', d')) : Passes piece f d f' d' := by
  unfold write at h
  split at h
  next hroom =>
    refine passes_take (fun hsize => String.utf8ByteSize_eq_zero_iff.mp ?_) h
    omega
  next =>
    split at h
    next => cases h
    next f₁ d₁ hflush =>
      obtain ⟨hpasses, hempty⟩ := passes_flush hflush
      simpa using hpasses.trans (passes_take (fun _ => hempty) h)

theorem passes_writeLine (h : f.writeLine line d = (none, f', d')) :
    Passes (line ++ "\n") f d f' d' := by
  unfold writeLine at h
  split at h
  next => cases h
  next f₁ d₁ hline => exact (passes_write hline).trans (passes_write h)

/-! ### Reports -/

theorem writeLines_cons_of_taken (h : f.writeLine line d = (none, f', d')) (lines : List String) :
    writeLines (line :: lines) f d = writeLines lines f' d' := by
  simp [writeLines, ReportSink.writeLine, h]

theorem passes_writeLines (lines : List String) (f : LogFile) (d : δ)
    (h : (writeLines lines f d).failure = none) :
    Passes (linesText lines) f d (writeLines lines f d).sink (writeLines lines f d).world := by
  induction lines generalizing f d with
  | nil => exact .refl f d
  | cons line lines ih =>
    rw [linesText_cons]
    rcases hline : f.writeLine line d with ⟨_ | e, f₁, d₁⟩
    · rw [writeLines_cons_of_taken hline] at h ⊢
      exact (passes_writeLine hline).trans (ih f₁ d₁ h)
    · simp [writeLines, ReportSink.writeLine, hline] at h

/-- **A report that does not fail has reached the file.** -/
theorem took_emit (lines : List String) (f : LogFile) (d : δ)
    (h : (emit lines f d).failure = none) :
    Took f.place (f.pending ++ linesText lines) d (emit lines f d).world := by
  have hwritten : (writeLines lines f d).failure = none := by
    cases hw : (writeLines lines f d).failure with
    | none => rfl
    | some e => simp [emit, SinkStep.blame, hw] at h
  have hpasses := passes_writeLines lines f d hwritten
  rcases hflush : (writeLines lines f d).sink.flush (writeLines lines f d).world with
    ⟨_ | e, f₁, d₁⟩
  · have hworld : (emit lines f d).world = d₁ := by
      simp [emit, SinkStep.blame, hwritten, ReportSink.finish, hflush]
    obtain ⟨hlast, hempty⟩ := passes_flush hflush
    have hall := (hpasses.trans hlast).took hempty
    rwa [String.append_empty, ← hworld] at hall
  · simp [emit, SinkStep.blame, hwritten, ReportSink.finish, hflush] at h

end LogFile

/-! ## Sessions -/

/-- What a writer does with a log that is open. -/
inductive LogStep where
  | line (text : String)
  | finish
  deriving DecidableEq

/-- The line of a step. -/
def LogStep.line? : LogStep → Option String
  | line text => some text
  | finish => none

namespace LogFile

/-- Takes a step. -/
def perform (step : LogStep) (f : LogFile) (d : δ) : Option OsError × LogFile × δ :=
  match step with
  | .line text => f.writeLine text d
  | .finish => f.flush d

/-- Takes steps one after the other, also behind one that fails. -/
def performAll : List LogStep → LogFile → δ → List OsError × LogFile × δ
  | [], f, d => ([], f, d)
  | step :: steps, f, d =>
    let (failure, f, d) := f.perform step d
    let (failures, f, d) := performAll steps f d
    (failure.toList ++ failures, f, d)

/-- A session: a log is opened, steps are taken, and the log is closed. -/
def session (path : String) (steps : List LogStep) (d : Disk) : List OsError × Disk :=
  match openAt path d with
  | (.error e, d) => ([e], d)
  | (.ok f, d) =>
    let (failures, f, d) := f.performAll steps d
    (failures, f.close d)

/-- Sessions of one writer after the other. -/
def sessions (path : String) : List (List LogStep) → Disk → List OsError × Disk
  | [], d => ([], d)
  | steps :: later, d =>
    let (failures, d) := session path steps d
    let (more, d) := sessions path later d
    (failures ++ more, d)

/-- The lines of steps as they are to be in the file. -/
def stepsText (steps : List LogStep) : String := linesText (steps.filterMap (·.line?))

/-! ### Nothing is refused by a file -/

section

variable {d : Disk} {path : String} {place : Location} {content : ByteArray} {f : LogFile}

theorem flush_on_file (h : d.FileAt path f.place content) :
    ∃ f' d', f.flush d = (none, f', d') := by
  obtain ⟨d', hd', -⟩ := h.append f.pending
  exact ⟨_, d', by simp only [flush, Storage.append, hd']; rfl⟩

theorem take_on_file (h : d.FileAt path f.place content) (piece : String) :
    ∃ f' d', f.take piece d = (none, f', d') := by
  obtain ⟨d', hd', -⟩ := h.append piece
  unfold take
  split
  · exact ⟨_, d', by simp only [Storage.append, hd']; rfl⟩
  · exact ⟨_, d, rfl⟩

/-- What a log passes on to a file is behind its content, but for what waits. -/
theorem Passes.on_file {text : String} {f' : LogFile} {d' : Disk} (h : Passes text f d f' d')
    (hfile : d.FileAt path f.place content) : ∃ content', d'.FileAt path f'.place content' := by
  obtain ⟨hplace, sent, htook, -⟩ := h
  rw [hplace]
  exact ⟨_, hfile.took htook⟩

theorem write_on_file (h : d.FileAt path f.place content) (piece : String) :
    ∃ f' d', f.write piece d = (none, f', d') := by
  unfold write
  split
  · exact take_on_file h piece
  · obtain ⟨f₁, d₁, hflush⟩ := flush_on_file h
    obtain ⟨content₁, h₁⟩ := (passes_flush hflush).1.on_file h
    rw [hflush]
    exact take_on_file h₁ piece

theorem writeLine_on_file (h : d.FileAt path f.place content) (line : String) :
    ∃ f' d', f.writeLine line d = (none, f', d') := by
  obtain ⟨f₁, d₁, hline⟩ := write_on_file h line
  obtain ⟨content₁, h₁⟩ := (passes_write hline).on_file h
  obtain ⟨f₂, d₂, hend⟩ := write_on_file h₁ "\n"
  exact ⟨f₂, d₂, by simp only [writeLine, hline, hend]⟩

theorem perform_on_file (h : d.FileAt path f.place content) (step : LogStep) :
    ∃ f' d', f.perform step d = (none, f', d') ∧
      Passes (stepsText [step]) f d f' d' := by
  cases step with
  | line text =>
    obtain ⟨f₁, d₁, hline⟩ := writeLine_on_file h text
    refine ⟨f₁, d₁, hline, ?_⟩
    simpa [stepsText, LogStep.line?, linesText] using passes_writeLine hline
  | finish =>
    obtain ⟨f₁, d₁, hflush⟩ := flush_on_file h
    exact ⟨f₁, d₁, hflush, (passes_flush hflush).1⟩

theorem stepsText_append (steps later : List LogStep) :
    stepsText (steps ++ later) = stepsText steps ++ stepsText later := by
  simp [stepsText, linesText, String.join_append]

/-- **Steps on a file pass on their lines**, whatever has been finished in between. -/
theorem performAll_on_file (h : d.FileAt path f.place content) (steps : List LogStep) :
    ∃ f' d', f.performAll steps d = ([], f', d') ∧ Passes (stepsText steps) f d f' d' := by
  induction steps generalizing f d content with
  | nil => exact ⟨f, d, rfl, .refl f d⟩
  | cons step steps ih =>
    obtain ⟨f₁, d₁, hstep, hpasses⟩ := perform_on_file h step
    obtain ⟨content₁, h₁⟩ := hpasses.on_file h
    obtain ⟨f₂, d₂, hrest, hmore⟩ := ih h₁
    refine ⟨f₂, d₂, by simp [performAll, hstep, hrest], ?_⟩
    have hall := hpasses.trans hmore
    rwa [← stepsText_append] at hall

theorem session_eq (h : d.FileAt path place content) (steps : List LogStep) :
    ∃ d', session path steps d = ([], d') ∧
      d'.FileAt path place (content ++ (stepsText steps).toUTF8) := by
  obtain ⟨f₁, d₁, hsteps, hpasses⟩ :=
    performAll_on_file (f := { path, place, pending := "" }) h steps
  obtain ⟨content₁, h₁⟩ := hpasses.on_file h
  obtain ⟨f₂, d₂, hflush⟩ := flush_on_file h₁
  obtain ⟨hlast, hempty⟩ := passes_flush hflush
  have htook := (hpasses.trans hlast).took hempty
  refine ⟨d₂, by simp only [session, h.openAt_eq, hsteps, close, hflush], ?_⟩
  simpa using h.took htook

/-- **A file holds the lines of all sessions** behind what it held before, and nothing fails. -/
theorem sessions_eq (h : d.FileAt path place content) (all : List (List LogStep)) :
    ∃ d', sessions path all d = ([], d') ∧
      d'.FileAt path place (content ++ (stepsText all.flatten).toUTF8) := by
  induction all generalizing d content with
  | nil => exact ⟨d, rfl, by simpa [stepsText, linesText, String.join] using h⟩
  | cons steps later ih =>
    obtain ⟨d₁, hfirst, h₁⟩ := session_eq h steps
    obtain ⟨d₂, hlater, h₂⟩ := ih h₁
    refine ⟨d₂, by simp [sessions, hfirst, hlater], ?_⟩
    rwa [List.flatten_cons, stepsText_append, String.toUTF8, String.toByteArray_append,
      ← ByteArray.append_assoc]

theorem failure_writeLines_on_file (h : d.FileAt path f.place content) (lines : List String) :
    (writeLines lines f d).failure = none := by
  induction lines generalizing f d content with
  | nil => rfl
  | cons line lines ih =>
    obtain ⟨f₁, d₁, hline⟩ := writeLine_on_file h line
    obtain ⟨content₁, h₁⟩ := (passes_writeLine hline).on_file h
    rw [writeLines_cons_of_taken hline]
    exact ih h₁

/-- A report to a file does not fail. -/
theorem failure_emit_on_file (h : d.FileAt path f.place content) (lines : List String) :
    (emit lines f d).failure = none := by
  have hwritten := failure_writeLines_on_file h lines
  obtain ⟨content₁, h₁⟩ := (passes_writeLines lines f d hwritten).on_file h
  obtain ⟨f₂, d₂, hflush⟩ := flush_on_file h₁
  simp only [emit, SinkStep.blame, hwritten, ReportSink.finish]
  rw [show (writeLines lines f d).sink.flush (writeLines lines f d).world = _ from hflush]
  rfl

end

/-! ### Logs of a host -/

/-- Log files on the disk of a host. -/
def onHost : SinkPlace LogFile LogFile Host.diskPart where
  make := id
  name_make _ := rfl
  writeLine_make _ _ _ := rfl
  finish_make _ _ := rfl

/-- A report to a log on a host is one to a log on its disk. -/
theorem emit_host (lines : List String) (f : LogFile) (w : Host) :
    emit lines f w = (emit lines f w.disk).within id Host.diskPart w :=
  onHost.emit_make lines f w

theorem took_emit_host (lines : List String) (f : LogFile) (w : Host)
    (h : (emit lines f w).failure = none) :
    Took f.place (f.pending ++ linesText lines) w.disk (emit lines f w).world.disk := by
  rw [emit_host] at h ⊢
  exact took_emit lines f w.disk h

end LogFile

/-- **Logs only grow and lose nothing.** On a disk, sessions leave a file with its old content and
then the lines of all sessions, each with its end, and nothing fails. A report to a log that does
not fail has reached the file, whatever waited in the log before and whatever the file refuses: for
the logs of a host, and on any store. -/
theorem log_only_grows :
    (∀ (d : Disk) (path : String) (content : ByteArray) (all : List (List LogStep)),
      d.Grounded → d.entryAt? path = some (.file content) →
      ∃ d', LogFile.sessions path all d = ([], d') ∧ d'.entryAt? path =
        some (.file (content ++ (linesText (all.flatten.filterMap (·.line?))).toUTF8))) ∧
    (∀ (lines : List String) (f : LogFile) (w : Host), (emit lines f w).failure = none →
      Took f.place (f.pending ++ linesText lines) w.disk (emit lines f w).world.disk ∧
      ∀ path content, w.disk.FileAt path f.place content →
        (emit lines f w).world.disk.FileAt path f.place
          (content ++ (f.pending ++ linesText lines).toUTF8)) ∧
    ∀ (δ : Type) [Storage δ] (lines : List String) (f : LogFile) (d : δ),
      let r := emit lines f d
      r.failure = none → Took f.place (f.pending ++ linesText lines) d r.world := by
  refine ⟨?_, ?_, ?_⟩
  · intro d path content all hd hentry
    obtain ⟨place, hfile⟩ := Disk.FileAt.of_entryAt? hd hentry
    obtain ⟨d', hsessions, hfile'⟩ := LogFile.sessions_eq hfile all
    exact ⟨d', hsessions, hfile'.entryAt?_eq⟩
  · intro lines f w h
    have htook := LogFile.took_emit_host lines f w h
    exact ⟨htook, fun path content hfile => hfile.took htook⟩
  · intro δ _ lines f d r h
    exact LogFile.took_emit lines f d h

/-- Two sessions on a file that has a line, one of them with a line that is longer than the buffer,
and a report to a log in which something waits. -/
theorem log_only_grows_long_line :
    let d := Disk.fresh.store "logs/calls.log" (.file "old\n".toUTF8)
    let long := String.ofList (List.replicate 9000 'x')
    let all : List (List LogStep) := [[.line "a", .finish, .line long], [.line "b"]]
    let f : LogFile :=
      { path := "logs/calls.log", place := ["work", "logs", "calls.log"], pending := "w" }
    let w : Host := { disk := d, output := .fresh }
    (d.Grounded ∧ d.entryAt? "logs/calls.log" = some (.file "old\n".toUTF8) ∧
      ∃ d', LogFile.sessions "logs/calls.log" all d = ([], d') ∧ d'.entryAt? "logs/calls.log" =
        some (.file ("old\n".toUTF8 ++ (linesText ["a", long, "b"]).toUTF8))) ∧
    (emit ["c"] f w).failure = none ∧
      Took f.place ("w" ++ linesText ["c"]) w.disk (emit ["c"] f w).world.disk := by
  intro d long all f w
  have hd : d.Grounded := by decide +kernel
  have hentry : d.entryAt? "logs/calls.log" = some (.file "old\n".toUTF8) := by decide +kernel
  have hemit : (emit ["c"] f w).failure = none := by decide +kernel
  obtain ⟨hsessions, hreport, -⟩ := log_only_grows
  exact ⟨⟨hd, hentry, hsessions d _ _ all hd hentry⟩, hemit, (hreport _ f w hemit).1⟩

end CallDelta
