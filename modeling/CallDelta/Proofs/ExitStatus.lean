import CallDelta.CommandLine.Run
import CallDelta.Proofs.FailureText

/-!
# The exit status of a failed run

Whatever its command, a run loads its settings, reads its inputs, makes sense of them, parses the
sources and writes to its sinks. It fails at the first of these stages that does not go well, which
is a matter of what the run finds (`Invocation.failingStage`). The exit status is not: it is read
off the text of the failure, where a name may pass for the word of another stage.

* `Invocation.Foresees`: a command fails where the run is bound to fail, or it has nothing left but
  to write
* `endsWith_run`: a run that fails ends with a failure of the stage that failed
* `failed_run_status`: the status is that of the stage exactly if nothing from outside has a word
  that is looked for earlier
* `settings_status_by_name`: settings that are missing under two names, with two statuses
-/

namespace CallDelta

/-! ## The stage at which a run fails -/

/-- Whether the file at a path is there and is a text. -/
def Disk.holdsText (d : Disk) (path : String) : Bool := d.isFile path && (d.readText path).isOk

namespace Command

/-- Whether a command needs settings. -/
def needsSettings : Command → Bool
  | tree _ => false
  | _ => true

/-- The files that a command reads, in this order. -/
def inputs : Command → List String
  | diff before after _ _ _ => [before, after]
  | batch dataset _ => [dataset]
  | tree file => [file]

/-- Whether a command can do something with the texts of its inputs: a data set is well-formed, and
a source is in a known language. Of two sources the first decides. -/
def takes (texts : List String) : Command → Bool
  | diff file _ _ _ _ | tree file => (Language.ofPath? file).isSome
  | batch _ _ => texts.all (fun text => (Dataset.ofText text).isOk)

/-- Whether all sources have a syntax tree. The sources in a data set are not asked. -/
def parses (grammar : Grammar) (texts : List String) : Command → Bool
  | batch _ _ => true
  | _ => texts.all (fun text => (grammar text).isSome)

/-- The log file of a command. -/
def log? (settings : Settings) : Command → Option String
  | diff _ _ log _ _ | batch _ log => log.path? settings
  | tree _ => none

end Command

/-- The stage at which settings cannot be had. Without a working directory there is no place to look
for them, which is another failure than settings that are missing or wrong. -/
def settingsStage (config : Option String) (d : Disk) : Stage :=
  if config.isNone && !d.currentDirectory.isOk then .other else .settings

/-- The stage at which a run fails, if it fails. -/
def Invocation.failingStage (i : Invocation) (grammar : Grammar) (d : Disk) : Stage :=
  if i.command.needsSettings && !(loadSettings i.config d).isOk then settingsStage i.config d
  else
    match i.command.inputs.find? (fun path => !d.holdsText path) with
    | some path => if d.isFile path then .other else .input
    | none =>
      let texts := i.command.inputs.filterMap (fun path => (d.readText path).toOption)
      if !i.command.takes texts then .other
      else if !i.command.parses grammar texts then .source
      else .sinks

/-! ## What goes wrong on the way -/

/-- A failure from before anything is written. If a file is in no known language, that is all its
cause has to tell. -/
def Failure.IsEarly : Failure → Prop
  | noLanguage path cause => cause = .unsupportedLanguage path
  | sinks _ => False
  | _ => True

theorem bind_eq_ok_iff {ε α β : Type} {x : Except ε α} {f : α → Except ε β} {b : β} :
    (x >>= f) = .ok b ↔ ∃ a, x = .ok a ∧ f a = .ok b := by
  cases x <;> simp [bind, Except.bind]

theorem mapError_eq_error_iff {ε ε' α : Type} {g : ε → ε'} {x : Except ε α} {e : ε'} :
    x.mapError g = .error e ↔ ∃ cause, x = .error cause ∧ g cause = e := by
  cases x <;> simp [Except.mapError]

theorem mapError_eq_ok_iff {ε ε' α : Type} {g : ε → ε'} {x : Except ε α} {a : α} :
    x.mapError g = .ok a ↔ x = .ok a := by
  cases x <;> simp [Except.mapError]

section

variable {d : Disk} {path text : String} {f : Failure}

theorem loadSettings_error {config : Option String} (h : loadSettings config d = .error f) :
    f.stage = settingsStage config d ∧ f.IsEarly := by
  cases config with
  | some path =>
    obtain ⟨cause, -, rfl⟩ := mapError_eq_error_iff.mp h
    exact ⟨rfl, trivial⟩
  | none =>
    unfold settingsStage
    rw [loadSettings] at h
    cases hplace : d.currentDirectory with
    | error cause =>
      rw [hplace] at h
      cases h
      exact ⟨rfl, trivial⟩
    | ok place =>
      rw [hplace] at h
      obtain ⟨cause, -, rfl⟩ := mapError_eq_error_iff.mp h
      exact ⟨rfl, trivial⟩

theorem readInput_ok (h : readInput d path = .ok text) :
    d.holdsText path = true ∧ d.readText path = .ok text := by
  rw [readInput] at h
  split at h
  · next hfile =>
    rw [mapError_eq_ok_iff] at h
    simp [Disk.holdsText, hfile, h, Except.isOk, Except.toBool]
  · cases h

theorem readInput_error (h : readInput d path = .error f) :
    d.holdsText path = false ∧ f.stage = (if d.isFile path then .other else .input) ∧
      f.IsEarly := by
  rw [readInput] at h
  split at h
  · next hfile =>
    obtain ⟨cause, hread, rfl⟩ := mapError_eq_error_iff.mp h
    refine ⟨?_, ?_, trivial⟩
    · simp [Disk.holdsText, hread, Except.isOk, Except.toBool]
    · rw [if_pos hfile]
      rfl
  · next hfile =>
    cases h
    refine ⟨?_, ?_, trivial⟩
    · simp [Disk.holdsText, hfile]
    · rw [if_neg hfile]
      rfl

theorem chooseLanguage_ok {language : Language} (h : chooseLanguage path = .ok language) :
    (Language.ofPath? path).isSome = true := by
  have h := mapError_eq_ok_iff.mp h
  rw [Language.ofPath] at h
  split at h
  · next hpath => simp [hpath]
  · cases h

theorem chooseLanguage_error (h : chooseLanguage path = .error f) :
    (Language.ofPath? path).isSome = false ∧ f.stage = .other ∧ f.IsEarly := by
  obtain ⟨cause, hpath, rfl⟩ := mapError_eq_error_iff.mp h
  rw [Language.ofPath] at hpath
  split at hpath
  · cases hpath
  · next hnone =>
    cases hpath
    exact ⟨by rw [hnone]; rfl, rfl, rfl⟩

end

theorem Language.isOk_parse (l : Language) (grammar : Grammar) (source : String) :
    (l.parse grammar source).isOk = (grammar source).isSome := by
  rw [Language.parse]
  cases grammar source <;> rfl

theorem Pipeline.isOk_diff (p : Pipeline) (before after : String) :
    (p.diff before after).isOk = ((p.parse before).isOk && (p.parse after).isOk) := by
  rw [Pipeline.diff]
  cases p.parse before <;> cases p.parse after <;> rfl

theorem isOk_diff_standard (l : Language) (grammar : Grammar) (options : MatchOptions)
    (before after : String) :
    ((Pipeline.standard (l.parse grammar) options).diff before after).isOk =
      ((grammar before).isSome && (grammar after).isSome) := by
  rw [Pipeline.isOk_diff, ← l.isOk_parse, ← l.isOk_parse]
  rfl

/-- What a command finds before it writes agrees with the stage at which the run fails. -/
def Invocation.Foresees {α : Type} (i : Invocation) (grammar : Grammar) (d : Disk) :
    Except Failure α → Prop
  | .error f => f.stage = i.failingStage grammar d ∧ f.IsEarly
  | .ok _ => i.failingStage grammar d = .sinks

namespace Invocation

variable {i : Invocation} (grammar : Grammar) (d : Disk)

theorem foresees_of_settings {α : Type} {f : Failure} (hneeds : i.command.needsSettings = true)
    (h : loadSettings i.config d = .error f) :
    i.Foresees grammar d (.error f : Except Failure α) := by
  obtain ⟨hstage, hearly⟩ := loadSettings_error h
  refine ⟨hstage.trans ?_, hearly⟩
  simp [failingStage, hneeds, h, Except.isOk, Except.toBool]

theorem foresees_prepareDiff {before after : String} {log : LogChoice} {format : OutputFormat}
    {showActions : Bool} (hcommand : i.command = .diff before after log format showActions) :
    i.Foresees grammar d (prepareDiff grammar i.config before after d) := by
  rw [prepareDiff]
  cases hsettings : loadSettings i.config d with
  | error f => exact foresees_of_settings grammar d (by rw [hcommand]; rfl) hsettings
  | ok settings =>
  cases hbefore : readInput d before with
  | error f =>
    obtain ⟨htext, hstage, hearly⟩ := readInput_error hbefore
    refine ⟨hstage.trans ?_, hearly⟩
    simp [failingStage, hcommand, Command.inputs, hsettings, htext, Except.isOk, Except.toBool]
  | ok beforeText =>
  obtain ⟨hbeforeText, hbeforeRead⟩ := readInput_ok hbefore
  cases hafter : readInput d after with
  | error f =>
    obtain ⟨htext, hstage, hearly⟩ := readInput_error hafter
    refine ⟨hstage.trans ?_, hearly⟩
    simp [failingStage, hcommand, Command.inputs, hsettings, hbeforeText, htext, Except.isOk,
      Except.toBool]
  | ok afterText =>
  obtain ⟨hafterText, hafterRead⟩ := readInput_ok hafter
  -- Both texts are there, and what is left depends on the language and the grammar.
  have hread : i.failingStage grammar d =
      if !(Language.ofPath? before).isSome then .other
      else if !((grammar beforeText).isSome && (grammar afterText).isSome) then .source
      else .sinks := by
    simp [failingStage, hcommand, Command.inputs, Command.takes, Command.parses, hsettings,
      hbeforeText, hbeforeRead, hafterText, hafterRead, Except.isOk, Except.toBool, Except.toOption]
  cases hlanguage : chooseLanguage before with
  | error f =>
    obtain ⟨hnone, hstage, hearly⟩ := chooseLanguage_error hlanguage
    exact ⟨hstage.trans (by rw [hread, hnone]; rfl), hearly⟩
  | ok language =>
  rw [chooseLanguage_ok hlanguage, ← isOk_diff_standard language grammar settings.matching] at hread
  change i.Foresees grammar d ((Pipeline.diff _ beforeText afterText).mapError _ >>= _)
  cases houtcome :
    (Pipeline.standard (language.parse grammar) settings.matching).diff beforeText afterText with
  | error cause => exact ⟨by rw [hread, houtcome]; rfl, trivial⟩
  | ok outcome => exact hread.trans (by rw [houtcome]; rfl)

theorem foresees_prepareBatch {dataset : String} {log : LogChoice}
    (hcommand : i.command = .batch dataset log) :
    i.Foresees grammar d (prepareBatch i.config dataset d) := by
  rw [prepareBatch]
  cases hsettings : loadSettings i.config d with
  | error f => exact foresees_of_settings grammar d (by rw [hcommand]; rfl) hsettings
  | ok settings =>
  change i.Foresees grammar d ((Dataset.load d dataset).mapError _ >>= _)
  rw [Dataset.load]
  cases hfile : d.isFile dataset with
  | false =>
    refine ⟨?_, trivial⟩
    change Stage.input = _
    simp [failingStage, hcommand, Command.inputs, Disk.holdsText, hsettings, hfile, Except.isOk,
      Except.toBool]
  | true =>
  cases hread : d.readText dataset with
  | error e =>
    refine ⟨?_, trivial⟩
    change Stage.other = _
    simp [failingStage, hcommand, Command.inputs, Disk.holdsText, hsettings, hfile, hread,
      Except.isOk, Except.toBool]
  | ok text =>
  have hread :
      i.failingStage grammar d = if !(Dataset.ofText text).isOk then .other else .sinks := by
    simp [failingStage, hcommand, Command.inputs, Command.takes, Command.parses, Disk.holdsText,
      hsettings, hfile, hread, Except.isOk, Except.toBool, Except.toOption]
  change i.Foresees grammar d (((Dataset.ofText text).mapError _).mapError _ >>= _)
  cases hrecords : Dataset.ofText text with
  | error fault => exact ⟨by rw [hread, hrecords]; rfl, trivial⟩
  | ok records => exact hread.trans (by rw [hrecords]; rfl)

theorem foresees_prepareTree {file : String} (hcommand : i.command = .tree file) :
    i.Foresees grammar d (prepareTree grammar file d) := by
  rw [prepareTree]
  cases hfile : readInput d file with
  | error f =>
    obtain ⟨htext, hstage, hearly⟩ := readInput_error hfile
    refine ⟨hstage.trans ?_, hearly⟩
    simp [failingStage, hcommand, Command.needsSettings, Command.inputs, htext]
  | ok text =>
  obtain ⟨htext, hread⟩ := readInput_ok hfile
  have hread : i.failingStage grammar d =
      if !(Language.ofPath? file).isSome then .other else if !(grammar text).isSome then .source
      else .sinks := by
    simp [failingStage, hcommand, Command.needsSettings, Command.inputs, Command.takes,
      Command.parses, htext, hread, Except.toOption]
  cases hlanguage : chooseLanguage file with
  | error f =>
    obtain ⟨hnone, hstage, hearly⟩ := chooseLanguage_error hlanguage
    exact ⟨hstage.trans (by rw [hread, hnone]; rfl), hearly⟩
  | ok language =>
  rw [← language.isOk_parse, chooseLanguage_ok hlanguage] at hread
  change i.Foresees grammar d ((language.parse grammar text).mapError _)
  cases htree : language.parse grammar text with
  | error cause => exact ⟨by rw [hread, htree]; rfl, trivial⟩
  | ok tree => exact hread.trans (by rw [htree]; rfl)

end Invocation

/-! ## Sinks that fail -/

/-- The error of a sink that refused a line or could not be finished. -/
def IsRefusal (σ ω : Type) [ReportSink σ ω] (e : ReportError) : Prop :=
  ∃ (s : σ) (w : ω), (∃ line, (ReportSink.writeLine line s w).blame.failure = some e) ∨
    (ReportSink.finish s w).blame.failure = some e

section

variable {σ ω : Type} [ReportSink σ ω] {w : ω} {e : ReportError}

theorem isRefusal_of_writeLines {lines : List String} {s : σ}
    (h : (writeLines lines s w).blame.failure = some e) : IsRefusal σ ω e := by
  induction lines generalizing s w with
  | nil => cases h
  | cons line lines ih =>
    rw [writeLines] at h
    split at h
    · exact ⟨s, w, Or.inl ⟨line, h⟩⟩
    · exact ih h

theorem isRefusal_of_emit {lines : List String} {s : σ} (h : (emit lines s w).failure = some e) :
    IsRefusal σ ω e := by
  rw [emit] at h
  split at h
  · exact isRefusal_of_writeLines h
  · exact ⟨_, _, Or.inr h⟩

theorem exists_of_mem_passOver {τ : Type} {step : τ → ω → SinkStep ReportError τ ω} {sinks : List τ}
    (h : e ∈ (passOver step sinks w).errors) : ∃ s w, (step s w).failure = some e := by
  induction sinks generalizing w with
  | nil => cases h
  | cons s sinks ih =>
    rw [passOver, List.mem_append, Option.mem_toList] at h
    rcases h with h | h
    · exact ⟨s, w, h⟩
    · exact ih h

theorem isRefusal_of_mem_writeFrames {frames : List (List String)} {sinks : List (LiveSink σ)}
    (h : e ∈ (writeFrames frames sinks w).errors) : IsRefusal σ ω e := by
  induction frames generalizing sinks w with
  | nil => cases h
  | cons frame frames ih =>
    rw [writeFrames, List.mem_append] at h
    rcases h with h | h
    · obtain ⟨s, w, h⟩ := exists_of_mem_passOver h
      rw [LiveSink.write] at h
      split at h
      · exact isRefusal_of_writeLines h
      · cases h
    · exact ih h

theorem isRefusal_of_mem_runBatch {p : Pipeline} {records : List DiffRecord} {sinks : List σ}
    (h : e ∈ (p.runBatch records sinks w).errors) : IsRefusal σ ω e := by
  rw [Pipeline.runBatch, reportBatch, List.mem_append] at h
  rcases h with h | h
  · exact isRefusal_of_mem_writeFrames h
  · obtain ⟨s, w, h⟩ := exists_of_mem_passOver h
    rw [LiveSink.finish] at h
    split at h
    · exact ⟨_, _, Or.inr h⟩
    · cases h

end

/-- A sink of a run could not be opened, or it refused a line or could not be finished. -/
def Invocation.IsSinkFault (i : Invocation) (host : Host) (e : ReportError) : Prop :=
  (∃ settings path, loadSettings i.config host.disk = .ok settings ∧
      i.command.log? settings = some path ∧ (Destination.openLog path host).1 = .error e) ∨
    IsRefusal Destination Host e

theorem isSinkFault_of_mem_openSinks {i : Invocation} {settings : Settings} {console : Bool}
    {log : Option String} {host : Host} {e : ReportError}
    (hsettings : loadSettings i.config host.disk = .ok settings)
    (hlog : i.command.log? settings = log)
    (h : e ∈ (openSinks console log host).1) : i.IsSinkFault host e := by
  cases log with
  | none => cases h
  | some path =>
    refine Or.inl ⟨settings, path, hsettings, hlog, ?_⟩
    unfold openSinks at h
    dsimp only at h
    split at h
    · cases h
    · next hopen => rw [hopen, List.mem_singleton.mp h]

theorem loadSettings_of_prepareDiff {grammar : Grammar} {config : Option String}
    {before after : String} {d : Disk} {settings : Settings} {outcome : DiffOutcome}
    (h : prepareDiff grammar config before after d = .ok (settings, outcome)) :
    loadSettings config d = .ok settings := by
  rw [prepareDiff] at h
  obtain ⟨found, hfound, h⟩ := bind_eq_ok_iff.mp h
  obtain ⟨_, _, h⟩ := bind_eq_ok_iff.mp h
  obtain ⟨_, _, h⟩ := bind_eq_ok_iff.mp h
  obtain ⟨_, _, h⟩ := bind_eq_ok_iff.mp h
  obtain ⟨_, _, h⟩ := bind_eq_ok_iff.mp h
  cases h
  exact hfound

theorem loadSettings_of_prepareBatch {config : Option String} {dataset : String} {d : Disk}
    {settings : Settings} {records : List DiffRecord}
    (h : prepareBatch config dataset d = .ok (settings, records)) :
    loadSettings config d = .ok settings := by
  rw [prepareBatch] at h
  obtain ⟨found, hfound, h⟩ := bind_eq_ok_iff.mp h
  obtain ⟨_, _, h⟩ := bind_eq_ok_iff.mp h
  cases h
  exact hfound

/-! ## Runs -/

/-- The failures with which a run can end. -/
inductive EndsWith (i : Invocation) (grammar : Grammar) (host : Host) : Failure → Prop
  | early {f : Failure} (stage : f.stage = i.failingStage grammar host.disk) (isEarly : f.IsEarly) :
    EndsWith i grammar host f
  | sinks {errors : List ReportError} (stage : i.failingStage grammar host.disk = .sinks)
    (ne_nil : errors ≠ []) (faults : ∀ e ∈ errors, i.IsSinkFault host e) :
    EndsWith i grammar host (.sinks errors)

theorem RunResult.status_ofFailure?_some (f : Failure) (messages : List Message) (host : Host) :
    (ofFailure? (some f) messages host).status = f.exitStatus := rfl

section

variable {i : Invocation} {grammar : Grammar} {host : Host} {f : Failure}

theorem endsWith_failed {g : Failure} {α : Type}
    (hforesees : i.Foresees grammar host.disk (.error g : Except Failure α))
    (h : .failure f ∈ (RunResult.failed g host).messages) :
    (RunResult.failed g host).status = f.exitStatus ∧ EndsWith i grammar host f := by
  cases List.mem_singleton.mp h
  exact ⟨rfl, .early hforesees.1 hforesees.2⟩

theorem endsWith_ofFailure? {errors : List ReportError} {messages : List Message} {host' : Host}
    (hstage : i.failingStage grammar host.disk = .sinks)
    (hfaults : ∀ e ∈ errors, i.IsSinkFault host e) (hmessages : ∀ f, Message.failure f ∉ messages)
    (h : .failure f ∈ (RunResult.ofFailure? (sinkFailure? errors) messages host').messages) :
    (RunResult.ofFailure? (sinkFailure? errors) messages host').status = f.exitStatus ∧
      EndsWith i grammar host f := by
  rw [sinkFailure?] at h ⊢
  split at h
  · exact absurd h (hmessages f)
  · next hne =>
    rcases List.mem_append.mp h with h | h
    · exact absurd h (hmessages f)
    · cases List.mem_singleton.mp h
      rw [if_neg hne]
      exact ⟨RunResult.status_ofFailure?_some _ _ _, .sinks hstage (by simpa using hne) hfaults⟩

theorem endsWith_finishPrinting {text : String} (errors : List ReportError) {host' : Host}
    (hstage : i.failingStage grammar host.disk = .sinks)
    (hfaults : ∀ e ∈ errors, i.IsSinkFault host e)
    (h : .failure f ∈ (finishPrinting text (sinkFailure? errors) host').messages) :
    (finishPrinting text (sinkFailure? errors) host').status = f.exitStatus ∧
      EndsWith i grammar host f := by
  rw [finishPrinting] at h ⊢
  split at h
  · cases h
  · exact endsWith_ofFailure? hstage hfaults (by simp) h

theorem endsWith_runDiff {before after : String} {log : LogChoice} {format : OutputFormat}
    {showActions : Bool}
    (hcommand : i.command = .diff before after log format showActions)
    (h : .failure f ∈
      (runDiff grammar i.config before after log format showActions host).messages) :
    (runDiff grammar i.config before after log format showActions host).status = f.exitStatus ∧
      EndsWith i grammar host f := by
  have hforesees := Invocation.foresees_prepareDiff grammar host.disk hcommand
  rw [runDiff] at h ⊢
  cases hprepared : prepareDiff grammar i.config before after host.disk with
  | error g =>
    rw [hprepared] at h hforesees
    exact endsWith_failed hforesees h
  | ok found =>
    obtain ⟨settings, outcome⟩ := found
    have hsettings := loadSettings_of_prepareDiff hprepared
    rw [hprepared] at h hforesees
    refine endsWith_finishPrinting _ hforesees (fun e he => ?_) h
    rcases List.mem_append.mp he with he | he
    · exact isSinkFault_of_mem_openSinks hsettings (by rw [hcommand]; rfl) he
    · obtain ⟨s, w, he⟩ := exists_of_mem_passOver he
      exact Or.inr (isRefusal_of_emit he)

theorem endsWith_runBatch {dataset : String} {log : LogChoice}
    (hcommand : i.command = .batch dataset log)
    (h : .failure f ∈ (runBatch grammar i.config i.quiet dataset log host).messages) :
    (runBatch grammar i.config i.quiet dataset log host).status = f.exitStatus ∧
      EndsWith i grammar host f := by
  have hforesees := Invocation.foresees_prepareBatch grammar host.disk hcommand
  rw [runBatch] at h ⊢
  cases hprepared : prepareBatch i.config dataset host.disk with
  | error g =>
    rw [hprepared] at h hforesees
    exact endsWith_failed hforesees h
  | ok found =>
    obtain ⟨settings, records⟩ := found
    have hsettings := loadSettings_of_prepareBatch hprepared
    rw [hprepared] at h hforesees
    refine endsWith_ofFailure? hforesees (fun e he => ?_) (by cases i.quiet <;> simp) h
    rcases List.mem_append.mp he with he | he
    · exact isSinkFault_of_mem_openSinks hsettings (by rw [hcommand]; rfl) he
    · exact Or.inr (isRefusal_of_mem_runBatch he)

theorem endsWith_runTree {file : String} (hcommand : i.command = .tree file)
    (h : .failure f ∈ (runTree grammar file host).messages) :
    (runTree grammar file host).status = f.exitStatus ∧ EndsWith i grammar host f := by
  have hforesees := Invocation.foresees_prepareTree grammar host.disk hcommand
  rw [runTree] at h ⊢
  cases hprepared : prepareTree grammar file host.disk with
  | error g =>
    rw [hprepared] at h hforesees
    exact endsWith_failed hforesees h
  | ok tree =>
    rw [hprepared] at h hforesees
    exact endsWith_finishPrinting [] hforesees (by simp) h

/-- **A run that fails ends with a failure of the stage that failed.** -/
theorem endsWith_run (h : .failure f ∈ (i.run grammar host).messages) :
    (i.run grammar host).status = f.exitStatus ∧ EndsWith i grammar host f := by
  rw [Invocation.run] at h ⊢
  cases hcommand : i.command with
  | diff before after log format showActions =>
    rw [hcommand] at h
    exact endsWith_runDiff hcommand h
  | batch dataset log =>
    rw [hcommand] at h
    exact endsWith_runBatch hcommand h
  | tree file =>
    rw [hcommand] at h
    exact endsWith_runTree hcommand h

end

/-- What the exit status of a run with a failure tells. -/
structure StatusAccount (i : Invocation) (grammar : Grammar) (host : Host)
    (f : Failure) : Prop where
  /-- The failure is one of the stage at which the run fails. -/
  stage : f.stage = i.failingStage grammar host.disk
  /-- If the sinks are blamed, one or more of them failed. -/
  sinks : ∀ errors, f = .sinks errors → errors ≠ [] ∧ ∀ e ∈ errors, i.IsSinkFault host e
  /-- The text of the failure consists of its pieces. -/
  text : Failure.wording f.pieces = f.text
  /-- The status is that of the first stage which failed or has its word in what comes from
  outside. -/
  status : (i.run grammar host).status = f.apparentStage.status
  /-- It is that of the stage that failed exactly if nothing from outside has a word that is looked
  for earlier. -/
  status_iff : (i.run grammar host).status = (i.failingStage grammar host.disk).status ↔
    ∀ s ∈ f.stage.earlier, ∀ part ∈ f.foreign, Failure.occurs s.word part = false

/-- **The exit status of a run that fails.** -/
theorem failed_run_status (i : Invocation) (grammar : Grammar) (host : Host) (f : Failure)
    (h : .failure f ∈ (i.run grammar host).messages) : StatusAccount i grammar host f := by
  obtain ⟨hstatus, hends⟩ := endsWith_run h
  have hstage : f.stage = i.failingStage grammar host.disk := by
    cases hends with
    | early hstage => exact hstage
    | sinks hstage => exact hstage.symm
  have happarent : f.exitStatus = f.apparentStage.status := by
    refine Failure.exitStatus_eq_status_apparentStage (fun path cause hf => ?_)
    subst hf
    cases hends with
    | early _ hearly => exact hearly
  constructor
  case stage => exact hstage
  case sinks =>
    rintro errors rfl
    cases hends with
    | early _ hearly => exact hearly.elim
    | sinks _ hne hfaults => exact ⟨hne, hfaults⟩
  case text => exact f.wording_pieces
  case status => exact hstatus.trans happarent
  case status_iff =>
    rw [hstatus, happarent, ← hstage, Stage.status_inj]
    exact f.apparentStage_eq_stage_iff

/-- A diff with the settings of some file. -/
def Invocation.diffWith (settings : String) : Invocation :=
  { quiet := false, config := some settings, command := .diff "a.c" "b.c" .configured .text false }

/-- A host without files. -/
def Host.bare : Host :=
  { disk := { entries := [], workingDirectory := [] }, output := .fresh }

/-- The settings are missing, and the name of their file has the word for sinks in it. -/
theorem failed_run_status_of_sink_file :
    Message.failure (.settings (.notFound "sink.toml")) ∈
        ((Invocation.diffWith "sink.toml").run (fun _ => none) .bare).messages ∧
      StatusAccount (.diffWith "sink.toml") (fun _ => none) .bare
        (.settings (.notFound "sink.toml")) := by
  have hmissing : Host.bare.disk.isFile "sink.toml" = false := by decide +kernel
  have h : Message.failure (.settings (.notFound "sink.toml")) ∈
      ((Invocation.diffWith "sink.toml").run (fun _ => none) .bare).messages := by
    have hsettings : loadSettings (some "sink.toml") Host.bare.disk =
        .error (.settings (.notFound "sink.toml")) := by
      rw [loadSettings, Settings.load, hmissing]
      rfl
    have hprepared : prepareDiff (fun _ => none) (some "sink.toml") "a.c" "b.c" Host.bare.disk =
        .error (.settings (.notFound "sink.toml")) := by
      rw [prepareDiff, hsettings]
      rfl
    rw [Invocation.run, Invocation.diffWith]
    dsimp only
    rw [runDiff, hprepared]
    exact List.mem_singleton_self _
  exact ⟨h, failed_run_status _ _ _ _ h⟩

/-- The same failure at the same stage has one status or another by the name of a file. -/
theorem settings_status_by_name :
    let run (settings : String) := (Invocation.diffWith settings).run (fun _ => none) .bare
    let stage (settings : String) :=
      (Invocation.diffWith settings).failingStage (fun _ => none) Host.bare.disk
    (stage "team.toml" = .settings ∧ (run "team.toml").status = 2 ∧
        (run "team.toml").messages.map (·.text "0") =
          ["Error: Cannot load config: Config file not found: team.toml"]) ∧
      (stage "sink.toml" = .settings ∧ (run "sink.toml").status = 4 ∧
        (run "sink.toml").messages.map (·.text "0") =
          ["Error: Cannot load config: Config file not found: sink.toml"]) := by
  decide +kernel

end CallDelta
