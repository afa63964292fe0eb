import CallDelta.Batch
import CallDelta.CommandLine.Arguments
import CallDelta.CommandLine.Failure
import CallDelta.Exchange.Calls
import CallDelta.Grammar.Language
import CallDelta.Json.Writer
import CallDelta.Report.Destination
import CallDelta.Settings
import CallDelta.Tree.Outline

/-!
# Running a command

A run works on a host and leaves an exit status, messages for whoever started it, and the host as it
is afterwards. A sink that fails does not stop the others, and the run fails at its end. What a
command prints beside the report goes straight to the standard output; if that refuses it, the run
breaks off.
-/

namespace CallDelta

/-- A message beside the output of a run. -/
inductive Message where
  | summary (s : BatchSummary)
  | failure (f : Failure)

/-- What a run leaves behind. -/
structure RunResult where
  status : Nat
  messages : List Message
  host : Host

namespace RunResult

/-- A run that went well or failed at its end. -/
def ofFailure? (failure : Option Failure) (messages : List Message) (host : Host) : RunResult :=
  match failure with
  | none => { status := 0, messages, host }
  | some f => { status := f.exitStatus, messages := messages ++ [.failure f], host }

/-- A run that failed. -/
def failed (f : Failure) (host : Host) : RunResult := ofFailure? (some f) [] host

/-- The status of a run that broke off. -/
def brokenOff : Nat := 101

end RunResult

/-! ## What the commands share -/

/-- The settings for a run. If no file is named for them, they are looked for in the working
directory. -/
def loadSettings (config : Option String) (d : Disk) : Except Failure Settings :=
  match config with
  | some path => (Settings.load d path).mapError .settings
  | none => do
    let place ← d.currentDirectory.mapError .workingDirectory
    (Settings.loadOrDefault d place.text).mapError .settings

/-- The text of a source file. -/
def readInput (d : Disk) (path : String) : Except Failure String :=
  if d.isFile path then (d.readText path).mapError (.inputUnreadable path)
  else .error (.inputMissing path)

/-- The language of a source file. -/
def chooseLanguage (path : String) : Except Failure Language :=
  (Language.ofPath path).mapError (.noLanguage path)

/-- The log file of a run, if it has one. -/
def LogChoice.path? (settings : Settings) : LogChoice → Option String
  | configured => settings.logPath
  | file path => some path
  | never => none

/-- The sinks of a run, and what went wrong while they were opened. -/
def openSinks (console : Bool) (log : Option String) (host : Host) :
    List ReportError × List Destination × Host :=
  let printed := if console then [Destination.console .console] else []
  match log with
  | none => ([], printed, host)
  | some path =>
    match Destination.openLog path host with
    | (.ok f, host) => ([], printed ++ [.log f], host)
    | (.error e, host) => ([e], printed, host)

/-- Closes the log files among some sinks. -/
def closeSinks (sinks : List Destination) (host : Host) : Host :=
  sinks.foldl
    (fun host s =>
      match s with
      | .log f => { host with disk := f.close host.disk }
      | _ => host)
    host

/-- The failure of the sinks, if one of them failed. -/
def sinkFailure? (errors : List ReportError) : Option Failure :=
  if errors.isEmpty then none else some (.sinks errors)

/-! ## The commands -/

/-- A number with blanks in front of it, three characters wide at least. -/
def padded (n : Nat) : String :=
  let digits := toString n
  String.ofList (List.replicate (3 - digits.length) ' ') ++ digits

/-- An action for the reader: its node, the new label and the span. -/
def Action.describe (trees : TreePair) (a : Action) : String :=
  match (trees.side a.side).get? a.node with
  | none => a.kind.name ++ " <unknown node>"
  | some node =>
    let renamed := match a with
      | .updateNode _ (some label) => " -> \"" ++ label ++ "\""
      | _ => ""
    a.kind.name ++ " " ++ node.typeName ++ node.label.elim "" (fun l => " \"" ++ l ++ "\"") ++
      renamed ++ node.span.elim "" (fun s => " " ++ s.text)

/-- The script for the reader. -/
def DiffOutcome.scriptText (o : DiffOutcome) : String :=
  let line (a : Action × Nat) := "  " ++ padded (a.2 + 1) ++ ". " ++ a.1.describe o.trees ++ "\n"
  "\nEdit script (" ++ toString o.script.length ++ " actions):\n" ++
    String.join (o.script.zipIdx.map line)

/-- The outcome of a diff as a value. -/
def DiffOutcome.toJson (o : DiffOutcome) : Json :=
  .record
    [("actions", .nat o.script.length), ("mapped_nodes", .nat o.mapping.size),
      ("changes", .list ChangeRecord.toJson o.records)]

/-- What is printed after the report of a diff. -/
def DiffOutcome.extra (o : DiffOutcome) (format : OutputFormat) (showActions : Bool) : String :=
  match format with
  | .json => o.toJson.pretty ++ "\n"
  | .text => if showActions then o.scriptText else ""

/-- The settings of a diff and what it finds, before anything is written. -/
def prepareDiff (grammar : Grammar) (config : Option String) (before after : String) (d : Disk) :
    Except Failure (Settings × DiffOutcome) := do
  let settings ← loadSettings config d
  let beforeText ← readInput d before
  let afterText ← readInput d after
  let language ← chooseLanguage before
  let pipeline := Pipeline.standard (language.parse grammar) settings.matching
  let outcome ← (pipeline.diff beforeText afterText).mapError (.diffFailed before after)
  return (settings, outcome)

/-- Ends a run by printing a text. -/
def finishPrinting (text : String) (failure : Option Failure) (host : Host) : RunResult :=
  match host.output.print text with
  | (some _, output) =>
    { status := RunResult.brokenOff, messages := [], host := { host with output } }
  | (none, output) => .ofFailure? failure [] { host with output }

/-- Reports the calls that changed between two files. -/
def runDiff (grammar : Grammar) (config : Option String) (before after : String) (log : LogChoice)
    (format : OutputFormat) (showActions : Bool) (host : Host) : RunResult :=
  match prepareDiff grammar config before after host.disk with
  | .error f => .failed f host
  | .ok (settings, outcome) =>
    let (refusals, sinks, host) :=
      openSinks (settings.console && format == .text) (log.path? settings) host
    let pass := emitAll outcome.lines sinks host
    finishPrinting (outcome.extra format showActions) (sinkFailure? (refusals ++ pass.errors))
      (closeSinks pass.sinks pass.world)

/-- The settings and the records of a batch, before anything is written. -/
def prepareBatch (config : Option String) (dataset : String) (d : Disk) :
    Except Failure (Settings × List DiffRecord) := do
  let settings ← loadSettings config d
  let records ← (Dataset.load d dataset).mapError (.dataset dataset)
  return (settings, records)

/-- Reports on the records of a data set. The summary is left out of a quiet run. -/
def runBatch (grammar : Grammar) (config : Option String) (quiet : Bool) (dataset : String)
    (log : LogChoice) (host : Host) : RunResult :=
  match prepareBatch config dataset host.disk with
  | .error f => .failed f host
  | .ok (settings, records) =>
    let (refusals, sinks, host) := openSinks settings.console (log.path? settings) host
    let pipeline := Pipeline.standard (Language.c.parse grammar) settings.matching
    let r := pipeline.runBatch records sinks host
    .ofFailure? (sinkFailure? (refusals ++ r.errors)) (if quiet then [] else [.summary r.summary])
      (closeSinks r.sinks r.world)

/-- The tree of a source file. -/
def prepareTree (grammar : Grammar) (file : String) (d : Disk) : Except Failure Tree := do
  let source ← readInput d file
  let language ← chooseLanguage file
  (language.parse grammar source).mapError (.parseFailed file)

/-- Prints the outline of a source file. -/
def runTree (grammar : Grammar) (file : String) (host : Host) : RunResult :=
  match prepareTree grammar file host.disk with
  | .error f => .failed f host
  | .ok tree => finishPrinting tree.outline none host

/-- Runs a command. -/
def Invocation.run (i : Invocation) (grammar : Grammar) (host : Host) : RunResult :=
  match i.command with
  | .diff before after log format showActions =>
    runDiff grammar i.config before after log format showActions host
  | .batch dataset log => runBatch grammar i.config i.quiet dataset log host
  | .tree file => runTree grammar file host

/-! ## The program -/

/-- The name and the version of the program. -/
def versionText : String := "calldiff 0.1.0\n"

/-- How the program is used. -/
def helpText : String :=
  "Report function calls added, removed or renamed between two versions of a source file\n\n" ++
    "Usage: calldiff [OPTIONS] <COMMAND>\n\nCommands:\n" ++
    "  diff   Report call changes between two versions of a source file\n" ++
    "  batch  Run the report over a JSON dataset of before/after pairs\n" ++
    "  tree   Print the lowered syntax tree of a source file\n"

/-- Prints a text, as far as there is room. -/
def Host.show (host : Host) (text : String) : Host :=
  { host with output := (host.output.print text).2 }

/-- Runs a command line. -/
def runArguments (grammar : Grammar) (environment : Option String) (arguments : List String)
    (host : Host) : RunResult :=
  match Invocation.ofArguments environment arguments with
  | .ok i => i.run grammar host
  | .error .usage => { status := 2, messages := [], host }
  | .error .help => { status := 0, messages := [], host := host.show helpText }
  | .error .version => { status := 0, messages := [], host := host.show versionText }

namespace Message

/-- The text of a message, where a batch took so many milliseconds. -/
def text (elapsed : String) : Message → String
  | summary s =>
    toString s.records ++ " records: " ++ toString s.reported ++ " reported, " ++
      toString s.skipped ++ " skipped (" ++ toString s.inserted ++ " inserted, " ++
      toString s.deleted ++ " deleted, " ++ toString s.renamed ++ " renamed) in " ++
      elapsed ++ " ms"
  | failure f => "Error: " ++ f.text

end Message

end CallDelta
