/-!
# Arguments

A command line has a common part, the name of a command and the part of the command. Three options
may stand in either part: `-v`, `-q` and `--config`. An option with a value takes the next argument
or what stands behind an equals sign; flags of one letter may be joined. No option but `-v` is
repeated within a part, and behind `--` every argument is an operand.

Arguments are read from left to right, so whichever comes first decides: a mistake, or the wish to
see the help or the version. A value that is an argument of its own is looked at only when the part
goes on behind it, or else when all has been read.

The name `help` stands for a command too. What follows it names the command to be explained.
-/

namespace CallDelta

/-- The options. -/
inductive OptionName where
  | verbose
  | quiet
  | config
  | log
  | noLog
  | format
  | showActions
  | help
  | version
  deriving DecidableEq

namespace OptionName

/-- The name behind two dashes. -/
def long : OptionName → String
  | verbose => "verbose"
  | quiet => "quiet"
  | config => "config"
  | log => "log"
  | noLog => "no-log"
  | format => "format"
  | showActions => "show-actions"
  | help => "help"
  | version => "version"

/-- The letter behind one dash. -/
def letter? : OptionName → Option Char
  | verbose => some 'v'
  | quiet => some 'q'
  | help => some 'h'
  | version => some 'V'
  | _ => none

/-- Whether a value follows. -/
def takesValue : OptionName → Bool
  | config | log | format => true
  | _ => false

/-- The options that may stand in either part. -/
def common : List OptionName := [verbose, quiet, config, help]

end OptionName

/-- The commands. -/
inductive CommandName where
  | diff
  | batch
  | tree
  deriving DecidableEq

namespace CommandName

/-- The name on the command line. -/
def text : CommandName → String
  | diff => "diff"
  | batch => "batch"
  | tree => "tree"

/-- All commands. -/
def all : List CommandName := [diff, batch, tree]

/-- The options in the part of a command. -/
def options : CommandName → List OptionName
  | diff => OptionName.common ++ [.log, .noLog, .format, .showActions]
  | batch => OptionName.common ++ [.log, .noLog]
  | tree => OptionName.common

/-- The number of operands of a command. -/
def operands : CommandName → Nat
  | diff => 2
  | batch => 1
  | tree => 1

end CommandName

/-- How the outcome of a diff is shown. -/
inductive OutputFormat where
  | text
  | json
  deriving DecidableEq

/-- The format with a name. -/
def OutputFormat.ofName? : String → Option OutputFormat
  | "text" => some text
  | "json" => some json
  | _ => none

/-- Why no command is run. -/
inductive Halt where
  /-- The command line is wrong. -/
  | usage
  | help
  | version
  deriving DecidableEq

/-- What one part of a command line gives. -/
structure Given where
  verbosity : Nat := 0
  quiet : Bool := false
  config : Option String := none
  log : Option String := none
  noLog : Bool := false
  format : Option OutputFormat := none
  showActions : Bool := false
  operands : List String := []
  /-- An option whose value has not been looked at. -/
  pending : Option (OptionName × String) := none
  deriving DecidableEq

namespace Given

/-- Sets something that may be given once. -/
def once (set : Bool) (g : Given) : Except Halt Given := if set then .error .usage else .ok g

/-- Takes note of a flag. -/
def flag (g : Given) : OptionName → Except Halt Given
  | .verbose => .ok { g with verbosity := g.verbosity + 1 }
  | .quiet => once g.quiet { g with quiet := true }
  | .noLog => once g.noLog { g with noLog := true }
  | .showActions => once g.showActions { g with showActions := true }
  | .help => .error .help
  | .version => .error .version
  | .config | .log | .format => .error .usage

/-- Takes note of an option with a value. A path is not empty. -/
def withValue (g : Given) (value : String) : OptionName → Except Halt Given
  | .config => once (g.config.isSome || value.isEmpty) { g with config := some value }
  | .log => once (g.log.isSome || value.isEmpty) { g with log := some value }
  | .format =>
    match OutputFormat.ofName? value with
    | some format => once g.format.isSome { g with format := some format }
    | none => .error .usage
  | _ => .error .usage

/-- Looks at the value that has not been looked at, if there is one. -/
def settle (g : Given) : Except Halt Given :=
  match g.pending with
  | some (o, value) => { g with pending := none }.withValue value o
  | none => .ok g

/-- Takes note of an operand, of which there may be so many. -/
def operand (g : Given) (room : Nat) (text : String) : Except Halt Given :=
  if g.operands.length < room && !text.isEmpty then .ok { g with operands := g.operands ++ [text] }
  else .error .usage

end Given

/-- What an argument looks like. -/
inductive Argument where
  /-- Two dashes and nothing else. -/
  | divider
  | long (name : String) (value : Option String)
  | letters (letters : List Char)
  | operand (text : String)
  deriving DecidableEq

namespace Argument

/-- Takes a long option apart at its first equals sign. -/
def ofLong (cs : List Char) : Argument :=
  let name := String.ofList (cs.takeWhile (· != '='))
  match cs.dropWhile (· != '=') with
  | [] => long name none
  | _ :: value => long name (some (String.ofList value))

/-- What an argument looks like. One dash alone is an operand. -/
def ofText (text : String) : Argument :=
  match text.toList with
  | ['-', '-'] => divider
  | '-' :: '-' :: cs => ofLong cs
  | '-' :: c :: cs => letters (c :: cs)
  | _ => operand text

end Argument

/-- The option with a name among some. -/
def longOption? (accepted : List OptionName) (name : String) : Option OptionName :=
  accepted.find? (fun o => o.long == name)

/-- Takes note of joined flags. -/
def readLetters (accepted : List OptionName) (g : Given) (letters : List Char) :
    Except Halt Given :=
  letters.foldlM
    (fun g c =>
      match accepted.find? (fun o => o.letter? == some c) with
      | some o => g.flag o
      | none => .error .usage)
    g

/-- Takes note of a long option and gives what is left. The value of an option may be the next
argument, unless that looks like an option itself. -/
def readLong (accepted : List OptionName) (g : Given) (name : String) (value : Option String)
    (rest : List String) : Except Halt (Given × List String) :=
  match longOption? accepted name with
  | none => .error .usage
  | some o =>
    match o.takesValue, value, rest with
    | false, none, _ => (g.flag o).map (·, rest)
    | false, some _, _ => .error .usage
    | true, some value, _ => (g.withValue value o).map (·, rest)
    | true, none, [] => .error .usage
    | true, none, next :: rest =>
      match Argument.ofText next with
      | .operand value => .ok ({ g with pending := some (o, value) }, rest)
      | _ => .error .usage

theorem length_of_readLong {accepted : List OptionName} {g g' : Given} {name : String}
    {value : Option String} {rest rest' : List String}
    (h : readLong accepted g name value rest = .ok (g', rest')) : rest'.length ≤ rest.length := by
  have map_ok {e : Except Halt Given} {r : List String} (h : e.map (·, r) = .ok (g', rest')) :
      rest' = r := by
    cases e with
    | error _ => simp [Except.map] at h
    | ok _ => simp only [Except.map, Except.ok.injEq, Prod.mk.injEq] at h; exact h.2.symm
  unfold readLong at h
  split at h
  · simp at h
  · split at h
    · simp [map_ok h]
    · simp at h
    · simp [map_ok h]
    · simp at h
    · split at h
      · simp only [Except.ok.injEq, Prod.mk.injEq] at h
        simp [← h.2]
      · simp at h

/-- Reads a part of a command line, where `accepted` are its options. With `room` for operands the
part goes to the end; without, its first operand ends it. Beside what was given stands what is left.
-/
def readPart (accepted : List OptionName) (room : Option Nat) (g : Given)
    (arguments : List String) : Except Halt (Given × List String) :=
  match arguments with
  | [] => .ok (g, [])
  | text :: rest =>
    match Argument.ofText text, room with
    | .operand _, none => .ok (g, text :: rest)
    | argument, _ =>
      match g.settle with
      | .error halt => .error halt
      | .ok g =>
        match argument, room with
        | .divider, none => .error .usage
        | .divider, some n => (rest.foldlM (fun (g : Given) t => g.operand n t) g).map (·, [])
        | .operand text, room =>
          match g.operand (room.getD 0) text with
          | .ok g => readPart accepted room g rest
          | .error halt => .error halt
        | .letters letters, _ =>
          match readLetters accepted g letters with
          | .ok g => readPart accepted room g rest
          | .error halt => .error halt
        | .long name value, _ =>
          match _h : readLong accepted g name value rest with
          | .ok (g, rest') => readPart accepted room g rest'
          | .error halt => .error halt
termination_by arguments.length
decreasing_by
  · simp
  · simp
  · have := length_of_readLong _h
    simp only [List.length_cons]
    omega

/-- What to do about the log file. -/
inductive LogChoice where
  /-- As the settings say. -/
  | configured
  | file (path : String)
  | never
  deriving DecidableEq

/-- A command with its operands and options. -/
inductive Command where
  | diff (before after : String) (log : LogChoice) (format : OutputFormat) (showActions : Bool)
  | batch (dataset : String) (log : LogChoice)
  | tree (file : String)
  deriving DecidableEq

/-- A command line that is in order. -/
structure Invocation where
  quiet : Bool
  /-- The file with the settings, if one is named. -/
  config : Option String
  command : Command
  deriving DecidableEq

namespace Given

/-- The choice about the log file. A file and no file do not go together. -/
def logChoice (g : Given) : Except Halt LogChoice :=
  match g.noLog, g.log with
  | true, some _ => .error .usage
  | true, none => .ok .never
  | false, some path => .ok (.file path)
  | false, none => .ok .configured

/-- The command of a part. All operands have to be there. -/
def command (g : Given) : CommandName → Except Halt Command
  | .diff =>
    match g.operands with
    | [before, after] => do
      .ok (.diff before after (← g.logChoice) (g.format.getD .text) g.showActions)
    | _ => .error .usage
  | .batch =>
    match g.operands with
    | [dataset] => do .ok (.batch dataset (← g.logChoice))
    | _ => .error .usage
  | .tree =>
    match g.operands with
    | [file] => .ok (.tree file)
    | _ => .error .usage

end Given

/-- The file with the settings. The part of the command goes before the common part, and both go
before the environment, which is consulted for each part that names no file and may not be empty
then.
-/
def configPath (common own : Given) (environment : Option String) : Except Halt (Option String) :=
  if environment = some "" && !(common.config.isSome && own.config.isSome) then .error .usage
  else .ok (own.config.or (common.config.or environment))

/-- What comes of the name `help`, by the names behind it. At most one command is explained, and
`help` itself is one. -/
def helpOn : List String → Halt
  | [] => .help
  | [name] =>
    if name = "help" || CommandName.all.any (fun c => c.text == name) then .help else .usage
  | _ => .usage

/-- Reads a command line. `environment` is the file with the settings that the environment names. -/
def Invocation.ofArguments (environment : Option String) (arguments : List String) :
    Except Halt Invocation := do
  match ← readPart (OptionName.common ++ [.version]) none {} arguments with
  | (_, []) => .error .usage
  | (common, name :: rest) =>
    match CommandName.all.find? (fun c => c.text == name) with
    | none => .error (if name = "help" then helpOn rest else .usage)
    | some c =>
      let (own, _) ← readPart c.options (some c.operands) {} rest
      let own ← own.settle
      let command ← own.command c
      let common ← common.settle
      let config ← configPath common own environment
      .ok { quiet := common.quiet || own.quiet, config, command }

end CallDelta
