/-!
# Failures and their wording

What can go wrong, by part of the program: the operating system and the streams on top of it
(`IoError`), reading source text (`SourceError`), the settings (`ConfigError`), the report's sinks
(`ReportError`) and the data set (`DatasetError`). `DiffError` joins the last four. Every failure
has one `message`; `causes` are the messages of the failures that it wraps, outermost first.
-/

namespace CallDelta

/-- A refusal by the operating system. -/
inductive OsError where
  | notFound
  | alreadyExists
  | notDirectory
  | isDirectory
  | noSpace
  | brokenPipe
  deriving DecidableEq

namespace OsError

/-- The system's number for the refusal. -/
def code : OsError → Nat
  | notFound => 2
  | alreadyExists => 17
  | notDirectory => 20
  | isDirectory => 21
  | noSpace => 28
  | brokenPipe => 32

/-- The system's words for the refusal. -/
def description : OsError → String
  | notFound => "No such file or directory"
  | alreadyExists => "File exists"
  | notDirectory => "Not a directory"
  | isDirectory => "Is a directory"
  | noSpace => "No space left on device"
  | brokenPipe => "Broken pipe"

/-- The words with the number behind them. -/
def message (e : OsError) : String :=
  e.description ++ " (os error " ++ toString e.code ++ ")"

end OsError

/-- A failed read or write. -/
inductive IoError where
  | os (cause : OsError)
  /-- The bytes of a text are not UTF-8. -/
  | invalidText
  /-- A failure that brings its own words. -/
  | other (text : String)
  deriving DecidableEq

/-- The wording of a failed read or write. -/
def IoError.message : IoError → String
  | os cause => cause.message
  | invalidText => "stream did not contain valid UTF-8"
  | other text => text

/-- Source text could not be turned into a tree. -/
inductive SourceError where
  | parse (path text : String)
  | unsupportedLanguage (path : String)
  /-- The grammar could not be set up. -/
  | grammar (text : String)
  | io (cause : IoError)
  deriving DecidableEq

namespace SourceError

/-- The wording. -/
def message : SourceError → String
  | parse path text => "Parse error in " ++ path ++ ": " ++ text
  | unsupportedLanguage path => "Unsupported language: " ++ path
  | grammar text => "Tree-sitter error: " ++ text
  | io cause => "IO error: " ++ cause.message

/-- The messages of the wrapped failures. -/
def causes : SourceError → List String
  | io cause => [cause.message]
  | _ => []

end SourceError

/-- The settings could not be had. -/
inductive ConfigError where
  | notFound (path : String)
  | invalid (text : String)
  | parse (text : String)
  deriving DecidableEq

/-- The wording. -/
def ConfigError.message : ConfigError → String
  | notFound path => "Config file not found: " ++ path
  | invalid text => "Invalid config: " ++ text
  | parse text => "Cannot parse config: " ++ text

/-- A report did not reach a sink. -/
inductive ReportError where
  | cannotOpen (path : String) (cause : IoError)
  | cannotWrite (sink : String) (cause : IoError)
  deriving DecidableEq

namespace ReportError

/-- The wording. -/
def message : ReportError → String
  | cannotOpen path cause => "Cannot open log sink " ++ path ++ ": " ++ cause.message
  | cannotWrite sink cause => "Write to " ++ sink ++ " sink failed: " ++ cause.message

/-- The messages of the wrapped failures. -/
def causes : ReportError → List String
  | cannotOpen _ cause => [cause.message]
  | cannotWrite _ cause => [cause.message]

end ReportError

/-- The data set could not be had. -/
inductive DatasetError where
  | notFound (path : String)
  | malformed (path text : String)
  | io (cause : IoError)
  deriving DecidableEq

namespace DatasetError

/-- The wording. -/
def message : DatasetError → String
  | notFound path => "Input not found: " ++ path
  | malformed path text => "Malformed dataset " ++ path ++ ": " ++ text
  | io cause => "IO error: " ++ cause.message

/-- The messages of the wrapped failures. -/
def causes : DatasetError → List String
  | io cause => [cause.message]
  | _ => []

end DatasetError

/-- A failure of any part. -/
inductive DiffError where
  | source (cause : SourceError)
  | config (cause : ConfigError)
  | report (cause : ReportError)
  | dataset (cause : DatasetError)
  deriving DecidableEq

namespace DiffError

/-- The wording names the part and repeats the wording of its failure. -/
def message : DiffError → String
  | source cause => "Parse error: " ++ cause.message
  | config cause => "Configuration error: " ++ cause.message
  | report cause => "Report error: " ++ cause.message
  | dataset cause => "Dataset error: " ++ cause.message

/-- The messages of the wrapped failures. -/
def causes : DiffError → List String
  | source cause => cause.message :: cause.causes
  | config cause => [cause.message]
  | report cause => cause.message :: cause.causes
  | dataset cause => cause.message :: cause.causes

end DiffError

end CallDelta
