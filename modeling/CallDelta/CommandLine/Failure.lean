import CallDelta.Error

/-!
# How a run fails

A run that fails prints one line: what could not be done, and the messages of all causes behind it,
with colons between them. The exit status is read off that line, by the words in it.
-/

namespace CallDelta

/-- Why a run failed. -/
inductive Failure where
  | workingDirectory (cause : OsError)
  | settings (cause : ConfigError)
  | inputMissing (path : String)
  | inputUnreadable (path : String) (cause : IoError)
  | noLanguage (path : String) (cause : SourceError)
  | diffFailed (before after : String) (cause : SourceError)
  | parseFailed (path : String) (cause : SourceError)
  | dataset (path : String) (cause : DatasetError)
  | sinks (errors : List ReportError)
  deriving DecidableEq

namespace Failure

/-- A failure of a part of the program, with its causes. -/
def chain (e : DiffError) : List String := e.message :: e.causes

/-- What could not be done, and the causes behind it. -/
def layers : Failure → List String
  | workingDirectory cause => ["Cannot read working directory", cause.message]
  | settings cause => ["Cannot load config", cause.message]
  | inputMissing path => ["Input not found: " ++ path]
  | inputUnreadable path cause => ["Cannot read " ++ path, cause.message]
  | noLanguage path cause =>
    ("Cannot choose a parser for " ++ path) :: cause.message :: cause.causes
  | diffFailed before after cause =>
    ("Cannot diff " ++ before ++ " against " ++ after) :: chain (.source cause)
  | parseFailed path cause => ("Cannot parse " ++ path) :: chain (.source cause)
  | dataset path cause => ("Cannot load dataset " ++ path) :: chain (.dataset cause)
  | sinks errors =>
    [toString errors.length ++ " report sink(s) failed: " ++
      "; ".intercalate (errors.map ReportError.message)]

/-- The whole text. -/
def text (f : Failure) : String := ": ".intercalate f.layers

/-- The lower case of a character, as far as it matters for ASCII words: the Kelvin sign is a
capital k. -/
def lowerChar (c : Char) : Char := if c = '\u212A' then 'k' else c.toLower

/-- Whether a word occurs in a text. -/
def mentions (word : List Char) : List Char → Bool
  | [] => word.isEmpty
  | c :: cs => word.isPrefixOf (c :: cs) || mentions word cs

/-- The exit status for a text. The first word that occurs decides, whatever the case of the
text. -/
def statusOf (text : String) : Nat :=
  let lower := text.toList.map lowerChar
  let has (word : String) := mentions word.toList lower
  if has "input not found" then 3
  else if has "sink" then 4
  else if has "config" then 2
  else if has "parse error" then 5
  else 1

/-- The exit status of a failed run. -/
def exitStatus (f : Failure) : Nat := statusOf f.text

end Failure

end CallDelta
