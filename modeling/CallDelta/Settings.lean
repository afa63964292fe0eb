import CallDelta.Decimal.Shortest
import CallDelta.Files.Disk
import CallDelta.Matching.Problem
import CallDelta.Toml.Reader

/-!
# Settings

The settings come from a TOML document with two sections, `report` and `matcher`. Everything has a
default, and what the program does not know is ignored. A section is a table, or an array of its
values in order.
-/

namespace CallDelta

/-- The settings of the program. -/
structure Settings where
  /-- The log file, if there is one. -/
  logPath : Option String := none
  /-- Whether the report is printed. -/
  console : Bool := true
  matching : MatchOptions := {}

namespace Settings

/-- Whether two settings are the same. A threshold that is no number is not the same as itself. -/
instance : BEq Settings where
  beq a b :=
    a.logPath == b.logPath && a.console == b.console &&
      a.matching.minHeight == b.matching.minHeight && a.matching.threshold == b.matching.threshold

/-! ## Checking -/

/-- What is wrong with the values, if anything is. -/
def invalidity? (s : Settings) : Option String :=
  if s.matching.minHeight = 0 then some "matcher.min_height must be at least 1"
  else if !(0 ≤ s.matching.threshold && s.matching.threshold ≤ 1) then
    some ("matcher.similarity_threshold must be within [0, 1], got " ++
      Float.shortest s.matching.threshold)
  else if s.logPath = some "" then some "report.log_path is empty"
  else none

/-- The settings, if nothing is wrong with their values. -/
def validate (s : Settings) : Except ConfigError Settings :=
  match s.invalidity? with
  | none => .ok s
  | some text => .error (.invalid text)

/-! ## Reading -/

/-- Takes note of a value at a place. -/
abbrev ValueReader : Type := Place → Toml → Settings → Except TomlFault Settings

/-- Takes note of a value of a type. -/
def valueReader {α : Type} (read : Toml → Option α) (set : Settings → α → Settings) : ValueReader :=
  fun place v s =>
    match read v with
    | some a => .ok (set s a)
    | none => .error (.misfit place v)

/-- Takes note of the entries of a table in their order, by the readers with their names. The first
that does not fit decides. -/
def readTable (readers : List (String × ValueReader)) (entries : TomlEntries) (s : Settings) :
    Except TomlFault Settings :=
  entries.foldlM
    (fun s (name, place, v) =>
      match readers.lookup name with
      | some read => read place v s
      | none => .ok s)
    s

/-- Takes note of the elements of an array, by one reader after another. -/
def readArray (readers : List (String × ValueReader)) (elements : List (Place × Toml))
    (s : Settings) : Except TomlFault Settings :=
  (readers.zip elements).foldlM (fun s ((_, read), (place, v)) => read place v s) s

/-- Takes note of a section. A date is read as an empty section. -/
def readSection (readers : List (String × ValueReader)) : ValueReader := fun place v s =>
  match v with
  | .table _ entries => readTable readers entries s
  | .array elements => readArray readers elements s
  | .moment => .ok s
  | v => .error (.misfit place v)

/-- A path. -/
def path? : Toml → Option String
  | .string s => some s
  | _ => none

/-- A truth value. -/
def flag? : Toml → Option Bool
  | .boolean b => some b
  | _ => none

/-- A number of levels. -/
def height? : Toml → Option Nat
  | .integer n => if 0 ≤ n then some n.toNat else none
  | _ => none

/-- A share. Whole numbers are rounded to the nearest double. -/
def share? : Toml → Option Float
  | .integer n =>
    some { negative := decide (n < 0), mantissa := n.natAbs, exponent := 0 : Decimal }.toFloat
  | .float x => some x
  | _ => none

/-- The values of the section `report`. -/
def reportReaders : List (String × ValueReader) :=
  [("log_path", valueReader path? (fun s path => { s with logPath := some path })),
    ("console", valueReader flag? (fun s console => { s with console }))]

/-- The values of the section `matcher`. -/
def matcherReaders : List (String × ValueReader) :=
  [("min_height",
      valueReader height?
        (fun s minHeight => { s with matching := { s.matching with minHeight } })),
    ("similarity_threshold",
      valueReader share? (fun s threshold => { s with matching := { s.matching with threshold } }))]

/-- The settings of a document. -/
def ofEntries (document : TomlEntries) : Except TomlFault Settings :=
  readTable [("report", readSection reportReaders), ("matcher", readSection matcherReaders)]
    document {}

/-- The settings of a text. -/
def ofText (source : String) : Except ConfigError Settings :=
  let cs := Toml.sourceChars source
  match (Toml.read cs).bind ofEntries with
  | .ok settings => settings.validate
  | .error fault => .error (.parse (fault.message cs))

/-- The settings of the file at a path. -/
def load (d : Disk) (path : String) : Except ConfigError Settings :=
  if d.isFile path then
    match d.readText path with
    | .error e => .error (.parse (path ++ ": " ++ e.message))
    | .ok source => ofText source
  else
    .error (.notFound path)

/-- The name of the file that is looked up if no other is given. -/
def fileName : String := "calldiff.toml"

/-- The settings of a directory: those of its file, or the defaults if it has none. -/
def loadOrDefault (d : Disk) (directory : String) : Except ConfigError Settings :=
  let path := Path.inDirectory directory fileName
  if d.isFile path then load d path else .ok {}

end Settings

end CallDelta
