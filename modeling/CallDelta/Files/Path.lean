/-!
# Paths

A path is written with slashes between its parts. Empty parts do not count, and neither does a `.`
behind the first place. The last part is the name of the file, unless it leads back (`.` or `..`).
-/

namespace CallDelta

/-- The stretches between separators. There is always at least one. -/
def splitAtChar (sep : Char) : List Char → List (List Char)
  | [] => [[]]
  | c :: cs =>
    if c = sep then [] :: splitAtChar sep cs
    else
      match splitAtChar sep cs with
      | [] => [[c]]
      | part :: parts => (c :: part) :: parts

/-- A path by its parts. -/
structure Path where
  /-- Whether the path starts at the root. -/
  absolute : Bool
  parts : List String
  deriving DecidableEq

namespace Path

/-- Whether a text starts with a slash. -/
def startsAtRoot (text : String) : Bool := text.toList.head? == some '/'

/-- Whether a text ends with a slash. -/
def endsInSlash (text : String) : Bool := text.toList.getLast? == some '/'

/-- All parts of a written path that are not empty. -/
def rawParts (text : String) : List String :=
  ((splitAtChar '/' text.toList).filter (fun part => !part.isEmpty)).map String.ofList

/-- Drops each `.` behind the first place, and also there if the path starts at the root. -/
def ofString (text : String) : Path :=
  let absolute := startsAtRoot text
  let keep (parts : List String) := parts.filter (· != ".")
  match absolute, rawParts text with
  | false, "." :: parts => { absolute, parts := "." :: keep parts }
  | _, parts => { absolute, parts := keep parts }

/-- The path of the directory around, if the path has a part. -/
def parent? (p : Path) : Option Path :=
  if p.parts.isEmpty then none else some { p with parts := p.parts.dropLast }

/-- A relative path without parts names nothing. -/
def isEmpty (p : Path) : Bool := !p.absolute && p.parts.isEmpty

/-- The last part, unless it leads back. -/
def fileName? (p : Path) : Option String :=
  p.parts.getLast?.filter (fun name => name != "." && name != "..")

/-- What stands behind the last dot of the file name. A dot at the front does not begin an
extension.
-/
def extension? (p : Path) : Option String := do
  let pieces := splitAtChar '.' (← p.fileName?).toList
  match pieces with
  | [] | [_] | [[], _] => none
  | _ => pieces.getLast?.map String.ofList

/-- The path of a file in a directory, as text. -/
def inDirectory (directory name : String) : String :=
  if startsAtRoot name || directory.isEmpty then name
  else if endsInSlash directory then directory ++ name
  else directory ++ "/" ++ name

end Path

end CallDelta
