import CallDelta.Toml.Value

/-!
# Faults of TOML documents

A document may be unreadable, contradict itself or hold a value that is not of the type one needs.
The complaint says which, with the line on which the fault was found; a text of the wrong type is
repeated in it, and so are the keys of a contradiction.
-/

namespace CallDelta

/-- What is wrong with a document, and where. -/
inductive TomlFault where
  /-- One cannot read on. -/
  | unreadable (place : Place)
  /-- A statement contradicts an earlier one. -/
  | conflict (place : Place) (cause : KeyConflict)
  /-- A value does not have the type that is needed. -/
  | misfit (place : Place) (value : Toml)

namespace TomlFault

/-- Where the fault is. -/
def place : TomlFault → Place
  | unreadable place | conflict place _ | misfit place _ => place

/-- What the fault is. -/
def what : TomlFault → String
  | unreadable _ => "invalid document"
  | conflict _ cause => cause.message
  | misfit _ (.string s) => "invalid type: string \"" ++ s ++ "\""
  | misfit _ v => "invalid type: " ++ v.kindName

/-- The line of a place. At the very end that is the line of the last character. -/
def lineAt (source : List Char) (place : Place) : String :=
  let before := source.take (min (source.length - place.length) (source.length - 1))
  let start := (before.reverse.takeWhile (· != '\n')).reverse
  let rest := (source.drop before.length).takeWhile (· != '\n')
  String.ofList (start ++ rest)

/-- The complaint about a fault of a document. -/
def message (source : List Char) (fault : TomlFault) : String :=
  "TOML parse error: " ++ lineAt source fault.place ++ ": " ++ fault.what

end TomlFault

end CallDelta
