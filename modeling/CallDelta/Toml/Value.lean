import CallDelta.Toml.Text

/-!
# TOML values and tables

A document is a table of named values. Tables are made in four ways, and the way decides who may add
to a table later: under a header of its own (`header`), on the way to a deeper header (`implied`),
by a dotted key (`dotted`), and in braces (`inline`). `TomlEntries.assign`, `TomlEntries.openTable`
and `TomlEntries.appendTable` are the three statements of a document. A statement that contradicts
an earlier one fails with a `KeyConflict`.

Beside each value stands the place of its start.
-/

namespace CallDelta

/-- How a table came about. -/
inductive TableOrigin where
  | header
  | implied
  | dotted
  | inline
  deriving DecidableEq

/-- A TOML value. -/
inductive Toml where
  | string (s : String)
  | integer (n : Int)
  | float (x : Float)
  | boolean (b : Bool)
  /-- A date, a time or both. -/
  | moment
  | array (elements : List (Place × Toml))
  | table (origin : TableOrigin) (entries : List (String × Place × Toml))
  /-- The tables under a header in double brackets. There is at least one. The earlier ones stand
  latest first. -/
  | tables (earlier : List (List (String × Place × Toml))) (last : List (String × Place × Toml))

/-- The named values of a table. -/
abbrev TomlEntries : Type := List (String × Place × Toml)

/-- The kind of a value, in words. -/
def Toml.kindName : Toml → String
  | string _ => "string"
  | integer _ => "integer"
  | float _ => "float"
  | boolean _ => "boolean"
  | moment => "datetime"
  | array _ => "array"
  | table .inline _ => "inline table"
  | table _ _ => "table"
  | tables _ _ => "array of tables"

/-- Why a statement cannot be added to a document. -/
inductive KeyConflict where
  /-- The key has a value already, in the table with the given path if that is known. -/
  | taken (key : String) (table : Option (List String))
  /-- The path leads into a value of the given kind. -/
  | notTable (path : List String) (kind : String)
  deriving DecidableEq

/-- The wording of a conflict. -/
def KeyConflict.message : KeyConflict → String
  | taken key none => "duplicate key `" ++ key ++ "`"
  | taken key (some []) => "duplicate key `" ++ key ++ "` in document root"
  | taken key (some path) =>
    "duplicate key `" ++ key ++ "` in table `" ++ ".".intercalate path ++ "`"
  | notTable path kind =>
    "dotted key `" ++ ".".intercalate path ++ "` attempted to extend non-table type (" ++
      kind ++ ")"

namespace TomlEntries

/-- The value with a name, and its place. -/
def find? (entries : TomlEntries) (name : String) : Option (Place × Toml) := entries.lookup name

/-- Changes the value with a name, or adds it at the end. -/
def put (name : String) (place : Place) (v : Toml) : TomlEntries → TomlEntries
  | [] => [(name, place, v)]
  | (other, old) :: rest =>
    if other = name then (name, place, v) :: rest else (other, old) :: put name place v rest

/-- Adds a value at the end, in the place of one with the same name. -/
def putLast (name : String) (place : Place) (v : Toml) (entries : TomlEntries) : TomlEntries :=
  entries.filter (fun entry => entry.1 != name) ++ [(name, place, v)]

end TomlEntries

/-- How one gets to a deeper table. -/
inductive Descent where
  /-- By the parts of a header. -/
  | byHeader
  /-- By the parts of a dotted key. -/
  | byKey
  /-- By the parts of a dotted key in braces. -/
  | inBraces
  deriving DecidableEq

namespace Descent

/-- The origin of a table that is made on the way. -/
def origin : Descent → TableOrigin
  | byHeader => .implied
  | byKey | inBraces => .dotted

/-- What keeps one from going on into a table, if anything does. A dotted key does not reach into a
table that has a header, and nothing reaches into a table that is complete. `walked` is the path up
to the table, and `name` its last part. -/
def obstacle? (mode : Descent) (walked : List String) (name : String) :
    TableOrigin → Option KeyConflict
  | .header => if mode = byHeader then none else some (.taken name none)
  | .implied | .dotted => none
  | .inline =>
    if mode = inBraces then some (.taken name none) else some (.notTable walked "inline table")

end Descent

namespace TomlEntries

/-- Changes the table at the end of a path, behind a path `walked` before. Missing tables are made
on the way, and of several tables under one header the last is taken. Fails where the path meets
another value. -/
def updateAt (mode : Descent) (place : Place)
    (change : TableOrigin → TomlEntries → Except KeyConflict TomlEntries) (walked : List String) :
    List String → TableOrigin → TomlEntries → Except KeyConflict TomlEntries
  | [], origin, entries => change origin entries
  | name :: path, _, entries =>
    let walked := walked ++ [name]
    match entries.find? name with
    | none => do
      let inner ← updateAt mode place change walked path mode.origin []
      .ok (entries.put name place (.table mode.origin inner))
    | some (old, .table origin inner) =>
      match mode.obstacle? walked name origin with
      | some conflict => .error conflict
      | none => do
        let inner ← updateAt mode place change walked path origin inner
        .ok (entries.put name old (.table origin inner))
    | some (old, .tables earlier last) => do
      let last ← updateAt mode place change walked path .header last
      .ok (entries.put name old (.tables earlier last))
    | some (_, v) => .error (.notTable walked v.kindName)

/-- Adds a value under a dotted key, where `table` is the path of the table that the key starts
from. The table that takes the value was made by a dotted key exactly if the key has several
parts. -/
def assign (mode : Descent) (table : Option (List String)) (path : List String) (name : String)
    (place : Place) (v : Toml) (origin : TableOrigin) (entries : TomlEntries) :
    Except KeyConflict TomlEntries :=
  updateAt mode place
    (fun origin entries =>
      if (origin == .dotted) == path.isEmpty then .error (.taken name none)
      else if (entries.find? name).isSome then .error (.taken name table)
      else .ok (entries ++ [(name, place, v)]))
    [] path origin entries

/-- Opens the table of a header. It may be there only as an implied one, and then moves to the
end. -/
def openTable (path : List String) (name : String) (place : Place) (entries : TomlEntries) :
    Except KeyConflict TomlEntries :=
  updateAt .byHeader place
    (fun _ entries =>
      match entries.find? name with
      | none => .ok (entries.putLast name place (.table .header []))
      | some (_, .table .implied inner) => .ok (entries.putLast name place (.table .header inner))
      | some _ => .error (.taken name (some path)))
    [] path .header entries

/-- Opens one more table of a header in double brackets. -/
def appendTable (path : List String) (name : String) (place : Place) (entries : TomlEntries) :
    Except KeyConflict TomlEntries :=
  updateAt .byHeader place
    (fun _ entries =>
      match entries.find? name with
      | none => .ok (entries.putLast name place (.tables [] []))
      | some (old, .tables earlier last) =>
        .ok (entries.put name old (.tables (last :: earlier) []))
      | some _ => .error (.taken name (some path)))
    [] path .header entries

end TomlEntries

end CallDelta
