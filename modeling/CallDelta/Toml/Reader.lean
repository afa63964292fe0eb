import CallDelta.Toml.Fault
import CallDelta.Toml.Scalar

/-!
# Reading TOML documents

A document is a list of statements, one a line: a key with its value, a header in brackets or a
header in double brackets. Arrays may run over several lines and tables in braces may not. Values
are nested at most 79 deep and keys have at most 79 parts. What has more parts is read all the same
and is no key.

A statement is read to its end before it is added to the document, and so are the entries of a table
in braces. A contradiction is found where the statement starts, or behind the opening brace.

Repetitions are bounded by `size`, which no number of characters in the document reaches.
-/

namespace CallDelta.Toml

/-! ## Between the values -/

/-- Drops spaces and tabs. -/
def dropBlanks (cs : List Char) : List Char := cs.dropWhile isBlank

/-- A failure at the given rest of the document. -/
def stuck {α : Type} (rest : List Char) : Except TomlFault (WithRest α) :=
  .error (.unreadable rest)

/-- Reads blanks, line breaks and comments. A comment ends with a line break. -/
def readLayout (inComment : Bool) : List Char → Except TomlFault (WithRest Unit)
  | [] => if inComment then stuck [] else .ok ((), [])
  | c :: cs =>
    if c = '\n' || (c = '\r' && cs.head? = some '\n') then readLayout false cs
    else if c = '\r' then stuck (c :: cs)
    else if inComment then if isTextChar c then readLayout true cs else stuck (c :: cs)
    else if isBlank c then readLayout false cs
    else if c = '#' then readLayout true cs
    else .ok ((), c :: cs)

/-- Reads a character. -/
def expect (c : Char) (cs : List Char) : Except TomlFault (WithRest Unit) :=
  match takeChar c cs with
  | some rest => .ok ((), rest)
  | none => stuck cs

/-- Reads the end of a line, with blanks and a comment before it. -/
def readLineEnd (cs : List Char) : Except TomlFault (WithRest Unit) :=
  let cs := dropBlanks cs
  let cs := match cs with
    | '#' :: rest => rest.dropWhile isTextChar
    | _ => cs
  match cs with
  | [] => .ok ((), [])
  | '\n' :: rest => .ok ((), rest)
  | '\r' :: '\n' :: rest => .ok ((), rest)
  | _ => stuck cs

/-! ## Keys -/

/-- The characters of a key without quotes. -/
def isKeyChar (c : Char) : Bool := c.isAlphanum || c == '_' || c == '-'

/-- Reads one part of a key, if there is one. -/
def readKeyPart (cs : List Char) : Except TomlFault (Option (WithRest String)) :=
  match readLineText cs with
  | some (.ok reading) => .ok (some reading)
  | some (.error place) => .error (.unreadable place)
  | none =>
    let name := cs.takeWhile isKeyChar
    .ok (if name.isEmpty then none else some (String.ofList name, cs.dropWhile isKeyChar))

/-- Reads the parts of a key, as far as there are any, with blanks around each of them. A point
belongs to the part behind it. -/
def readKeyParts : (fuel : Nat) → List Char → Except TomlFault (WithRest (List String))
  | 0, cs => stuck cs
  | fuel + 1, cs => do
    match ← readKeyPart (dropBlanks cs) with
    | none => .ok ([], cs)
    | some (part, rest) =>
      match dropBlanks rest with
      | '.' :: rest =>
        match ← readKeyParts fuel rest with
        | ([], _) => .ok ([part], '.' :: rest)
        | (parts, rest) => .ok (part :: parts, rest)
      | rest => .ok ([part], rest)

/-- The number of parts that a key may not reach, and the depth that nested values may not reach. -/
def depthLimit : Nat := 80

/-- Reads a key, if there is one. -/
def readKey? (size : Nat) (cs : List Char) :
    Except TomlFault (Option (WithRest (List String))) := do
  let (parts, rest) ← readKeyParts size cs
  .ok (if parts.isEmpty || depthLimit ≤ parts.length then none else some (parts, rest))

/-- Reads a key that has to be there. -/
def readKey (size : Nat) (cs : List Char) : Except TomlFault (WithRest (List String)) := do
  match ← readKey? size cs with
  | some reading => .ok reading
  | none => stuck cs

/-! ## Values -/

/-- Reads the elements of an array up to the closing bracket, where `read` reads an element. What
cannot be skipped behind an element is blamed on the element. -/
def readElements (read : List Char → Except TomlFault (WithRest Toml)) : (fuel : Nat) → List Char →
    Except TomlFault (WithRest (List (Place × Toml)))
  | 0, cs => stuck cs
  | fuel + 1, cs => do
    match ← readLayout false cs with
    | ((), ']' :: cs) => .ok ([], cs)
    | ((), cs) =>
      let (v, rest) ← read cs
      match readLayout false rest with
      | .error _ => stuck cs
      | .ok ((), ',' :: rest) =>
        let (vs, rest) ← readElements read fuel rest
        .ok ((cs, v) :: vs, rest)
      | .ok ((), ']' :: rest) => .ok ([(cs, v)], rest)
      | .ok ((), rest) => stuck rest

/-- A key with its value. -/
structure Assignment where
  path : List String
  name : String
  /-- The place of the value. -/
  place : Place
  value : Toml

/-- Adds the value to a table, whose path is `table` if it has one. -/
def Assignment.addTo (a : Assignment) (mode : Descent) (table : Option (List String))
    (origin : TableOrigin) (entries : TomlEntries) : Except KeyConflict TomlEntries :=
  entries.assign mode table a.path a.name a.place a.value origin

/-- Reads the value of a key, where `read` reads a value. -/
def readAssigned (read : List Char → Except TomlFault (WithRest Toml)) (key : List String)
    (cs : List Char) : Except TomlFault (WithRest Assignment) := do
  let ((), cs) ← expect '=' cs
  let place := dropBlanks cs
  let (value, rest) ← read place
  .ok ({ path := key.dropLast, name := key.getLast?.getD "", place, value }, rest)

/-- Reads keys with their values, with commas between them, as far as there are any. A comma belongs
to the key behind it. -/
def readAssignments (size : Nat) (read : List Char → Except TomlFault (WithRest Toml)) :
    (fuel : Nat) → List Char → Except TomlFault (WithRest (List Assignment))
  | 0, cs => stuck cs
  | fuel + 1, cs => do
    match ← readKey? size cs with
    | none => .ok ([], dropBlanks cs)
    | some (key, cs) =>
      let (assignment, cs) ← readAssigned read key cs
      match dropBlanks cs with
      | ',' :: rest =>
        match ← readAssignments size read fuel rest with
        | ([], _) => .ok ([assignment], ',' :: rest)
        | (assignments, rest) => .ok (assignment :: assignments, rest)
      | rest => .ok ([assignment], rest)

/-- Reads a table in braces from behind the opening brace. -/
def readBraces (size : Nat) (read : List Char → Except TomlFault (WithRest Toml))
    (start : List Char) : Except TomlFault (WithRest TomlEntries) := do
  let (assignments, cs) ← readAssignments size read size start
  match assignments.foldlM (fun entries a => a.addTo .inBraces none .inline entries) [] with
  | .error conflict => .error (.conflict start conflict)
  | .ok entries =>
    let ((), rest) ← expect '\x7d' cs
    .ok (entries, rest)

/-- Reads a value that is not made of others. -/
def readScalar (cs : List Char) : Except TomlFault (WithRest Toml) :=
  match readText cs with
  | some reading =>
    match reading with
    | .ok (s, rest) => .ok (.string s, rest)
    | .error place => .error (.unreadable place)
  | none =>
    match readPlain cs with
    | .found v rest => .ok (v, rest)
    | .absent | .broken => stuck cs

/-- Reads a value that is nested at most to a depth. -/
def readValue (size : Nat) : (depth : Nat) → List Char → Except TomlFault (WithRest Toml)
  | 0, cs => readScalar cs
  | depth + 1, cs =>
    match cs with
    | '[' :: rest =>
      (readElements (readValue size depth) size rest).map (fun (vs, cs) => (.array vs, cs))
    | '\x7b' :: rest =>
      (readBraces size (readValue size depth) rest).map
        (fun (entries, cs) => (.table .inline entries, cs))
    | cs => readScalar cs

/-! ## Documents -/

/-- A document that has been read up to some statement. -/
structure Draft where
  entries : TomlEntries
  /-- The table that the next keys belong to. -/
  current : List String

/-- The document behind a statement, from what adding the statement gave. A conflict is found where
the statement starts. -/
def Draft.added (start rest : Place) (current : List String) :
    Except KeyConflict TomlEntries → Except TomlFault (WithRest Draft)
  | .ok entries => .ok ({ entries, current }, rest)
  | .error conflict => .error (.conflict start conflict)

/-- Reads a header up to its closing brackets and opens its table. -/
def readHeader (size : Nat) (closing : List Char)
    (make : List String → String → Place → TomlEntries → Except KeyConflict TomlEntries)
    (start : Place) (draft : Draft) (cs : List Char) : Except TomlFault (WithRest Draft) := do
  let (key, cs) ← readKey size cs
  if closing.isPrefixOf cs then
    let ((), rest) ← readLineEnd (cs.drop closing.length)
    Draft.added start rest key (make key.dropLast (key.getLast?.getD "") start draft.entries)
  else
    stuck cs

/-- Reads a key with its value into the current table. -/
def readIntoCurrent (size : Nat) (draft : Draft) (start : Place) :
    Except TomlFault (WithRest Draft) := do
  let (key, cs) ← readKey size start
  let (assignment, cs) ← readAssigned (readValue size (depthLimit - 1)) key cs
  let ((), rest) ← readLineEnd cs
  Draft.added start rest draft.current
    (draft.entries.updateAt .byHeader assignment.place
      (assignment.addTo .byKey (some draft.current)) [] draft.current .header)

/-- Reads a statement, or an empty line. -/
def readStatement (size : Nat) (draft : Draft) (cs : List Char) :
    Except TomlFault (WithRest Draft) :=
  match cs with
  | '[' :: '[' :: rest => readHeader size [']', ']'] TomlEntries.appendTable cs draft rest
  | '[' :: rest => readHeader size [']'] TomlEntries.openTable cs draft rest
  | '#' :: _ | '\n' :: _ | '\r' :: _ => (readLineEnd cs).map (fun ((), rest) => (draft, rest))
  | _ => readIntoCurrent size draft cs

/-- Reads statements up to the end. -/
def readStatements (size : Nat) : (fuel : Nat) → Draft → List Char → Except TomlFault TomlEntries
  | 0, _, cs => .error (.unreadable cs)
  | fuel + 1, draft, cs =>
    match dropBlanks cs with
    | [] => .ok draft.entries
    | cs => do
      let (draft, rest) ← readStatement size draft cs
      readStatements size fuel draft rest

/-- The characters of a document. A byte order mark at the front is dropped. -/
def sourceChars (source : String) : List Char :=
  match source.toList with
  | '\uFEFF' :: cs => cs
  | cs => cs

/-- Reads a document. -/
def read (source : List Char) : Except TomlFault TomlEntries :=
  let size := source.length + 1
  readStatements size size { entries := [], current := [] } source

end CallDelta.Toml
