import CallDelta.Error
import CallDelta.Files.Path

/-!
# A disk

Directories, files and devices by their place below the root. Paths are followed part by part, so
the refusals are those of a file system: a part that is not there, a part behind something that is
no directory, a directory where a file is wanted.
-/

namespace CallDelta

/-- The names that lead from the root to a place. -/
abbrev Location : Type := List String

/-- The written form of a place. -/
def Location.text (place : Location) : String := "/" ++ "/".intercalate place

/-- What is at a place. -/
inductive Entry where
  | file (content : ByteArray)
  | directory
  /-- A device that swallows what is written to it. -/
  | nullDevice
  /-- A device without room for a single byte. -/
  | fullDevice

/-- A disk, seen from a working directory. -/
structure Disk where
  entries : List (Location × Entry)
  workingDirectory : Location

namespace Disk

/-! ## Places -/

/-- What is at a place. The root is a directory. -/
def lookup (d : Disk) (place : Location) : Option Entry :=
  if place.isEmpty then some .directory else d.entries.lookup place

/-- Changes the entry of a place, or adds it at the end. -/
def putEntry (place : Location) (e : Entry) : List (Location × Entry) → List (Location × Entry)
  | [] => [(place, e)]
  | (other, old) :: rest =>
    if other = place then (place, e) :: rest else (other, old) :: putEntry place e rest

/-- The disk with an entry at a place. -/
def put (d : Disk) (place : Location) (e : Entry) : Disk :=
  { d with entries := putEntry place e d.entries }

/-- A disk with the two devices and an empty working directory. -/
def fresh : Disk :=
  { entries :=
      [(["dev"], .directory), (["dev", "null"], .nullDevice), (["dev", "full"], .fullDevice),
        (["work"], .directory)]
    workingDirectory := ["work"] }

/-- The working directory, unless it is gone. -/
def currentDirectory (d : Disk) : Except OsError Location :=
  match d.lookup d.workingDirectory with
  | some .directory => .ok d.workingDirectory
  | _ => .error .notFound

/-! ## Following paths -/

/-- One part of a path, from a place. -/
def follow (d : Disk) (place : Location) (name : String) : Except OsError Location :=
  match d.lookup place with
  | some .directory =>
    if name = "." then .ok place
    else if name = ".." then .ok place.dropLast
    else if (d.lookup (place ++ [name])).isSome then .ok (place ++ [name])
    else .error .notFound
  | some _ => .error .notDirectory
  | none => .error .notFound

/-- All parts of a path. -/
def followAll (d : Disk) (absolute : Bool) (parts : List String) : Except OsError Location :=
  parts.foldlM d.follow (if absolute then [] else d.workingDirectory)

/-- The place that a written path leads to. A slash at the end stands for a directory. -/
def locate (d : Disk) (path : String) : Except OsError Location :=
  if path.isEmpty then .error .notFound
  else
    let parts := Path.rawParts path
    d.followAll (Path.startsAtRoot path) (if Path.endsInSlash path then parts ++ ["."] else parts)

/-- The entry that a written path leads to. -/
def entryAt? (d : Disk) (path : String) : Option Entry :=
  match d.locate path with
  | .ok place => d.lookup place
  | .error _ => none

/-- Whether a path leads to a file. -/
def isFile (d : Disk) (path : String) : Bool :=
  match d.entryAt? path with
  | some (.file _) => true
  | _ => false

/-! ## Reading -/

/-- The bytes of the file at a path. -/
def readBytes (d : Disk) (path : String) : Except OsError ByteArray := do
  match d.lookup (← d.locate path) with
  | some (.file content) => .ok content
  | some .directory => .error .isDirectory
  | some _ => .ok .empty
  | none => .error .notFound

/-- The text of the file at a path. -/
def readText (d : Disk) (path : String) : Except IoError String :=
  match d.readBytes path with
  | .error e => .error (.os e)
  | .ok bytes =>
    match String.fromUTF8? bytes with
    | some text => .ok text
    | none => .error .invalidText

/-- The files below the working directory by their names there. -/
def files (d : Disk) : List (String × ByteArray) :=
  d.entries.filterMap (fun (place, e) =>
    match e with
    | .file content =>
      if d.workingDirectory.isPrefixOf place then
        some ("/".intercalate (place.drop d.workingDirectory.length), content)
      else
        none
    | _ => none)

/-! ## Writing -/

/-- The place for the last part of a path, inside a directory that is there. -/
def placeFor (d : Disk) (absolute : Bool) (parts : List String) (name : String) :
    Except OsError Location := do
  let around ← d.followAll absolute parts
  match d.lookup around with
  | some .directory => .ok (around ++ [name])
  | _ => .error .notDirectory

/-- Whether a name leads back and so names no new entry. -/
def leadsBack (name : String) : Bool := name == "." || name == ".."

/-- Makes one directory. -/
def makeDirectory (d : Disk) (p : Path) : Except OsError Disk :=
  match p.parts.getLast? with
  | none => .error (if p.absolute then .alreadyExists else .notFound)
  | some name => do
    let place ← d.placeFor p.absolute p.parts.dropLast name
    if leadsBack name || (d.lookup place).isSome then .error .alreadyExists
    else .ok (d.put place .directory)

/-- Whether a path leads to a directory. -/
def isDirectory (d : Disk) (p : Path) : Bool :=
  match d.followAll p.absolute p.parts with
  | .ok place => match d.lookup place with
    | some .directory => true
    | _ => false
  | .error _ => false

/-- Makes a directory and those around it that are missing. The parts of the path are given from the
last to the first. What was made before a refusal stays. -/
def makeDirectoriesFrom (absolute : Bool) : List String → Disk → Option OsError × Disk
  | [], d => (none, d)
  | name :: around, d =>
    let p : Path := { absolute, parts := (name :: around).reverse }
    let settle (d : Disk) (e : OsError) : Option OsError × Disk :=
      if d.isDirectory p then (none, d) else (some e, d)
    match d.makeDirectory p with
    | .ok d' => (none, d')
    | .error .notFound =>
      match makeDirectoriesFrom absolute around d with
      | (some e, d') => (some e, d')
      | (none, d') =>
        match d'.makeDirectory p with
        | .ok d'' => (none, d'')
        | .error e => settle d' e
    | .error e => settle d e

/-- Makes a directory and those around it that are missing. -/
def makeDirectories (d : Disk) (p : Path) : Option OsError × Disk :=
  makeDirectoriesFrom p.absolute p.parts.reverse d

/-- Finds the file at a path to write behind its end. A file that is missing is made. -/
def openForAppending (d : Disk) (path : String) : Except OsError (Location × Disk) :=
  match (Path.rawParts path).getLast? with
  | none => .error (if path.isEmpty then .notFound else .isDirectory)
  | some name => do
    let place ← d.placeFor (Path.startsAtRoot path) (Path.rawParts path).dropLast name
    if leadsBack name || Path.endsInSlash path then .error .isDirectory
    else
      match d.lookup place with
      | none => .ok (place, d.put place (.file .empty))
      | some .directory => .error .isDirectory
      | some _ => .ok (place, d)

/-- Writes text behind the end of what is at a place. -/
def append (d : Disk) (place : Location) (text : String) : Except OsError Disk :=
  if text.isEmpty then .ok d
  else
    match d.lookup place with
    | some (.file content) => .ok (d.put place (.file (content ++ text.toUTF8)))
    | some .nullDevice => .ok d
    | some .fullDevice => .error .noSpace
    | some .directory => .error .isDirectory
    | none => .error .notFound

/-- Puts an entry at a path, together with the directories around it. -/
def store (d : Disk) (path : String) (e : Entry) : Disk :=
  let p := Path.ofString path
  match p.parent? with
  | none => d
  | some around =>
    let d := (d.makeDirectories around).2
    d.put ((if p.absolute then [] else d.workingDirectory) ++ p.parts) e

end Disk

end CallDelta
