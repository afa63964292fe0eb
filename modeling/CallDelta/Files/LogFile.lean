import CallDelta.Files.Disk

/-!
# Log files

A log file is opened for writing behind its end. What is written waits in a buffer of fixed size and
goes to the disk when the buffer is full, when the writer asks for it and when the file is closed.
What the disk refuses stays in the buffer. The buffer does not know disks: it works with anything
that takes text behind the end of what is at a place.
-/

namespace CallDelta

/-- A store of files. Text goes behind the end of what is at a place, or is refused. -/
class Storage (δ : Type) where
  append : δ → Location → String → Except OsError δ

instance : Storage Disk where
  append := Disk.append

/-- A log file that is open. -/
structure LogFile where
  path : String
  place : Location
  /-- What has been written and is not on the disk yet. -/
  pending : String

namespace LogFile

/-- The number of bytes that may wait. -/
def capacity : Nat := 8192

/-- Opens a log file. It is made if it is missing, and so are the directories around it, which stay
even if the file cannot be opened. -/
def openAt (path : String) (d : Disk) : Except OsError LogFile × Disk :=
  let (refusal, d) :=
    match (Path.ofString path).parent? with
    | some around => if around.isEmpty then (none, d) else d.makeDirectories around
    | none => (none, d)
  match refusal with
  | some e => (.error e, d)
  | none =>
    match d.openForAppending path with
    | .ok (place, d) => (.ok { path, place, pending := "" }, d)
    | .error e => (.error e, d)

variable {δ : Type} [Storage δ]

/-- Sends what waits to the disk. -/
def flush (f : LogFile) (d : δ) : Option OsError × LogFile × δ :=
  match Storage.append d f.place f.pending with
  | .ok d => (none, { f with pending := "" }, d)
  | .error e => (some e, f, d)

/-- Takes a piece of text for which there is room, or which is too long to wait at all. -/
def take (piece : String) (f : LogFile) (d : δ) : Option OsError × LogFile × δ :=
  if capacity ≤ piece.utf8ByteSize then
    match Storage.append d f.place piece with
    | .ok d => (none, f, d)
    | .error e => (some e, f, d)
  else
    (none, { f with pending := f.pending ++ piece }, d)

/-- Writes a piece of text. If there is no room for it, what waits goes first. -/
def write (piece : String) (f : LogFile) (d : δ) : Option OsError × LogFile × δ :=
  if f.pending.utf8ByteSize + piece.utf8ByteSize ≤ capacity then f.take piece d
  else
    match f.flush d with
    | (some e, f, d) => (some e, f, d)
    | (none, f, d) => f.take piece d

/-- Writes a line. Its end is a piece of its own. -/
def writeLine (line : String) (f : LogFile) (d : δ) : Option OsError × LogFile × δ :=
  match f.write line d with
  | (some e, f, d) => (some e, f, d)
  | (none, f, d) => f.write "\n" d

/-- Closes a log file. What the disk refuses now is lost. -/
def close (f : LogFile) (d : δ) : δ := (f.flush d).2.2

end LogFile

end CallDelta
