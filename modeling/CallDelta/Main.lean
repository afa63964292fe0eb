import CallDelta.CommandLine.Run
import CallDelta.Exchange.Grammar
import CallDelta.Json.Reader

/-!
# The program

Everything the program decides is decided by `runArguments` on a copy of the files that the command
line names. Here that copy is made, and what the run has added to it is written back.

The grammar is given as a JSON table of concrete syntax trees, in the file that `CALLDIFF_SYNTAX`
names.
-/

namespace CallDelta

/-- The files that a command line reads, apart from those that are looked up by default. -/
def Invocation.inputs (i : Invocation) : List String :=
  let own := match i.command with
    | .diff before after _ _ _ => [before, after]
    | .batch dataset _ => [dataset]
    | .tree file => [file]
  i.config.toList ++ Settings.fileName :: own

/-- The log file that a command line writes. -/
def Invocation.log? (i : Invocation) (d : Disk) : Option String :=
  let path (log : LogChoice) := (loadSettings i.config d).toOption.bind (log.path? ·)
  match i.command with
  | .diff _ _ log _ _ => path log
  | .batch _ log => path log
  | .tree _ => none

/-- Copies what is at a place, if something is. -/
def copyEntry (d : Disk) (place : Location) : IO Disk := do
  let root ← IO.FS.realPath "/"
  let path := root / "/".intercalate place
  if ← path.isDir then
    return d.put place .directory
  if ← path.pathExists then
    match (← path.metadata).type with
    | .file => return d.put place (.file (← IO.FS.readBinFile path))
    | _ => return d.put place (if place = ["dev", "full"] then .fullDevice else .nullDevice)
  return d

/-- Copies what a path leads to, with the directories on the way. -/
def copyPath (d : Disk) (path : String) : IO Disk := do
  let start := if Path.startsAtRoot path then [] else d.workingDirectory
  let step (acc : Disk × Location) (part : String) : IO (Disk × Location) := do
    let place :=
      if part = ".." then acc.2.dropLast else if part = "." then acc.2 else acc.2 ++ [part]
    return (← copyEntry acc.1 place, place)
  return (← (Path.rawParts path).foldlM step (d, start)).1

/-- A disk that has only the working directory. One that is gone has a name that no file can
have. -/
def copyWorkingDirectory : IO Disk := do
  try
    let parts := Path.rawParts (← IO.currentDir).toString
    let directories :=
      (List.range parts.length).map (fun n => (parts.take (n + 1), Entry.directory))
    return { entries := directories, workingDirectory := parts }
  catch _ =>
    return { entries := [], workingDirectory := [""] }

/-- Writes back what a run has added at a place. -/
def writeBack (old : Disk) (place : Location) (e : Entry) : IO Unit := do
  match old.lookup place, e with
  | none, .directory => IO.FS.createDirAll place.text
  | none, .file content => IO.FS.writeBinFile place.text content
  | some (.file known), .file content =>
    if known.size < content.size then
      IO.FS.withFile place.text .append (fun h => h.write (content.extract known.size content.size))
  | _, _ => pure ()

/-- The grammar of the table that the environment names. -/
def loadGrammar : IO Grammar := do
  match ← IO.getEnv "CALLDIFF_SYNTAX" with
  | none => return fun _ => none
  | some path =>
    match Json.read? (← IO.FS.readFile path) with
    | some table => return .ofJson table
    | none => throw (IO.userError "the syntax table is not a JSON text")

end CallDelta

open CallDelta in
/-- Runs the command line of the program. -/
def main (arguments : List String) : IO UInt32 := do
  let start ← IO.monoMsNow
  let environment ← IO.getEnv "CALLDIFF_CONFIG"
  let grammar ← loadGrammar
  let bare ← copyWorkingDirectory
  let disk ← match Invocation.ofArguments environment arguments with
    | .error _ => pure bare
    | .ok i => do
      let disk ← i.inputs.foldlM copyPath bare
      (i.log? disk).toList.foldlM copyPath disk
  let result := runArguments grammar environment arguments
    { disk, output := .fresh }
  (← IO.getStdout).write result.host.output.bytes
  result.host.disk.entries.forM (fun (place, e) => writeBack disk place e)
  let elapsed := (← IO.monoMsNow) - start
  result.messages.forM (fun m => IO.eprintln (m.text (toString elapsed)))
  return result.status.toUInt32
