import CallDelta.Files.Disk
import CallDelta.Json.Decode
import CallDelta.Json.Reader
import CallDelta.Json.Writer

/-!
# Data sets

A data set is a JSON array of records, each with a function before and after a change.
-/

namespace CallDelta

/-- A function before and after a change, with where the change comes from. -/
structure DiffRecord where
  before : String
  after : String
  commit : Option String
  diff : Option String
  deriving DecidableEq

namespace DiffRecord

/-- A record as a value. -/
def toJson (r : DiffRecord) : Json :=
  .record
    [("func_before_target", .text r.before), ("func_after_source", .text r.after),
      ("commit_id_source", .opt .text r.commit), ("diff_source", .opt .text r.diff)]

/-- Reads a record. The two last fields may be missing. -/
def ofJson? (v : Json) : Option DiffRecord :=
  match v.fields?
    ["func_before_target", "func_after_source", "commit_id_source", "diff_source"] 2 with
  | some [before, after, commit, diff] => do
    let before ← Json.required Json.asText? before
    let after ← Json.required Json.asText? after
    let commit ← Json.optional Json.asText? commit
    let diff ← Json.optional Json.asText? diff
    some { before, after, commit, diff }
  | _ => none

end DiffRecord

namespace Dataset

/-- What is wrong with a value that was to be a record or a list of records. A text is repeated. -/
def complaint : Json → String
  | .str (.text s) => "unexpected string " ++ Json.quote s
  | _ => "not a list of records"

/-- Reads the records of an array. The first that cannot be read is complained about. -/
def ofElements : List Json → Except String (List DiffRecord)
  | [] => .ok []
  | v :: vs =>
    match DiffRecord.ofJson? v with
    | some r => (ofElements vs).map (r :: ·)
    | none => .error (complaint v)

/-- Reads the records of a value. -/
def ofJson : Json → Except String (List DiffRecord)
  | .arr elements => ofElements elements
  | v => .error (complaint v)

/-- Reads a data set. A failure comes with a complaint, about a value with which the text begins
before the text itself. -/
def ofText (content : String) : Except String (List DiffRecord) :=
  match Json.read? content with
  | some v => ofJson v
  | none =>
    match ofJson (Json.beginning content) with
    | .error text => .error text
    | .ok _ => .error "not a JSON text"

/-- Reads the data set at a path. -/
def load (d : Disk) (path : String) : Except DatasetError (List DiffRecord) :=
  if d.isFile path then
    match d.readText path with
    | .error e => .error (.io e)
    | .ok content => (ofText content).mapError (.malformed path)
  else
    .error (.notFound path)

end Dataset

end CallDelta
