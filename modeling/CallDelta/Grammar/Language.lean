import CallDelta.Error
import CallDelta.Files.Path
import CallDelta.Grammar.Lowering

/-!
# Languages

A language is known by its identifier and by the extensions of its files. C is the only one.
-/

namespace CallDelta

/-- A language. -/
structure Language where
  id : String
  extensions : List String
  deriving DecidableEq

namespace Language

/-- The language C, sources and headers. -/
def c : Language := { id := "c", extensions := ["c", "h"] }

/-- All languages. -/
def all : List Language := [c]

/-- The language with an identifier. -/
def withId? (id : String) : Option Language := all.find? (fun l => l.id == id)

/-- The language of a file by the extension of its path. -/
def ofPath? (path : String) : Option Language := do
  let extension ← (Path.ofString path).extension?
  all.find? (fun l => l.extensions.contains extension)

/-- As `ofPath?`, where a file of no language is a failure. -/
def ofPath (path : String) : Except SourceError Language :=
  match ofPath? path with
  | some l => .ok l
  | none => .error (.unsupportedLanguage path)

/-- The tree of a source text by a grammar of the language. -/
def parse (l : Language) (grammar : Grammar) (source : String) : Except SourceError Tree :=
  match grammar source with
  | some concrete => .ok (.ofConcrete source concrete)
  | none => .error (.parse "<source>" (l.id ++ " parser returned no tree"))

end Language

end CallDelta
