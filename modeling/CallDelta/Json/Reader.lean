import CallDelta.Json.Token

/-!
# Reading JSON

The tokens of a text are read one by one by a machine that remembers the arrays and objects around
the place it has reached. So nothing limits how deep values may be nested.

A member's name may be repeated, and no comma may stand before a closing bracket.

Of a text that cannot be read, `Json.beginning` tells with which elements of an array it begins.
-/

namespace CallDelta

namespace Json

/-- An array or object that is not closed yet. What it holds so far is in reverse order. -/
inductive Frame where
  /-- An array whose next element is being read. -/
  | array (before : List Json)
  /-- An object whose member `name` is being read. -/
  | object (before : List (JsonString × Json)) (name : JsonString)

/-- What the machine is waiting for. The frames around are listed from the inside out. -/
inductive ReaderState where
  /-- A value. -/
  | awaitValue (around : List Frame)
  /-- The first element of an array, or its end. -/
  | firstElement (around : List Frame)
  /-- The first member of an object, or its end. -/
  | firstMember (around : List Frame)
  /-- The name of a further member. -/
  | awaitName (before : List (JsonString × Json)) (around : List Frame)
  /-- The colon after a name. -/
  | awaitColon (before : List (JsonString × Json)) (name : JsonString) (around : List Frame)
  /-- A comma, or the end of an array. -/
  | afterElement (elements : List Json) (around : List Frame)
  /-- A comma, or the end of an object. -/
  | afterMember (members : List (JsonString × Json)) (around : List Frame)
  /-- Nothing more. -/
  | finished (value : Json)

namespace ReaderState

/-- A value is complete. -/
def complete (value : Json) : List Frame → ReaderState
  | [] => finished value
  | .array before :: around => afterElement (value :: before) around
  | .object before name :: around => afterMember ((name, value) :: before) around

/-- A token where a value is expected. -/
def onValue (around : List Frame) : Token → Option ReaderState
  | .null => some (complete .null around)
  | .bool b => some (complete (.bool b) around)
  | .num n => some (complete (.num n) around)
  | .str s => some (complete (.str s) around)
  | .leftBracket => some (firstElement around)
  | .leftBrace => some (firstMember around)
  | _ => Option.none

/-- One step of the machine. -/
def step : ReaderState → Token → Option ReaderState
  | awaitValue around, token => onValue around token
  | firstElement around, .rightBracket => some (complete (.arr []) around)
  | firstElement around, token => onValue (.array [] :: around) token
  | firstMember around, .rightBrace => some (complete (.obj []) around)
  | firstMember around, .str s => some (awaitColon [] s around)
  | awaitName before around, .str s => some (awaitColon before s around)
  | awaitColon before name around, .colon => some (awaitValue (.object before name :: around))
  | afterElement elements around, .comma => some (awaitValue (.array elements :: around))
  | afterElement elements around, .rightBracket => some (complete (.arr elements.reverse) around)
  | afterMember members around, .comma => some (awaitName members around)
  | afterMember members around, .rightBrace => some (complete (.obj members.reverse) around)
  | _, _ => Option.none

/-- The value, if one has been read. -/
def result? : ReaderState → Option Json
  | finished value => some value
  | _ => Option.none

/-- The elements of the array outside of all others that are complete, where the frames are around a
value that is not. -/
def outerElements (around : List Frame) : List Json :=
  match around.getLast? with
  | some (.array before) => before.reverse
  | _ => []

/-- What has been read: a value, or an array of the elements that are complete. -/
def soFar : ReaderState → Json
  | finished value => value
  | afterElement elements [] => .arr elements.reverse
  | awaitValue around | firstElement around | firstMember around | awaitName _ around
  | awaitColon _ _ around | afterElement _ around | afterMember _ around =>
    .arr (outerElements around)

/-- The state behind the tokens that fit. -/
def advance (state : ReaderState) : List Token → ReaderState
  | [] => state
  | token :: tokens =>
    match state.step token with
    | some next => next.advance tokens
    | Option.none => state

end ReaderState

/-- Reads a value from all of the tokens. -/
def ofTokens? (tokens : List Token) : Option Json :=
  (tokens.foldlM ReaderState.step (.awaitValue [])).bind (·.result?)

/-- Reads a value from a whole text. -/
def read? (text : String) : Option Json :=
  match Token.ofChars text.toList with
  | (tokens, []) => ofTokens? tokens
  | _ => Option.none

/-- The value with which a text begins. If that is an array, it may lack its end, and what is
complete of it counts. -/
def beginning (text : String) : Json :=
  ((ReaderState.awaitValue []).advance (Token.ofChars text.toList).1).soFar

end Json

end CallDelta
