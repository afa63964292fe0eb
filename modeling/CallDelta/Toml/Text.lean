/-!
# TOML strings

A string stands in double quotes, with escapes, or in single quotes, without. Three quotes on either
side let it run over several lines. One automaton reads all four forms, a character at a time:
`TextForm.move` says what a character does, and `TextForm.read` follows it to the closing quotes.

In a string of several lines, up to two quotes may stand directly before the closing ones, a line
break is always read as a line feed, and a backslash at the end of a line swallows the blanks and
line breaks after it.
-/

namespace CallDelta

/-- A place in a document, given by what stands from there to the end. -/
abbrev Place : Type := List Char

/-- What has been read, and the place behind it. -/
abbrev WithRest (α : Type) : Type := α × Place

/-- One of the four ways to write a string. -/
structure TextForm where
  quote : Char
  escapes : Bool
  multiLine : Bool

/-- Where the reading of a string is. -/
inductive TextState where
  | plain
  /-- Behind some quotes that may be the closing ones. -/
  | quotes (count : Nat)
  /-- Behind a backslash. -/
  | escape
  /-- Before some more hexadecimal digits of a character. -/
  | digits (left value : Nat)
  /-- Behind a backslash and blanks, with a line break among them or not. -/
  | folding (broken : Bool)
  /-- Behind a carriage return. Swallowed or not, a line feed has to follow. -/
  | carriage (swallowed : Bool)

/-- What a character does to a string. -/
inductive TextMove where
  | go (next : TextState) (written : List Char)
  /-- The string ends behind the character. -/
  | stop (written : List Char)
  /-- The string has ended before the character. -/
  | stopBefore (written : List Char)
  /-- There is no such string. The blame is on the character. -/
  | refuse
  /-- There is no such string. The blame is on what follows the character. -/
  | refuseBehind

/-- Writes something before what a move writes. -/
def TextMove.after (before : List Char) : TextMove → TextMove
  | go next written => go next (before ++ written)
  | stop written => stop (before ++ written)
  | stopBefore written => stopBefore (before ++ written)
  | refuse => refuse
  | refuseBehind => refuseBehind

namespace Toml

/-- Space and tab. -/
def isBlank (c : Char) : Bool := c == ' ' || c == '\t'

/-- What may stand for itself in a string or a comment: no control characters but the tab. -/
def isTextChar (c : Char) : Bool := c == '\t' || (0x20 ≤ c.toNat && c.toNat != 0x7F)

/-- The value of a hexadecimal digit. -/
def digitValue? (c : Char) : Option Nat :=
  if '0' ≤ c ∧ c ≤ '9' then some (c.toNat - '0'.toNat)
  else if 'a' ≤ c ∧ c ≤ 'f' then some (c.toNat - 'a'.toNat + 10)
  else if 'A' ≤ c ∧ c ≤ 'F' then some (c.toNat - 'A'.toNat + 10)
  else none

/-- The character of a one-letter escape. -/
def escaped? : Char → Option Char
  | 'b' => some '\x08'
  | 't' => some '\t'
  | 'n' => some '\n'
  | 'f' => some '\x0c'
  | 'r' => some '\r'
  | '"' => some '"'
  | '\\' => some '\\'
  | _ => none

end Toml

namespace TextForm

open Toml

/-- What a character does where nothing special is going on. -/
def plainMove (form : TextForm) (c : Char) : TextMove :=
  if c = form.quote then if form.multiLine then .go (.quotes 1) [] else .stop []
  else if c = '\\' && form.escapes then .go .escape []
  else if c = '\n' && form.multiLine then .go .plain ['\n']
  else if c = '\r' && form.multiLine then .go (.carriage false) []
  else if isTextChar c then .go .plain [c]
  else .refuse

/-- What a character does behind a backslash. One that escapes nothing has been read all the
same. -/
def escapeMove (form : TextForm) (c : Char) : TextMove :=
  match escaped? c with
  | some e => .go .plain [e]
  | none =>
    if c = 'u' then .go (.digits 4 0) []
    else if c = 'U' then .go (.digits 8 0) []
    else if !form.multiLine then .refuseBehind
    else if isBlank c then .go (.folding false) []
    else if c = '\n' then .go (.folding true) []
    else if c = '\r' then .go (.carriage true) []
    else .refuseBehind

/-- What a character does among the digits of another. -/
def digitMove (left value : Nat) (c : Char) : TextMove :=
  match digitValue? c with
  | none => .refuse
  | some d =>
    let value := 16 * value + d
    if 1 < left then .go (.digits (left - 1) value) []
    else if value.isValidChar then .go .plain [Char.ofNat value]
    else .refuse

/-- What a character does. -/
def move (form : TextForm) (c : Char) : TextState → TextMove
  | .plain => form.plainMove c
  | .quotes n =>
    if c = form.quote then
      if n = 4 then .stop [form.quote, form.quote] else .go (.quotes (n + 1)) []
    else if 3 ≤ n then .stopBefore (List.replicate (n - 3) form.quote)
    else (form.plainMove c).after (List.replicate n form.quote)
  | .escape => form.escapeMove c
  | .digits left value => digitMove left value c
  | .folding broken =>
    if isBlank c then .go (.folding broken) []
    else if c = '\n' then .go (.folding true) []
    else if c = '\r' then .go (.carriage true) []
    else if broken then form.plainMove c
    else .refuse
  | .carriage swallowed =>
    if c = '\n' then if swallowed then .go (.folding true) [] else .go .plain ['\n'] else .refuse

/-- Reads up to the closing quotes, or fails at a place. `written` is the text so far, backwards. -/
def read (form : TextForm) (state : TextState) (written : List Char) :
    List Char → Except Place (WithRest String)
  | [] =>
    match state with
    | .quotes n =>
      if 3 ≤ n then
        .ok (String.ofList (written.reverse ++ List.replicate (n - 3) form.quote), [])
      else
        .error []
    | _ => .error []
  | c :: cs =>
    match form.move c state with
    | .go next more => form.read next (more.reverse ++ written) cs
    | .stop more => .ok (String.ofList (written.reverse ++ more), cs)
    | .stopBefore more => .ok (String.ofList (written.reverse ++ more), c :: cs)
    | .refuse => .error (c :: cs)
    | .refuseBehind => .error cs

end TextForm

namespace Toml

/-- Drops one line break. -/
def dropBreak : List Char → List Char
  | '\n' :: cs => cs
  | '\r' :: '\n' :: cs => cs
  | cs => cs

/-- Reads a string of one line. -/
def readLineText : List Char → Option (Except Place (WithRest String))
  | '"' :: cs => some (TextForm.read ⟨'"', true, false⟩ .plain [] cs)
  | '\'' :: cs => some (TextForm.read ⟨'\'', false, false⟩ .plain [] cs)
  | _ => none

/-- Reads a string. A line break directly behind three quotes is dropped. -/
def readText : List Char → Option (Except Place (WithRest String))
  | '"' :: '"' :: '"' :: cs => some (TextForm.read ⟨'"', true, true⟩ .plain [] (dropBreak cs))
  | '\'' :: '\'' :: '\'' :: cs =>
    some (TextForm.read ⟨'\'', false, true⟩ .plain [] (dropBreak cs))
  | cs => readLineText cs

end Toml

end CallDelta
