import CallDelta.Json.Value

/-!
# Writing JSON

Quotes, backslashes and control characters are escaped, all other characters stand as they are. A
value is written on one line without blanks (`Json.compact`), or with each element and member on a
line of its own, indented by two blanks for each level (`Json.pretty`).
-/

namespace CallDelta

namespace Json

/-- A hexadecimal digit. -/
def hexDigit (n : Nat) : Char := (Nat.digitChar n)

/-- A character inside quotes. -/
def escapeChar (c : Char) : List Char :=
  if c = '"' then ['\\', '"']
  else if c = '\\' then ['\\', '\\']
  else if c = '\x08' then ['\\', 'b']
  else if c = '\x0c' then ['\\', 'f']
  else if c = '\n' then ['\\', 'n']
  else if c = '\r' then ['\\', 'r']
  else if c = '\t' then ['\\', 't']
  else if c.toNat < 0x20 then
    ['\\', 'u', '0', '0', hexDigit (c.toNat / 16), hexDigit (c.toNat % 16)]
  else [c]

/-- A text in quotes. -/
def quote (s : String) : String := String.ofList ('"' :: s.toList.flatMap escapeChar ++ ['"'])

/-- A string in quotes. Half a surrogate pair is written as the first of them. -/
def writeString : JsonString → String
  | .text s => quote s
  | .unpaired => "\"\\ud800\""

/-- A number. -/
def writeNumeral (n : Numeral) : String :=
  (if n.negative then "-" else "") ++ toString n.mantissa ++
    (if n.integral then "" else "e" ++ toString n.exponent)

mutual

/-- A value on one line. -/
def compact : Json → String
  | null => "null"
  | bool b => if b then "true" else "false"
  | num n => writeNumeral n
  | str s => writeString s
  | arr elements => "[" ++ ",".intercalate (compactElements elements) ++ "]"
  | obj members => "\x7b" ++ ",".intercalate (compactMembers members) ++ "\x7d"

/-- The elements of an array on one line. -/
def compactElements : List Json → List String
  | [] => []
  | v :: rest => compact v :: compactElements rest

/-- The members of an object on one line. -/
def compactMembers : List (JsonString × Json) → List String
  | [] => []
  | (name, v) :: rest => (writeString name ++ ":" ++ compact v) :: compactMembers rest

end

/-- The start of a line at a level. -/
def newLine (level : Nat) : String := ("\n").pushn ' ' (2 * level)

/-- Items between brackets, one a line. Without items the brackets stand together. -/
def block (level : Nat) (left right : String) (items : List String) : String :=
  if items.isEmpty then left ++ right
  else
    left ++ newLine (level + 1) ++ ("," ++ newLine (level + 1)).intercalate items ++
      newLine level ++ right

mutual

/-- A value at a level of indentation. -/
def prettyAt (level : Nat) : Json → String
  | null => "null"
  | bool b => if b then "true" else "false"
  | num n => writeNumeral n
  | str s => writeString s
  | arr elements => block level "[" "]" (prettyElements (level + 1) elements)
  | obj members => block level "\x7b" "\x7d" (prettyMembers (level + 1) members)

/-- The elements of an array at a level. -/
def prettyElements (level : Nat) : List Json → List String
  | [] => []
  | v :: rest => prettyAt level v :: prettyElements level rest

/-- The members of an object at a level. -/
def prettyMembers (level : Nat) : List (JsonString × Json) → List String
  | [] => []
  | (name, v) :: rest =>
    (writeString name ++ ": " ++ prettyAt level v) :: prettyMembers level rest

end

/-- A value over several lines. -/
def pretty (v : Json) : String := prettyAt 0 v

end Json

end CallDelta
