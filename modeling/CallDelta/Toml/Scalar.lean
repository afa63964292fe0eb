import CallDelta.Decimal.Basic
import CallDelta.Toml.Text
import CallDelta.Toml.Value

/-!
# TOML numbers, dates and truth values

Each is read from the front of a text, as far as it goes; what may follow is for others to say. Some
marks bind what is behind them: a point or an exponent's mark behind digits, an underscore between
them, the dash behind a year and the colon behind an hour. If such a thing cannot be finished,
nothing else is read in its place (`Attempt.broken`).

Integers fit 64 bits with a sign. A decimal beyond the largest double is refused if it is positive
and stands for negative infinity if it is negative.
-/

namespace CallDelta

/-- What becomes of an attempt to read something from the front of a text. -/
inductive Attempt (α : Type) where
  /-- There is no such thing. -/
  | absent
  /-- It begins there and is not finished. -/
  | broken
  | found (a : α) (rest : List Char)

namespace Attempt

/-- Changes what is found. -/
def map {α β : Type} (f : α → β) : Attempt α → Attempt β
  | absent => absent
  | broken => broken
  | found a rest => found (f a) rest

/-- Reads on behind what is found. -/
def andThen {α β : Type} (next : α → List Char → Attempt β) : Attempt α → Attempt β
  | absent => absent
  | broken => broken
  | found a rest => next a rest

/-- Another attempt, if there is no such thing. -/
def orElse {α : Type} : Attempt α → Attempt α → Attempt α
  | absent, other => other
  | x, _ => x

/-- An attempt where something has begun already. -/
def commit {α : Type} : Attempt α → Attempt α
  | absent => broken
  | x => x

/-- The attempt that finds what is there. -/
def ofOption {α : Type} : Option (α × List Char) → Attempt α
  | some (a, rest) => found a rest
  | none => absent

end Attempt

namespace Toml

/-! ## Whole numbers -/

/-- Reads digits with single underscores between them. -/
def readGrouped (isDigit : Char → Bool) : List Char → Attempt (List Char)
  | [] => .absent
  | c :: '_' :: cs =>
    if isDigit c then (readGrouped isDigit cs).commit.map (c :: ·) else .absent
  | c :: cs =>
    if isDigit c then ((readGrouped isDigit cs).map (c :: ·)).orElse (.found [c] cs) else .absent

/-- Reads the digits of a whole number. A zero at the front stands alone. -/
def readWhole : List Char → Attempt (List Char)
  | '0' :: cs => .found ['0'] cs
  | cs => readGrouped Char.isDigit cs

/-- Takes a sign off. -/
def takeSign : List Char → Bool × List Char
  | '-' :: cs => (true, cs)
  | '+' :: cs => (false, cs)
  | cs => (false, cs)

/-- A number with its sign. -/
def withSign (negative : Bool) (n : Nat) : Int := if negative then -(n : Int) else n

/-- Finds an integer if it fits 64 bits with a sign. -/
def fitting (n : Int) (rest : List Char) : Attempt Int :=
  if -9223372036854775808 ≤ n ∧ n ≤ 9223372036854775807 then .found n rest else .broken

/-- Reads the digits of a whole number in a base other than ten. -/
def readBased (base : Nat) (cs : List Char) : Attempt Int :=
  (readGrouped (fun c => (digitValue? c).any (· < base)) cs).commit.andThen (fun digits rest =>
    fitting (digits.foldl (fun n c => base * n + (digitValue? c).getD 0) 0 : Nat) rest)

/-- Reads a whole number. -/
def readInteger : List Char → Attempt Int
  | '0' :: 'x' :: cs => readBased 16 cs
  | '0' :: 'o' :: cs => readBased 8 cs
  | '0' :: 'b' :: cs => readBased 2 cs
  | cs =>
    let (negative, cs) := takeSign cs
    (readWhole cs).andThen (fun digits rest =>
      fitting (withSign negative (Decimal.digitsValue digits)) rest)

/-! ## Decimals -/

/-- Reads the digits behind a point. -/
def readFraction : List Char → Attempt (List Char)
  | '.' :: cs => (readGrouped Char.isDigit cs).commit
  | _ => .absent

/-- Reads an exponent. -/
def readExponent : List Char → Attempt Int
  | [] => .absent
  | c :: cs =>
    if c = 'e' || c = 'E' then
      let (negative, cs) := takeSign cs
      (readGrouped Char.isDigit cs).commit.map (fun digits =>
        withSign negative (Decimal.digitsValue digits))
    else
      .absent

/-- Reads a fraction, an exponent or both. -/
def readDecimalEnd (cs : List Char) : Attempt (List Char × Int) :=
  ((readFraction cs).andThen (fun fraction cs =>
    ((readExponent cs).orElse (.found 0 cs)).map (fraction, ·))).orElse
  ((readExponent cs).map ([], ·))

/-- Reads a decimal with a fraction, an exponent or both. -/
def readDecimal (cs : List Char) : Attempt Decimal :=
  let (negative, cs) := takeSign cs
  (readWhole cs).andThen (fun whole cs =>
    (readDecimalEnd cs).map (fun (fraction, exponent) =>
      { negative, mantissa := Decimal.digitsValue (whole ++ fraction)
        exponent := exponent - fraction.length }))

/-- Reads infinity or what is no number. -/
def readSpecial (cs : List Char) : Attempt Float :=
  let (negative, cs) := takeSign cs
  let signed (x : Float) := if negative then -x else x
  match cs with
  | 'i' :: 'n' :: 'f' :: rest => .found (signed (1 / 0)) rest
  | 'n' :: 'a' :: 'n' :: rest => .found (signed (0 / 0)) rest
  | _ => .absent

/-- Reads a double. -/
def readFloat (cs : List Char) : Attempt Float :=
  ((readDecimal cs).andThen (fun d rest =>
    let x := d.toFloat
    if x == 1 / 0 then .broken else .found x rest)).orElse (readSpecial cs)

/-! ## Dates and times -/

/-- Takes a number of digits off, with their value, if that is within bounds. -/
def takeDigits (count least most : Nat) (cs : List Char) : Option (Nat × List Char) :=
  let digits := cs.take count
  let value := Decimal.digitsValue digits
  if digits.length = count && digits.all Char.isDigit && least ≤ value && value ≤ most then
    some (value, cs.drop count)
  else
    none

/-- Takes a character off. -/
def takeChar (c : Char) : List Char → Option (List Char)
  | d :: cs => if d = c then some cs else none
  | [] => none

/-- The number of days in a month. -/
def daysInMonth (year month : Nat) : Nat :=
  let leap := year % 4 = 0 ∧ (year % 100 ≠ 0 ∨ year % 400 = 0)
  if month = 2 then if leap then 29 else 28
  else if month = 4 ∨ month = 6 ∨ month = 9 ∨ month = 11 then 30
  else 31

/-- Takes a year and a dash off. -/
def takeYear (cs : List Char) : Option (Nat × List Char) := do
  let (year, cs) ← takeDigits 4 0 9999 cs
  some (year, ← takeChar '-' cs)

/-- Takes a month and a day of a year off. -/
def takeDay (year : Nat) (cs : List Char) : Option (Unit × List Char) := do
  let (month, cs) ← takeDigits 2 1 12 cs
  let cs ← takeChar '-' cs
  let (_, cs) ← takeDigits 2 1 (daysInMonth year month) cs
  some ((), cs)

/-- Reads a date. -/
def readDate (cs : List Char) : Attempt Unit :=
  (Attempt.ofOption (takeYear cs)).andThen
    (fun year cs => (Attempt.ofOption (takeDay year cs)).commit)

/-- Takes an hour and a colon off. -/
def takeHour (cs : List Char) : Option (Unit × List Char) := do
  let (_, cs) ← takeDigits 2 0 23 cs
  some ((), ← takeChar ':' cs)

/-- Takes a minute and a second off. Seconds may have a fraction. -/
def takeMinute (cs : List Char) : Option (Unit × List Char) := do
  let (_, cs) ← takeDigits 2 0 59 cs
  let cs ← takeChar ':' cs
  let (_, cs) ← takeDigits 2 0 60 cs
  match cs with
  | '.' :: c :: rest =>
    some ((), if c.isDigit then rest.dropWhile Char.isDigit else '.' :: c :: rest)
  | cs => some ((), cs)

/-- Reads a time. -/
def readTime (cs : List Char) : Attempt Unit :=
  (Attempt.ofOption (takeHour cs)).andThen (fun _ cs => (Attempt.ofOption (takeMinute cs)).commit)

/-- Reads how far a time is from universal time. -/
def readOffset : List Char → Attempt Unit
  | 'Z' :: rest | 'z' :: rest => .found () rest
  | '+' :: cs | '-' :: cs =>
    Attempt.commit (.ofOption do
      let (_, cs) ← takeHour cs
      let (_, cs) ← takeDigits 2 0 59 cs
      some ((), cs))
  | _ => .absent

/-- Reads the time behind a date, if there is one. -/
def readTimeOfDay (cs : List Char) : Attempt Unit :=
  let time := match cs with
    | 'T' :: cs | 't' :: cs | ' ' :: cs => readTime cs
    | _ => .absent
  (time.andThen (fun _ cs => (readOffset cs).orElse (.found () cs))).orElse (.found () cs)

/-- Reads a date, a time or both. -/
def readMoment (cs : List Char) : Attempt Unit :=
  ((readDate cs).andThen (fun _ cs => readTimeOfDay cs)).orElse (readTime cs)

/-! ## All of them -/

/-- Reads a truth value. -/
def readBoolean : List Char → Attempt Bool
  | 't' :: 'r' :: 'u' :: 'e' :: rest => .found true rest
  | 'f' :: 'a' :: 'l' :: 's' :: 'e' :: rest => .found false rest
  | _ => .absent

/-- Reads a number, a date or a truth value. -/
def readPlain (cs : List Char) : Attempt Toml :=
  ((readBoolean cs).map Toml.boolean).orElse <|
  ((readMoment cs).map (fun _ => Toml.moment)).orElse <|
  ((readFloat cs).map Toml.float).orElse <|
  (readInteger cs).map Toml.integer

end Toml

end CallDelta
