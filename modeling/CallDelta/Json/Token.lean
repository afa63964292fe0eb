import CallDelta.Json.Value

/-!
# JSON tokens

A JSON text is cut into tokens first. Blanks are space, tab, line feed and carriage return. In
strings control characters are escaped; a number has no leading zero, and a point has digits on both
sides.

## Why the cutting ends

Every token takes at least one character (`Token.next?_length`).
-/

namespace CallDelta

/-- A token of a JSON text. -/
inductive Token where
  | leftBrace
  | rightBrace
  | leftBracket
  | rightBracket
  | colon
  | comma
  | null
  | bool (b : Bool)
  | num (n : Numeral)
  | str (s : JsonString)

namespace Token

/-! ## Strings -/

/-- The value of a hexadecimal digit. -/
def hexValue? (c : Char) : Option Nat :=
  if c.isDigit then some (c.toNat - '0'.toNat)
  else if 'a' ≤ c ∧ c ≤ 'f' then some (c.toNat - 'a'.toNat + 10)
  else if 'A' ≤ c ∧ c ≤ 'F' then some (c.toNat - 'A'.toNat + 10)
  else none

/-- The value of four hexadecimal digits. -/
def hex4? (a b c d : Char) : Option Nat := do
  let a ← hexValue? a
  let b ← hexValue? b
  let c ← hexValue? c
  let d ← hexValue? d
  some (((a * 16 + b) * 16 + c) * 16 + d)

/-- The character of a one-letter escape. -/
def escaped? : Char → Option Char
  | '"' => some '"'
  | '\\' => some '\\'
  | '/' => some '/'
  | 'b' => some '\x08'
  | 'f' => some '\x0c'
  | 'n' => some '\n'
  | 'r' => some '\r'
  | 't' => some '\t'
  | _ => none

/-- Whether a 16-bit unit is the first half of a surrogate pair. -/
def isHigh (u : Nat) : Bool := 0xD800 ≤ u && u < 0xDC00

/-- Whether a 16-bit unit is the second half of a surrogate pair. -/
def isLow (u : Nat) : Bool := 0xDC00 ≤ u && u < 0xE000

/-- The character of a surrogate pair. -/
def pairChar (high low : Nat) : Char :=
  Char.ofNat (0x10000 + (high - 0xD800) * 0x400 + (low - 0xDC00))

/-- One item of a string: a character, or a 16-bit unit that was written as four digits. -/
inductive StringItem where
  | char (c : Char)
  | unit (u : Nat)

/-- Puts an item in front of those already read. -/
def withItem (item : StringItem) :
    Option (List StringItem × List Char) → Option (List StringItem × List Char)
  | some (items, rest) => some (item :: items, rest)
  | none => none

/-- Reads the items of a string up to the closing quote. -/
def stringItems : List Char → Option (List StringItem × List Char)
  | [] => none
  | '"' :: rest => some ([], rest)
  | '\\' :: 'u' :: a :: b :: c :: d :: rest =>
    match hex4? a b c d with
    | some u => withItem (.unit u) (stringItems rest)
    | none => none
  | '\\' :: c :: rest =>
    match escaped? c with
    | some c => withItem (.char c) (stringItems rest)
    | none => none
  | c :: rest =>
    if c = '\\' || c.toNat < 0x20 then none else withItem (.char c) (stringItems rest)

/-- The characters of the items, with two halves of a surrogate pair put together. A half without
the other leaves no text. -/
def charsOf? : List StringItem → Option (List Char)
  | [] => some []
  | .char c :: rest => (charsOf? rest).map (c :: ·)
  | .unit u :: .unit v :: rest =>
    if isHigh u && isLow v then (charsOf? rest).map (pairChar u v :: ·)
    else if isHigh u || isLow u then none
    else (charsOf? (.unit v :: rest)).map (Char.ofNat u :: ·)
  | .unit u :: rest =>
    if isHigh u || isLow u then none else (charsOf? rest).map (Char.ofNat u :: ·)

/-- The string of its items. -/
def stringOf (items : List StringItem) : JsonString :=
  match charsOf? items with
  | some cs => .text (String.ofList cs)
  | none => .unpaired

theorem withItem_eq_some {item : StringItem} {read : Option (List StringItem × List Char)}
    {items : List StringItem} {rest : List Char} (h : withItem item read = some (items, rest)) :
    ∃ tail, read = some (tail, rest) := by
  unfold withItem at h
  split at h
  · next tail last =>
    simp only [Option.some.injEq, Prod.mk.injEq] at h
    exact ⟨tail, by rw [h.2]⟩
  · simp at h

theorem length_stringItems : ∀ (cs : List Char) {items : List StringItem} {rest : List Char},
    stringItems cs = some (items, rest) → rest.length < cs.length := by
  intro cs
  fun_induction stringItems cs <;> intro items rest h
  case case2 => simp_all
  case case3 ih | case5 ih | case8 ih =>
    obtain ⟨tail, ht⟩ := withItem_eq_some h
    have := ih ht
    simp only [List.length_cons]
    omega
  all_goals simp at h

/-! ## Numbers -/

/-- The digits at the front, and the rest. -/
def takeDigits (cs : List Char) : List Char × List Char :=
  (cs.takeWhile Char.isDigit, cs.dropWhile Char.isDigit)

/-- The digits before a point: a zero alone, or digits that do not start with one. -/
def wholeDigits? : List Char → Option (List Char × List Char)
  | '0' :: rest => some (['0'], rest)
  | c :: rest => if c.isDigit then some (takeDigits (c :: rest)) else none
  | [] => none

/-- The digits after a point, if there is a point. -/
def fractionDigits? : List Char → Option (List Char × List Char)
  | '.' :: rest =>
    match takeDigits rest with
    | ([], _) => none
    | found => some found
  | cs => some ([], cs)

/-- Reads the digits of an exponent. -/
def exponentDigits? (negative : Bool) (cs : List Char) : Option (Option Int × List Char) :=
  match takeDigits cs with
  | ([], _) => none
  | (digits, rest) =>
    let n : Int := Decimal.digitsValue digits
    some (some (if negative then -n else n), rest)

/-- The exponent, if there is one. -/
def exponent? : List Char → Option (Option Int × List Char)
  | 'e' :: '+' :: rest | 'E' :: '+' :: rest => exponentDigits? false rest
  | 'e' :: '-' :: rest | 'E' :: '-' :: rest => exponentDigits? true rest
  | 'e' :: rest | 'E' :: rest => exponentDigits? false rest
  | cs => some (none, cs)

/-- Reads a number without its sign. -/
def unsigned? (negative : Bool) (cs : List Char) : Option (Numeral × List Char) :=
  match wholeDigits? cs with
  | none => none
  | some (whole, afterWhole) =>
    match fractionDigits? afterWhole with
    | none => none
    | some (fraction, afterFraction) =>
      match exponent? afterFraction with
      | none => none
      | some (exponent, rest) =>
        some
          ({ negative
             mantissa := Decimal.digitsValue (whole ++ fraction)
             exponent := exponent.getD 0 - fraction.length
             integral := fraction.isEmpty && exponent.isNone }, rest)

/-- Reads a number. -/
def number? : List Char → Option (Numeral × List Char)
  | '-' :: rest => unsigned? true rest
  | cs => unsigned? false cs

theorem length_takeDigits (cs : List Char) : (takeDigits cs).2.length ≤ cs.length := by
  simpa [takeDigits] using (List.dropWhile_sublist Char.isDigit).length_le

theorem length_wholeDigits? {cs whole rest : List Char} (h : wholeDigits? cs = some (whole, rest)) :
    rest.length < cs.length := by
  unfold wholeDigits? at h
  split at h
  · simp_all
  · next c tail _ =>
    split at h
    · next hc =>
      have hrest : rest = (takeDigits (c :: tail)).2 := by simp_all
      rw [hrest, takeDigits, List.dropWhile_cons, if_pos hc]
      have := length_takeDigits tail
      simp only [takeDigits] at this
      simp only [List.length_cons]
      omega
    · simp at h
  · simp at h

theorem length_fractionDigits? {cs fraction rest : List Char}
    (h : fractionDigits? cs = some (fraction, rest)) : rest.length ≤ cs.length := by
  unfold fractionDigits? at h
  split at h
  · next tail =>
    have := length_takeDigits tail
    split at h
    · simp at h
    · simp_all
      omega
  · simp_all

theorem length_exponentDigits? {negative : Bool} {cs rest : List Char} {e : Option Int}
    (h : exponentDigits? negative cs = some (e, rest)) : rest.length ≤ cs.length := by
  unfold exponentDigits? at h
  have := length_takeDigits cs
  split at h
  · simp at h
  · simp_all

theorem length_exponent? {cs rest : List Char} {e : Option Int}
    (h : exponent? cs = some (e, rest)) : rest.length ≤ cs.length := by
  unfold exponent? at h
  split at h
  case h_7 => simp_all
  all_goals
    have hlen := length_exponentDigits? h
    simp only [List.length_cons]
    omega

theorem length_unsigned? {negative : Bool} {cs rest : List Char} {n : Numeral}
    (h : unsigned? negative cs = some (n, rest)) : rest.length < cs.length := by
  unfold unsigned? at h
  split at h
  · simp at h
  · next whole afterWhole hw =>
    split at h
    · simp at h
    · next fraction afterFraction hf =>
      split at h
      · simp at h
      · next exponent last he =>
        have h₁ := length_wholeDigits? hw
        have h₂ := length_fractionDigits? hf
        have h₃ := length_exponent? he
        simp only [Option.some.injEq, Prod.mk.injEq] at h
        rw [← h.2]
        omega

theorem length_number? {cs rest : List Char} {n : Numeral} (h : number? cs = some (n, rest)) :
    rest.length < cs.length := by
  unfold number? at h
  split at h
  · have := length_unsigned? h
    simp only [List.length_cons]
    omega
  · exact length_unsigned? h

/-! ## All tokens -/

/-- Whether a character may stand between tokens. -/
def isBlank (c : Char) : Bool := c == ' ' || c == '\t' || c == '\n' || c == '\r'

/-- Reads the first token of a text that does not begin with a blank. -/
def next? : List Char → Option (Token × List Char)
  | '{' :: rest => some (leftBrace, rest)
  | '}' :: rest => some (rightBrace, rest)
  | '[' :: rest => some (leftBracket, rest)
  | ']' :: rest => some (rightBracket, rest)
  | ':' :: rest => some (colon, rest)
  | ',' :: rest => some (comma, rest)
  | 'n' :: 'u' :: 'l' :: 'l' :: rest => some (null, rest)
  | 't' :: 'r' :: 'u' :: 'e' :: rest => some (bool true, rest)
  | 'f' :: 'a' :: 'l' :: 's' :: 'e' :: rest => some (bool false, rest)
  | '"' :: cs =>
    match stringItems cs with
    | some (items, rest) => some (str (stringOf items), rest)
    | none => none
  | cs =>
    match number? cs with
    | some (n, rest) => some (num n, rest)
    | none => none

theorem next?_length {cs rest : List Char} {token : Token} (h : next? cs = some (token, rest)) :
    rest.length < cs.length := by
  unfold next? at h
  split at h
  case h_10 tail =>
    split at h
    · next items last hs =>
      have := length_stringItems _ hs
      simp only [Option.some.injEq, Prod.mk.injEq] at h
      rw [← h.2, List.length_cons]
      omega
    · simp at h
  case h_11 =>
    split at h
    · next n last hn =>
      simp only [Option.some.injEq, Prod.mk.injEq] at h
      rw [← h.2]
      exact length_number? hn
    · simp at h
  all_goals
    simp only [Option.some.injEq, Prod.mk.injEq] at h
    rw [← h.2]
    simp only [List.length_cons]
    omega

/-- Cuts a text into tokens, as far as it goes. Beside the tokens stands what is left. -/
def ofChars (cs : List Char) : List Token × List Char :=
  match cs with
  | [] => ([], [])
  | c :: rest =>
    if isBlank c then ofChars rest
    else
      match _hn : next? (c :: rest) with
      | some (token, rest') =>
        let (tokens, left) := ofChars rest'
        (token :: tokens, left)
      | none => ([], c :: rest)
termination_by cs.length
decreasing_by
  · simp
  · have := next?_length _hn
    simpa using this

end Token

end CallDelta
