import CallDelta.Json.Reader
import Mathlib.Data.List.Forall2
import Mathlib.Tactic.Choose

/-!
# The grammar of JSON texts

The texts of RFC 8259, as lists of characters. A value may be nested to any depth, blanks may stand
around every token, and a character of a string may be written in several ways. A text that the
grammar has is read.

* `Written`, `Denotes`: how the items of a string are written, and what text they are
* `IsNumber`, `IsValue`: numbers and values
* `Reads`: a text is read as a value, whatever is around it
* `reads_array`, `reads_object`: arrays and objects are read if what is in them is
* `reads_of_isValue`, `read?_of_reads`: every value is read, in other texts and alone
-/

namespace CallDelta

namespace JsonText

open Token (StringItem)

/-! ## Strings -/

/-- A hexadecimal digit, in either case. -/
def IsHexDigit (n : Nat) (c : Char) : Prop :=
  "0123456789abcdef".toList[n]? = some c ∨ "0123456789ABCDEF".toList[n]? = some c

/-- Four hexadecimal digits. -/
inductive IsCodeUnit (u : Nat) : List Char → Prop where
  | digits {a b c d : Char} : IsHexDigit (u / 4096) a → IsHexDigit (u / 256 % 16) b →
      IsHexDigit (u / 16 % 16) c → IsHexDigit (u % 16) d → IsCodeUnit u [a, b, c, d]

/-- The letters of the short escapes, with their characters. -/
def shortEscapes : List (Char × Char) :=
  [('"', '"'), ('\\', '\\'), ('/', '/'), ('b', '\x08'), ('f', '\x0c'), ('n', '\n'), ('r', '\r'),
    ('t', '\t')]

/-- How an item of a string is written. -/
inductive Written : StringItem → List Char → Prop where
  | plain {c : Char} : 0x20 ≤ c.toNat → c ≠ '"' → c ≠ '\\' → Written (.char c) [c]
  | short {letter c : Char} : (letter, c) ∈ shortEscapes → Written (.char c) ['\\', letter]
  | unit {u : Nat} {digits : List Char} :
    IsCodeUnit u digits → Written (.unit u) ('\\' :: 'u' :: digits)

/-- The text that items are. A character is an item itself, or one unit, or two that are a surrogate
pair. -/
inductive Denotes : List Char → List StringItem → Prop where
  | nil : Denotes [] []
  | char {c : Char} {text : List Char} {items : List StringItem} :
      Denotes text items → Denotes (c :: text) (.char c :: items)
  | unit {c : Char} {text : List Char} {items : List StringItem} :
      Denotes text items → Denotes (c :: text) (.unit c.toNat :: items)
  | pair {c : Char} {high low : Nat} {text : List Char} {items : List StringItem} :
      high < 0x400 → low < 0x400 → c.toNat = 0x10000 + 0x400 * high + low → Denotes text items →
      Denotes (c :: text) (.unit (0xD800 + high) :: .unit (0xDC00 + low) :: items)

/-- A string of a text. -/
structure StringText where
  items : List StringItem
  parts : List (List Char)
  written : List.Forall₂ Written items parts

/-- A string with its quotes. -/
def StringText.chars (t : StringText) : List Char := '"' :: (t.parts.flatten ++ ['"'])

theorem hexValue?_of_isHexDigit {n : Nat} {c : Char} (h : IsHexDigit n c) :
    Token.hexValue? c = some n := by
  have hlower : ∀ n < 16, "0123456789abcdef".toList[n]?.bind Token.hexValue? = some n := by
    decide +kernel
  have hupper : ∀ n < 16, "0123456789ABCDEF".toList[n]?.bind Token.hexValue? = some n := by
    decide +kernel
  rcases h with h | h
  · have hvalue := hlower n (List.getElem?_eq_some_iff.mp h).1
    rwa [h] at hvalue
  · have hvalue := hupper n (List.getElem?_eq_some_iff.mp h).1
    rwa [h] at hvalue

theorem stringItems_part {item : StringItem} {part : List Char} (h : Written item part)
    (rest : List Char) :
    Token.stringItems (part ++ rest) = Token.withItem item (Token.stringItems rest) := by
  cases h with
  | @plain c hcontrol hquote hslash =>
    have hc : ¬ (c = '\\' || c.toNat < 0x20) = true := by
      simp only [Bool.or_eq_true, decide_eq_true_eq, hslash, false_or]
      omega
    rw [List.singleton_append, Token.stringItems, if_neg hc] <;> simp [hquote, hslash]
  | @short letter c hmem =>
    simp only [shortEscapes, List.mem_cons, Prod.mk.injEq, List.not_mem_nil, or_false] at hmem
    rcases hmem with ⟨rfl, rfl⟩ | ⟨rfl, rfl⟩ | ⟨rfl, rfl⟩ | ⟨rfl, rfl⟩ | ⟨rfl, rfl⟩ | ⟨rfl, rfl⟩ |
      ⟨rfl, rfl⟩ | ⟨rfl, rfl⟩ <;> rfl
  | @unit u digits hunit =>
    obtain ⟨ha, hb, hc, hd⟩ := hunit
    have hvalue : (((u / 4096 * 16 + u / 256 % 16) * 16 + u / 16 % 16) * 16 + u % 16) = u := by
      omega
    simp [Token.stringItems, Token.hex4?, hexValue?_of_isHexDigit ha, hexValue?_of_isHexDigit hb,
      hexValue?_of_isHexDigit hc, hexValue?_of_isHexDigit hd, hvalue]

/-- A string is read up to its closing quote. -/
theorem stringItems_parts {items : List StringItem} {parts : List (List Char)}
    (h : List.Forall₂ Written items parts) (rest : List Char) :
    Token.stringItems (parts.flatten ++ '"' :: rest) = some (items, rest) := by
  induction h with
  | nil => rfl
  | cons hpart _ ih =>
    rw [List.flatten_cons, List.append_assoc, stringItems_part hpart, ih, Token.withItem]

theorem not_surrogate (c : Char) : Token.isHigh c.toNat = false ∧ Token.isLow c.toNat = false := by
  have hvalid : c.toNat < 0xD800 ∨ 0xDFFF < c.toNat ∧ c.toNat < 0x110000 := c.valid
  simp only [Token.isHigh, Token.isLow, Bool.and_eq_false_iff, decide_eq_false_iff_not]
  omega

theorem charsOf?_unit (c : Char) (items : List StringItem) :
    Token.charsOf? (.unit c.toNat :: items) = (Token.charsOf? items).map (c :: ·) := by
  obtain ⟨hhigh, hlow⟩ := not_surrogate c
  cases items with
  | nil => simp [Token.charsOf?, hhigh, hlow, Char.ofNat_toNat]
  | cons item items =>
    cases item with
    | char d => simp [Token.charsOf?, hhigh, hlow, Char.ofNat_toNat]
    | unit v => simp [Token.charsOf?, hhigh, hlow, Char.ofNat_toNat]

/-- Items are put together to the text that they are. -/
theorem charsOf?_of_denotes {text : List Char} {items : List StringItem} (h : Denotes text items) :
    Token.charsOf? items = some text := by
  induction h with
  | nil => rfl
  | char _ ih => rw [Token.charsOf?, ih, Option.map_some]
  | unit _ ih => rw [charsOf?_unit, ih, Option.map_some]
  | @pair c high low text items hhigh hlow hc _ ih =>
    have hpair : (Token.isHigh (0xD800 + high) && Token.isLow (0xDC00 + low)) = true := by
      simp only [Token.isHigh, Token.isLow, Bool.and_eq_true, decide_eq_true_eq]
      omega
    have hchar : Token.pairChar (0xD800 + high) (0xDC00 + low) = c := by
      have hcode :
          0x10000 + (0xD800 + high - 0xD800) * 0x400 + (0xDC00 + low - 0xDC00) = c.toNat := by
        omega
      rw [Token.pairChar, hcode, Char.ofNat_toNat]
    rw [Token.charsOf?, if_pos hpair, ih, Option.map_some, hchar]

theorem stringOf_of_denotes {s : String} {items : List StringItem} (h : Denotes s.toList items) :
    Token.stringOf items = .text s := by
  rw [Token.stringOf, charsOf?_of_denotes h]
  simp only [String.ofList_toList]

/-! ## Numbers -/

/-- One or more digits. -/
def IsDigits (cs : List Char) : Prop := cs ≠ [] ∧ ∀ c ∈ cs, c.isDigit = true

/-- The digits before the point, without leading zeros. -/
inductive IsWhole : List Char → Prop where
  | zero : IsWhole ['0']
  | digits {c : Char} {cs : List Char} : c ≠ '0' → IsDigits (c :: cs) → IsWhole (c :: cs)

/-- The point and the digits behind it, which may be missing. -/
inductive IsFraction : List Char → Prop where
  | none : IsFraction []
  | digits {cs : List Char} : IsDigits cs → IsFraction ('.' :: cs)

/-- The exponent, which may be missing. -/
inductive IsExponent : List Char → Prop where
  | none : IsExponent []
  | digits {e : Char} {sign cs : List Char} :
    e ∈ ['e', 'E'] → sign ∈ [[], ['+'], ['-']] → IsDigits cs →
      IsExponent (e :: (sign ++ cs))

/-- A number. -/
inductive IsNumber : List Char → Prop where
  | parts {sign whole fraction exponent : List Char} : sign ∈ [[], ['-']] → IsWhole whole →
      IsFraction fraction → IsExponent exponent →
        IsNumber (sign ++ (whole ++ (fraction ++ exponent)))

/-- The characters that may follow a value: blanks, a comma and closing brackets. -/
def followers : List Char := [' ', '\t', '\n', '\r', ',', ']', '\x7d']

/-- What may follow a value. -/
def Ends (rest : List Char) : Prop := ∀ c, rest.head? = some c → c ∈ followers

section

variable {cs rest : List Char}

theorem takeDigits_append (hdigits : ∀ c ∈ cs, c.isDigit = true)
    (hrest : ∀ c, rest.head? = some c → c.isDigit = false) :
    Token.takeDigits (cs ++ rest) = (cs, rest) := by
  rw [Token.takeDigits, List.takeWhile_append_of_pos hdigits, List.dropWhile_append_of_pos hdigits]
  cases rest with
  | nil => simp
  | cons c rest => simp [hrest c rfl]

theorem Ends.not_digit (h : Ends rest) : ∀ c, rest.head? = some c → c.isDigit = false := by
  intro c hc
  have hall : followers.all (fun c => !c.isDigit) = true := by decide
  simpa using List.all_eq_true.mp hall c (h c hc)

theorem exponentDigits?_append (negative : Bool) (hcs : IsDigits cs) (hrest : Ends rest) :
    Token.exponentDigits? negative (cs ++ rest) =
      some (some (if negative then -(Decimal.digitsValue cs : Int) else Decimal.digitsValue cs),
        rest) := by
  rw [Token.exponentDigits?, takeDigits_append hcs.2 hrest.not_digit]
  simp [hcs.1]

/-- Digits of an exponent have no sign. -/
theorem exponent?_unsigned {e : Char} (he : e ∈ ['e', 'E']) (hcs : IsDigits cs) :
    Token.exponent? (e :: (cs ++ rest)) = Token.exponentDigits? false (cs ++ rest) := by
  obtain ⟨c, cs, rfl⟩ := List.exists_cons_of_ne_nil hcs.1
  have hc := hcs.2 c List.mem_cons_self
  have hplus : c ≠ '+' := by rintro rfl; exact absurd hc (by decide)
  have hminus : c ≠ '-' := by rintro rfl; exact absurd hc (by decide)
  simp only [List.mem_cons, List.not_mem_nil, or_false] at he
  rcases he with rfl | rfl <;> simp [Token.exponent?, hplus, hminus]

theorem exponent?_append (hcs : IsExponent cs) :
    ∃ e, ∀ rest, Ends rest → Token.exponent? (cs ++ rest) = some (e, rest) := by
  cases hcs with
  | none =>
    refine ⟨none, fun rest hrest => ?_⟩
    cases rest with
    | nil => rfl
    | cons c rest =>
      have hc := hrest c rfl
      simp only [followers, List.mem_cons, List.not_mem_nil, or_false] at hc
      rcases hc with rfl | rfl | rfl | rfl | rfl | rfl | rfl <;> rfl
  | @digits e sign cs he hsign hcs =>
    refine ⟨some (if sign = ['-'] then -(Decimal.digitsValue cs : Int) else Decimal.digitsValue cs),
      fun rest hrest => ?_⟩
    rw [List.cons_append, List.append_assoc]
    have hdigits := exponentDigits?_append (sign = ['-']) hcs hrest
    simp only [List.mem_cons, List.not_mem_nil, or_false] at hsign
    rcases hsign with rfl | rfl | rfl
    · exact (exponent?_unsigned he hcs).trans (by simpa using hdigits)
    all_goals
      simp only [List.mem_cons, List.not_mem_nil, or_false] at he
      rcases he with rfl | rfl <;> simpa [Token.exponent?] using hdigits

/-- An exponent, and what follows it, cannot be taken for more of a fraction. -/
theorem head_exponent (hcs : IsExponent cs) (hrest : Ends rest) :
    ∀ c, (cs ++ rest).head? = some c → c.isDigit = false ∧ c ≠ '.' := by
  intro c hc
  have hall : (['e', 'E'] ++ followers).all (fun c => !c.isDigit && c != '.') = true := by decide
  suffices hmem : c ∈ ['e', 'E'] ++ followers by simpa using List.all_eq_true.mp hall c hmem
  cases hcs with
  | none => exact List.mem_append_right _ (hrest c hc)
  | @digits e sign cs he =>
    obtain rfl : e = c := Option.some.inj hc
    exact List.mem_append_left _ he

theorem fractionDigits?_append (hcs : IsFraction cs) :
    ∃ digits, ∀ rest : List Char, (∀ c, rest.head? = some c → c.isDigit = false ∧ c ≠ '.') →
      Token.fractionDigits? (cs ++ rest) = some (digits, rest) := by
  cases hcs with
  | none =>
    refine ⟨[], fun rest hrest => ?_⟩
    cases rest with
    | nil => rfl
    | cons c rest => simp [Token.fractionDigits?, (hrest c rfl).2]
  | @digits cs hcs =>
    refine ⟨cs, fun rest hrest => ?_⟩
    rw [List.cons_append, Token.fractionDigits?, takeDigits_append hcs.2 fun c hc => (hrest c hc).1]
    simp [hcs.1]

theorem head_fraction (hcs : IsFraction cs) (hrest : ∀ c, rest.head? = some c → c.isDigit = false) :
    ∀ c, (cs ++ rest).head? = some c → c.isDigit = false := by
  intro c hc
  cases hcs with
  | none => exact hrest c hc
  | digits => cases hc; decide

theorem wholeDigits?_append (hcs : IsWhole cs)
    (hrest : ∀ c, rest.head? = some c → c.isDigit = false) :
    Token.wholeDigits? (cs ++ rest) = some (cs, rest) := by
  cases hcs with
  | zero => rfl
  | @digits c cs hzero hcs =>
    have hc := hcs.2 c List.mem_cons_self
    rw [List.cons_append, Token.wholeDigits?, if_pos hc, ← List.cons_append,
      takeDigits_append hcs.2 hrest]
    exact hzero

theorem head_number (hcs : IsNumber cs) :
    ∃ c tail, cs = c :: tail ∧ (c = '-' ∨ c.isDigit = true) := by
  obtain ⟨hsign, hwhole, -, -⟩ := hcs
  simp only [List.mem_cons, List.not_mem_nil, or_false] at hsign
  rcases hsign with rfl | rfl
  · cases hwhole with
    | zero => exact ⟨'0', _, rfl, Or.inr rfl⟩
    | @digits c tail _ hcs => exact ⟨c, _, rfl, Or.inr (hcs.2 c List.mem_cons_self)⟩
  · exact ⟨'-', _, rfl, Or.inl rfl⟩

theorem unsigned?_append {whole fraction exponent : List Char} (negative : Bool)
    (hwhole : IsWhole whole) (hfraction : IsFraction fraction) (hexponent : IsExponent exponent) :
    ∃ n, ∀ rest, Ends rest →
      Token.unsigned? negative (whole ++ (fraction ++ (exponent ++ rest))) = some (n, rest) := by
  obtain ⟨digits, hdigits⟩ := fractionDigits?_append hfraction
  obtain ⟨e, he⟩ := exponent?_append hexponent
  refine ⟨{ negative
            mantissa := Decimal.digitsValue (whole ++ digits)
            exponent := e.getD 0 - digits.length
            integral := digits.isEmpty && e.isNone }, fun rest hrest => ?_⟩
  have hhead := head_exponent hexponent hrest
  rw [Token.unsigned?,
    wholeDigits?_append hwhole (head_fraction hfraction fun c hc => (hhead c hc).1)]
  simp only [hdigits _ hhead, he rest hrest]

/-- A number is read up to its end. What follows has no part in it. -/
theorem number?_append (hcs : IsNumber cs) :
    ∃ n, ∀ rest, Ends rest → Token.number? (cs ++ rest) = some (n, rest) := by
  obtain @⟨sign, whole, fraction, exponent, hsign, hwhole, hfraction, hexponent⟩ := hcs
  obtain ⟨n, hn⟩ := unsigned?_append (sign = ['-']) hwhole hfraction hexponent
  refine ⟨n, fun rest hrest => Eq.trans ?_ (hn rest hrest)⟩
  simp only [List.append_assoc]
  simp only [List.mem_cons, List.not_mem_nil, or_false] at hsign
  rcases hsign with rfl | rfl
  · cases hwhole with
    | zero => rfl
    | @digits c whole _ hdigits =>
      have hc := hdigits.2 c List.mem_cons_self
      rw [List.nil_append, List.cons_append, Token.number?]
      · rfl
      · rintro tail ⟨⟩
        exact absurd hc (by decide)
  · rfl

/-- Where a number may begin no other token does. -/
theorem next?_of_number {c : Char} {cs rest : List Char} {n : Numeral}
    (hc : c = '-' ∨ c.isDigit = true) (h : Token.number? (c :: cs) = some (n, rest)) :
    Token.next? (c :: cs) = some (.num n, rest) := by
  unfold Token.next?
  split
  case h_11 => rw [h]
  all_goals
    next heq =>
      obtain ⟨rfl, -⟩ := List.cons.inj heq
      exact absurd hc (by decide)

end

/-! ## Values -/

/-- Blanks. -/
structure Blanks where
  chars : List Char
  blank : ∀ c ∈ chars, c ∈ [' ', '\t', '\n', '\r']

/-- A value between blanks. -/
structure Padded where
  before : Blanks
  value : List Char
  after : Blanks

def Padded.chars (p : Padded) : List Char := p.before.chars ++ (p.value ++ p.after.chars)

/-- A member of an object, with the blanks in it. -/
structure MemberText where
  before : Blanks
  name : StringText
  between : Blanks
  value : Padded

def MemberText.chars (m : MemberText) : List Char :=
  m.before.chars ++ (m.name.chars ++ (m.between.chars ++ ':' :: m.value.chars))

/-- An array. The blanks are all there is in one without elements. -/
def arrayChars (blanks : Blanks) (elements : List Padded) : List Char :=
  '[' :: (blanks.chars ++ ([','].intercalate (elements.map (·.chars)) ++ [']']))

/-- An object. The blanks are all there is in one without members. -/
def objectChars (blanks : Blanks) (members : List MemberText) : List Char :=
  '\x7b' :: (blanks.chars ++ ([','].intercalate (members.map (·.chars)) ++ ['\x7d']))

/-- The text of a value. -/
inductive IsValue : List Char → Prop where
  | null : IsValue "null".toList
  | true : IsValue "true".toList
  | false : IsValue "false".toList
  | number {cs : List Char} : IsNumber cs → IsValue cs
  | string (t : StringText) : IsValue t.chars
  | array (blanks : Blanks) {elements : List Padded} :
      (∀ e ∈ elements, IsValue e.value) → IsValue (arrayChars blanks elements)
  | object (blanks : Blanks) {members : List MemberText} :
      (∀ m ∈ members, IsValue m.value.value) → IsValue (objectChars blanks members)

/-! ## Reading -/

open Json (Frame ReaderState)

/-- Reads on from a state. -/
def readFrom (state : ReaderState) (cs : List Char) : Option Json :=
  match Token.ofChars cs with
  | (tokens, []) => (tokens.foldlM ReaderState.step state).bind (·.result?)
  | _ => none

theorem readFrom_blanks (state : ReaderState) (blanks : Blanks) (rest : List Char) :
    readFrom state (blanks.chars ++ rest) = readFrom state rest := by
  obtain ⟨cs, hcs⟩ := blanks
  induction cs with
  | nil => rfl
  | cons c cs ih =>
    have hc : Token.isBlank c = true := by
      have hall : [' ', '\t', '\n', '\r'].all Token.isBlank = true := by decide
      exact List.all_eq_true.mp hall c (hcs c List.mem_cons_self)
    have htokens : Token.ofChars (c :: (cs ++ rest)) = Token.ofChars (cs ++ rest) := by
      rw [Token.ofChars, if_pos hc]
    rw [List.cons_append, readFrom, htokens]
    exact ih fun d hd => hcs d (List.mem_cons_of_mem _ hd)

/-- A token takes a state to the next. -/
theorem readFrom_token {state next : ReaderState} {token : Token} {c : Char} {cs rest : List Char}
    (hc : Token.isBlank c = false) (htoken : Token.next? (c :: cs) = some (token, rest))
    (hstep : state.step token = some next) : readFrom state (c :: cs) = readFrom next rest := by
  have htokens :
      Token.ofChars (c :: cs) = (token :: (Token.ofChars rest).1, (Token.ofChars rest).2) := by
    rw [Token.ofChars, if_neg (by simp [hc])]
    split
    next hn =>
      rw [htoken] at hn
      cases hn
      rfl
    next hn =>
      rw [htoken] at hn
      cases hn
  rw [readFrom, htokens, readFrom]
  rcases Token.ofChars rest with ⟨tokens, left⟩
  cases left with
  | nil => simp only [List.foldlM_cons, hstep, Option.bind_eq_bind, Option.bind_some]
  | cons d left => rfl

/-- A state in which a value may come. In front of the first element of an array its end may come as
well. -/
def Awaits (state : ReaderState) (around : List Frame) : Prop :=
  ∀ token, token ≠ .rightBracket → state.step token = ReaderState.onValue around token

theorem awaits_awaitValue (around : List Frame) : Awaits (.awaitValue around) around :=
  fun _ _ => rfl

theorem awaits_firstElement (around : List Frame) :
    Awaits (.firstElement around) (.array [] :: around) := by
  intro token htoken
  cases token with
  | rightBracket => exact absurd rfl htoken
  | _ => rfl

/-- A text is read as a value wherever a value may come. -/
def Reads (cs : List Char) (v : Json) : Prop :=
  ∀ state around rest, Awaits state around → Ends rest →
    readFrom state (cs ++ rest) = readFrom (.complete v around) rest

section

variable {v : Json} {rest : List Char}

theorem ends_cons {c : Char} (h : c ∈ followers) (rest : List Char) : Ends (c :: rest) := by
  rintro d ⟨⟩
  exact h

theorem Ends.blanks (h : Ends rest) (blanks : Blanks) : Ends (blanks.chars ++ rest) := by
  obtain ⟨cs, hcs⟩ := blanks
  cases cs with
  | nil => exact h
  | cons c cs => exact ends_cons (List.mem_append_left _ (hcs c List.mem_cons_self)) _

/-- Values that are one token. -/
theorem reads_token {c : Char} {cs : List Char} {token : Token} (hc : Token.isBlank c = false)
    (htoken : ∀ rest, Ends rest → Token.next? (c :: (cs ++ rest)) = some (token, rest))
    (hvalue : ∀ around, ReaderState.onValue around token = some (.complete v around)) :
    Reads (c :: cs) v := by
  intro state around rest hstate hrest
  -- no value is a closing bracket, which would end an array instead
  have hne : token ≠ .rightBracket := by
    rintro rfl
    cases hvalue []
  exact readFrom_token hc (htoken rest hrest) ((hstate token hne).trans (hvalue around))

theorem reads_null : Reads "null".toList .null := reads_token rfl (fun _ _ => rfl) fun _ => rfl

theorem next?_string (t : StringText) (rest : List Char) :
    Token.next? (t.chars ++ rest) = some (.str (Token.stringOf t.items), rest) := by
  rw [StringText.chars, List.cons_append, List.append_assoc, List.singleton_append, Token.next?,
    stringItems_parts t.written]

theorem reads_string (t : StringText) : Reads t.chars (.str (Token.stringOf t.items)) :=
  reads_token rfl (fun rest _ => next?_string t rest) fun _ => rfl

theorem reads_number {cs : List Char} (h : IsNumber cs) : ∃ n, Reads cs (.num n) := by
  obtain ⟨n, hn⟩ := number?_append h
  obtain ⟨c, tail, rfl, hc⟩ := head_number h
  have hblank : Token.isBlank c = false := by
    rw [← Bool.not_eq_true]
    intro hblank
    simp only [Token.isBlank, Bool.or_eq_true, beq_iff_eq] at hblank
    rcases hblank with ((rfl | rfl) | rfl) | rfl <;> exact absurd hc (by decide)
  exact ⟨n, reads_token hblank (fun rest hrest => next?_of_number hc (hn rest hrest)) fun _ => rfl⟩

theorem readFrom_padded {p : Padded} {state : ReaderState} {around : List Frame}
    (h : Reads p.value v) (hstate : Awaits state around) (hrest : Ends rest) :
    readFrom state (p.chars ++ rest) = readFrom (.complete v around) rest := by
  rw [Padded.chars, List.append_assoc, List.append_assoc, readFrom_blanks,
    h state around _ hstate (hrest.blanks _), readFrom_blanks]

end

/-! ## Arrays and objects -/

/-- Items between commas are read one by one. In a state that is `Ready` for an item, those before
it are in reverse order. -/
theorem readFrom_separated {ι α : Type} {Item : ι → α → Prop} (chars : ι → List Char)
    (Ready : List α → ReaderState → Prop) (after : List α → ReaderState)
    (hitem : ∀ item x before state rest, Item item x → Ready before state → Ends rest →
      readFrom state (chars item ++ rest) = readFrom (after (x :: before)) rest)
    (hcomma : ∀ before, ∃ state, (after before).step .comma = some state ∧ Ready before state)
    {items : List ι} {xs : List α} (h : List.Forall₂ Item items xs) (hne : items ≠ [])
    {before : List α} {state : ReaderState} (hstate : Ready before state) {rest : List Char}
    (hrest : Ends rest) :
    readFrom state ([','].intercalate (items.map chars) ++ rest) =
      readFrom (after (xs.reverse ++ before)) rest := by
  induction h generalizing before state with
  | nil => exact absurd rfl hne
  | @cons item x items xs hfirst hmore ih =>
    cases hmore with
    | nil =>
      rw [List.map_singleton, List.intercalate_singleton]
      exact hitem _ _ _ _ _ hfirst hstate hrest
    | @cons item' x' items xs _ _ =>
      -- the comma ends the first item, and the others are read behind it
      obtain ⟨next, hnext, hready⟩ := hcomma (x :: before)
      have hitems : [','].intercalate ((item :: item' :: items).map chars) ++ rest =
          chars item ++ ',' :: ([','].intercalate ((item' :: items).map chars) ++ rest) := by
        simp [List.intercalate_cons_cons]
      rw [hitems, hitem _ _ _ _ _ hfirst hstate (ends_cons (by decide) _),
        readFrom_token rfl rfl hnext, ih (by simp) hready, List.reverse_cons (a := x),
        List.append_assoc, List.singleton_append]

/-- An array is read if its elements are. -/
theorem reads_array {blanks : Blanks} {elements : List Padded} {vs : List Json}
    (h : List.Forall₂ (fun e v => Reads e.value v) elements vs) :
    Reads (arrayChars blanks elements) (.arr vs) := by
  intro state around rest hstate hrest
  have hopen : state.step .leftBracket = some (.firstElement around) := hstate _ (by simp)
  have hchars : arrayChars blanks elements ++ rest =
      '[' :: (blanks.chars ++ ([','].intercalate (elements.map Padded.chars) ++ ']' :: rest)) := by
    simp [arrayChars]
  rw [hchars, readFrom_token rfl rfl hopen, readFrom_blanks]
  rcases eq_or_ne elements [] with rfl | hne
  · cases h
    exact readFrom_token rfl rfl rfl
  · have hread :=
      readFrom_separated Padded.chars (fun before state => Awaits state (.array before :: around))
      (.afterElement · around) (fun _ _ _ _ _ he hs hr => readFrom_padded he hs hr)
      (fun _ => ⟨_, rfl, awaits_awaitValue _⟩) h hne (awaits_firstElement around)
      (ends_cons (c := ']') (by decide) rest)
    rw [hread, List.append_nil, readFrom_token rfl rfl rfl, List.reverse_reverse]

/-- A member is read as its name and its value. -/
def ReadsMember (m : MemberText) (nv : JsonString × Json) : Prop :=
  Token.stringOf m.name.items = nv.1 ∧ Reads m.value.value nv.2

/-- In front of a member, with those before it in reverse order. -/
def AwaitsMember (around : List Frame) (before : List (JsonString × Json))
    (state : ReaderState) : Prop :=
  ∀ name, state.step (.str name) = some (.awaitColon before name around)

theorem readFrom_member {m : MemberText} {nv : JsonString × Json}
    {before : List (JsonString × Json)}
    {state : ReaderState} {around : List Frame} {rest : List Char} (h : ReadsMember m nv)
    (hstate : AwaitsMember around before state) (hrest : Ends rest) :
    readFrom state (m.chars ++ rest) = readFrom (.afterMember (nv :: before) around) rest := by
  obtain ⟨hname, hvalue⟩ := h
  have hchars : m.chars ++ rest =
      m.before.chars ++ (m.name.chars ++ (m.between.chars ++ ':' :: (m.value.chars ++ rest))) := by
    simp [MemberText.chars]
  have hafter :=
    readFrom_token rfl (next?_string m.name (m.between.chars ++ ':' :: (m.value.chars ++ rest)))
    (hstate _)
  rw [hchars, readFrom_blanks]
  refine hafter.trans ?_
  rw [hname, readFrom_blanks, readFrom_token rfl rfl rfl,
    readFrom_padded hvalue (awaits_awaitValue _) hrest]
  rfl

/-- An object is read if its members are. -/
theorem reads_object {blanks : Blanks} {members : List MemberText} {nvs : List (JsonString × Json)}
    (h : List.Forall₂ ReadsMember members nvs) : Reads (objectChars blanks members) (.obj nvs) := by
  intro state around rest hstate hrest
  have hopen : state.step .leftBrace = some (.firstMember around) := hstate _ (by simp)
  have hchars : objectChars blanks members ++ rest =
      '\x7b' ::
        (blanks.chars ++ ([','].intercalate (members.map MemberText.chars) ++ '\x7d' :: rest)) := by
    simp [objectChars]
  rw [hchars, readFrom_token rfl rfl hopen, readFrom_blanks]
  rcases eq_or_ne members [] with rfl | hne
  · cases h
    exact readFrom_token rfl rfl rfl
  · have hfirst : AwaitsMember around [] (.firstMember around) := fun _ => rfl
    have hread := readFrom_separated MemberText.chars (AwaitsMember around) (.afterMember · around)
      (fun _ _ _ _ _ hm hs hr => readFrom_member hm hs hr) (fun _ => ⟨_, rfl, fun _ => rfl⟩) h hne
        hfirst
      (ends_cons (c := '\x7d') (by decide) rest)
    rw [hread, List.append_nil, readFrom_token rfl rfl rfl, List.reverse_reverse]

/-- **Every value is read.** -/
theorem reads_of_isValue {cs : List Char} (h : IsValue cs) : ∃ v, Reads cs v := by
  have : Nonempty Json := ⟨.null⟩
  induction h with
  | null => exact ⟨_, reads_null⟩
  | true => exact ⟨.bool true, reads_token rfl (fun _ _ => rfl) fun _ => rfl⟩
  | false => exact ⟨.bool false, reads_token rfl (fun _ _ => rfl) fun _ => rfl⟩
  | number h =>
    obtain ⟨n, hn⟩ := reads_number h
    exact ⟨_, hn⟩
  | string t => exact ⟨_, reads_string t⟩
  | @array blanks elements _ ih =>
    choose! v hv using ih
    refine ⟨.arr (elements.map v), reads_array ?_⟩
    exact List.forall₂_map_right_iff.mpr (List.forall₂_same.mpr hv)
  | @object blanks members _ ih =>
    choose! v hv using ih
    refine ⟨.obj (members.map fun m => (Token.stringOf m.name.items, v m)), reads_object ?_⟩
    exact List.forall₂_map_right_iff.mpr (List.forall₂_same.mpr fun m hm => ⟨rfl, hv m hm⟩)

/-- A whole text is read, with blanks around its value. -/
theorem read?_of_reads {v : Json} {p : Padded} {text : String} (htext : text.toList = p.chars)
    (h : Reads p.value v) : Json.read? text = some v := by
  have hends : Ends [] := fun c hc => by cases hc
  have hread := readFrom_padded h (awaits_awaitValue []) hends
  have hdone : readFrom (.complete v []) [] = some v := by
    rw [readFrom, Token.ofChars]
    rfl
  rw [List.append_nil, ← htext, hdone] at hread
  exact hread

end JsonText

end CallDelta
