import CallDelta.Decimal.Basic

/-!
# JSON values

Members of an object keep their order, and a name may occur more than once: whether that is an error
is for the reader of the value to say. A number keeps whether it was written as an integer.
-/

namespace CallDelta

/-- A string of a JSON text. Escapes can name one half of a surrogate pair alone; such a string
stands for no text. -/
inductive JsonString where
  | text (s : String)
  | unpaired
  deriving DecidableEq

/-- A number of a JSON text. -/
structure Numeral extends Decimal where
  /-- Whether it has neither a fraction nor an exponent. -/
  integral : Bool
  deriving DecidableEq

/-- A JSON value. -/
inductive Json where
  | null
  | bool (b : Bool)
  | num (n : Numeral)
  | str (s : JsonString)
  | arr (elements : List Json)
  | obj (members : List (JsonString × Json))

namespace Json

/-- A text as a value. -/
def text (s : String) : Json := str (.text s)

/-- A natural number as a value. -/
def nat (n : Nat) : Json :=
  num { negative := false, mantissa := n, exponent := 0, integral := true }

/-- An optional value, null if it is missing. -/
def opt {α : Type} (write : α → Json) (value : Option α) : Json := value.elim null write

/-- A list of values. -/
def list {α : Type} (write : α → Json) (values : List α) : Json := arr (values.map write)

/-- An object with the given members. -/
def record (members : List (String × Json)) : Json :=
  obj (members.map (fun (name, value) => (.text name, value)))

end Json

end CallDelta
