import CallDelta.Json.Value

/-!
# Taking JSON values apart

A record is written as an object with its fields as members, in any order and beside members that
mean nothing to the record, or as an array of its fields in their own order. A field that occurs
twice is an error. A list may leave off fields at its end if they have a default.
-/

namespace CallDelta

namespace Json

/-- The text of a value. -/
def asText? : Json → Option String
  | str (.text s) => some s
  | _ => none

/-- The truth value of a value. -/
def asBool? : Json → Option Bool
  | bool b => some b
  | _ => none

/-- The natural number of a value that was written as an integer without a sign and lies below a
bound. -/
def asNatBelow? (bound : Nat) : Json → Option Nat
  | num n => if n.integral && !n.negative && n.mantissa < bound then some n.mantissa else none
  | _ => none

/-- A count or a position fits 64 bits. -/
def asSize? (v : Json) : Option Nat := v.asNatBelow? 18446744073709551616

/-- The number of a node fits 32 bits. -/
def asNodeId? (v : Json) : Option Nat := v.asNatBelow? 4294967296

/-- The elements of an array. -/
def asList? {α : Type} (read : Json → Option α) : Json → Option (List α)
  | arr elements => elements.mapM read
  | _ => none

/-- A value that may be null. -/
def asOption? {α : Type} (read : Json → Option α) : Json → Option (Option α)
  | null => some none
  | v => (read v).map some

/-- Of a list of names, the one that a value gives, as a text or as the only member of an object. -/
def asChoice? {α : Type} (name : α → String) (choices : List α) : Json → Option α
  | str (.text s) => choices.find? (fun a => name a == s)
  | obj [(.text s, null)] => choices.find? (fun a => name a == s)
  | _ => none

/-- The members with a name. -/
def membersNamed (name : String) (members : List (JsonString × Json)) : List Json :=
  members.filterMap (fun (n, v) => if n = .text name then some v else none)

/-- The value of a field in an object. Inside there is nothing if the field is missing. -/
def member? (members : List (JsonString × Json)) (name : String) : Option (Option Json) :=
  match membersNamed name members with
  | [] => some none
  | [v] => some (some v)
  | _ => none

/-- The fields of a record, in the order of their names. `needed` fields may not be left off the end
of an array. The names in an object have to be texts. -/
def fields? (names : List String) (needed : Nat) : Json → Option (List (Option Json))
  | obj members =>
    if members.all (fun (n, _) => n != .unpaired) then names.mapM (member? members) else none
  | arr elements =>
    if needed ≤ elements.length && elements.length ≤ names.length then
      some (elements.map some ++ List.replicate (names.length - elements.length) none)
    else
      none
  | _ => none

/-- A field that has to be there. -/
def required {α : Type} (read : Json → Option α) (field : Option Json) : Option α := field.bind read

/-- A field that may be missing or null. -/
def optional {α : Type} (read : Json → Option α) : Option Json → Option (Option α)
  | none => some none
  | some v => v.asOption? read

end Json

end CallDelta
