/-!
# The shortest decimal of a double

A double is written with the fewest digits that read back to it, without an exponent and without a
point where there is no fraction.

A positive double is `m * 2 ^ q`. The numbers that round to it form an interval around it, whose
ends belong to it if `m` is even. For one digit, two digits and so on, the two neighbours of the
double on the grid of decimals with that many digits are tried; the first grid with a neighbour
inside the interval wins, and of two neighbours the nearer one, the upper one if both are equally
near. Seventeen digits always suffice. All of this is exact arithmetic on natural numbers.
-/

namespace CallDelta

namespace Shortest

/-- A positive double as `mantissa * 2 ^ exponent`. `boundary` says that the doubles just below it
lie closer together than those above it. -/
structure Binary where
  mantissa : Nat
  exponent : Int
  boundary : Bool

/-- The parts of a finite double without its sign. -/
def Binary.ofBits (bits : Nat) : Binary :=
  let fraction : Nat := bits % Nat.pow 2 52
  let power : Nat := bits / Nat.pow 2 52 % Nat.pow 2 11
  if power = 0 then { mantissa := fraction, exponent := -1074, boundary := false }
  else
    { mantissa := Nat.pow 2 52 + fraction, exponent := Int.ofNat power - 1075
      boundary := fraction = 0 ∧ 1 < power }

/-- A double and the ends of its interval, over one denominator. -/
structure Interval where
  low : Nat
  value : Nat
  high : Nat
  denominator : Nat
  closed : Bool

/-- The interval of the numbers that round to a double. -/
def Binary.interval (b : Binary) : Interval :=
  let up := Nat.pow 2 b.exponent.toNat
  { low := (4 * b.mantissa - (if b.boundary then 1 else 2)) * up
    value := 4 * b.mantissa * up
    high := (4 * b.mantissa + 2) * up
    denominator := 4 * Nat.pow 2 (-b.exponent).toNat
    closed := b.mantissa % 2 = 0 }

/-- The interval with all numbers times `10 ^ k`. -/
def Interval.scale (v : Interval) (k : Int) : Interval :=
  let up := Nat.pow 10 k.toNat
  { v with
    low := v.low * up, value := v.value * up, high := v.high * up
    denominator := v.denominator * Nat.pow 10 (-k).toNat }

/-- Whether a whole number lies in the interval. -/
def Interval.contains (v : Interval) (n : Nat) : Bool :=
  let x := n * v.denominator
  if v.closed then decide (v.low ≤ x ∧ x ≤ v.high) else decide (v.low < x ∧ x < v.high)

/-- The whole number in the interval that is nearest to its value, of the two next to it. -/
def Interval.pick? (v : Interval) : Option Nat :=
  let lower := v.value / v.denominator
  let upper := lower + 1
  let upperFirst := decide (upper * v.denominator - v.value ≤ v.value - lower * v.denominator)
  let order := if upperFirst then [upper, lower] else [lower, upper]
  order.find? v.contains

/-- The power of ten of the leading digit of `value / denominator`. -/
def Interval.leadingPower (v : Interval) : Int :=
  if v.denominator ≤ v.value then ((Nat.toDigits 10 (v.value / v.denominator)).length : Int) - 1
  else
    match (List.range 400).find? (fun k => v.denominator ≤ v.value * Nat.pow 10 (k + 1)) with
    | some k => -((k : Int) + 1)
    | none => 0

/-- The digits, and the power of ten of the last of them. -/
def digits (b : Binary) : Nat × Int :=
  let v := b.interval
  let top := v.leadingPower
  let found := (List.range 17).findSome? (fun (k : Nat) =>
    let power := top - Int.ofNat k
    ((v.scale (-power)).pick?).map (fun n => (n, power)))
  found.getD (0, 0)

/-- Digits times a power of ten, in positional notation. -/
def positional (digits : Nat) (power : Int) : String :=
  let text := Nat.toDigits 10 digits
  if 0 ≤ power then String.ofList (text ++ List.replicate power.toNat '0')
  else
    let places := (-power).toNat
    let padded := List.replicate (places + 1 - text.length) '0' ++ text
    let whole := padded.take (padded.length - places)
    let fraction := padded.drop (padded.length - places)
    let fraction := (fraction.reverse.dropWhile (· == '0')).reverse
    if fraction.isEmpty then String.ofList whole else String.ofList (whole ++ '.' :: fraction)

end Shortest

/-- A double with the fewest digits that read back to it, without an exponent. -/
def Float.shortest (x : Float) : String :=
  let bits := x.toBits.toNat
  let sign := if bits / Nat.pow 2 63 = 1 then "-" else ""
  if x.isNaN then "NaN"
  else if x.isInf then sign ++ "inf"
  else if x == 0 then sign ++ "0"
  else
    let (n, power) := Shortest.digits (.ofBits (bits % Nat.pow 2 63))
    sign ++ Shortest.positional n power

end CallDelta
