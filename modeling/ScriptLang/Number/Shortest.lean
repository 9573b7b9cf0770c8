import ScriptLang.Number.Dyadic

/-! The shortest decimal that reads back as a given number, and of those the nearest. A decimal
reads back as a number if it lies in the interval around it that rounds to it; the ends belong to
the interval exactly when the mantissa is even. -/

namespace ScriptLang.Number

/-- The number `digits · 10 ^ exponent`. -/
structure Decimal where
  digits : Nat
  exponent : Int
  deriving DecidableEq, Repr

namespace Decimal

def leadingExponent (d : Decimal) : Int :=
  (toString d.digits).length + d.exponent - 1

/-- Drops zeros at the end of the digits, at most `count` of them. -/
def trim : Nat → Decimal → Decimal
  | 0, d => d
  | count + 1, d =>
    if d.digits ≠ 0 && d.digits % 10 = 0 then trim count ⟨d.digits / 10, d.exponent + 1⟩ else d

end Decimal

/-- A positive rational with the interval of numbers that read back as it, all over `denominator`. -/
structure Rounding where
  value : Nat
  low : Nat
  high : Nat
  denominator : Nat
  closed : Bool

namespace Rounding

/-- The interval around a positive finite number. Its ends lie halfway to the neighbours. -/
def ofFloat (x : Float) : Rounding :=
  let m := 4 * mantissa x
  let up := Nat.pow 2 (exponent x - 2).toNat
  ⟨m * up, (m - if hasNarrowGapBelow x then 1 else 2) * up, (m + 2) * up,
    Nat.pow 2 (2 - exponent x).toNat, mantissa x % 2 = 0⟩

/-- The least `k` with `value < 10 ^ k`, for a number at least `10 ^ -400`. -/
def magnitude (r : Rounding) : Int :=
  if r.denominator ≤ r.value then (toString (r.value / r.denominator)).length
  else
    match (List.range 400).find? fun j => r.denominator ≤ r.value * Nat.pow 10 j with
    | some j => 1 - j
    | none => 0

/-- Whether `digits · up / down` reads back. -/
def contains (r : Rounding) (up down digits : Nat) : Bool :=
  let d := digits * up * r.denominator
  if r.closed then r.low * down ≤ d && d ≤ r.high * down
  else r.low * down < d && d < r.high * down

/-- The nearest multiple of `10 ^ exponent` among the two beside the value that reads back. A tie
goes up. -/
def onGrid? (r : Rounding) (exponent : Int) : Option Decimal :=
  let up := Nat.pow 10 exponent.toNat
  let down := Nat.pow 10 (-exponent).toNat
  let value := r.value * down
  let unit := up * r.denominator
  let below := value / unit
  let nearer := if 2 * value < (2 * below + 1) * unit then below else below + 1
  let farther := if nearer = below then below + 1 else below
  if r.contains up down nearer then some ⟨nearer, exponent⟩
  else if r.contains up down farther then some ⟨farther, exponent⟩
  else none

/-- Seventeen digits always suffice. -/
def shortest (r : Rounding) : Decimal :=
  let k := r.magnitude
  match (List.range 17).findSome? fun (n : Nat) => r.onGrid? (k - n - 1) with
  | some d => d.trim 17
  | none => ⟨0, 0⟩

end Rounding

/-- The shortest decimal of a finite number's magnitude. -/
def shortest (x : Float) : Decimal :=
  if mantissa x = 0 then ⟨0, 0⟩ else (Rounding.ofFloat x).shortest

end ScriptLang.Number
