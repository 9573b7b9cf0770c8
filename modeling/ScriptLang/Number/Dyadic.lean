/-! The parts of a floating-point number: a sign, and for a finite number a magnitude
`mantissa · 2 ^ exponent` with a natural mantissa. -/

namespace ScriptLang.Number

def isNegative (x : Float) : Bool :=
  x.toBits >>> 63 == 1

def biasedExponent (x : Float) : Nat :=
  ((x.toBits >>> 52) &&& 0x7ff).toNat

def fraction (x : Float) : Nat :=
  (x.toBits &&& 0xfffffffffffff).toNat

/-- The mantissa of a finite number. Only subnormal numbers lack the leading bit. -/
def mantissa (x : Float) : Nat :=
  if biasedExponent x = 0 then fraction x else fraction x + (1 <<< 52)

def exponent (x : Float) : Int :=
  (max (biasedExponent x) 1 : Nat) - 1075

/-- The number below a power of two is only half as far away as the one above it. -/
def hasNarrowGapBelow (x : Float) : Bool :=
  fraction x = 0 && 1 < biasedExponent x

/-- The number `mantissa · 2 ^ exponent`, for a mantissa below `2 ^ 53` and an exponent in the range
of numbers. The mantissa is doubled as long as its bits and the range of exponents have room. -/
def ofParts (mantissa : Nat) (exponent : Int) : Float :=
  if mantissa = 0 then 0
  else
    let shift := min (52 - mantissa.log2) (exponent + 1074).toNat
    let biased := (exponent - shift + 1074).toNat
    Float.ofBits ((biased <<< 52) + (mantissa <<< shift)).toUInt64

/-- The remainder of dividing toward zero, with the sign of the dividend. It is exact: both numbers
are multiples of one power of two, and the remainder of the multiples is the result. -/
def remainder (x y : Float) : Float :=
  if x.isNaN || y.isNaN || x.isInf || y == 0 then 0.0 / 0.0
  else if y.isInf then x
  else
    let unit := min (exponent x) (exponent y)
    let dividend := mantissa x <<< (exponent x - unit).toNat
    let divisor := mantissa y <<< (exponent y - unit).toNat
    let magnitude := ofParts (dividend % divisor) unit
    if isNegative x then -magnitude else magnitude

end ScriptLang.Number
