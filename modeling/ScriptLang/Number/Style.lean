import ScriptLang.Number.Shortest

/-! Writing numbers. -/

namespace ScriptLang.Number

/-- How a number is written: what a whole number ends in, and which leading exponents are written
without an exponent part. -/
structure Style where
  wholeEnd : String
  positional : Int → Bool

namespace Style

def zeros (count : Nat) : String :=
  String.ofList (List.replicate count '0')

def positionalText (style : Style) (d : Decimal) : String :=
  let digits := (toString d.digits).toList
  let whole := digits.length + d.exponent
  if 0 ≤ d.exponent then String.ofList digits ++ zeros d.exponent.toNat ++ style.wholeEnd
  else if 0 < whole then
    String.ofList (digits.take whole.toNat) ++ "." ++ String.ofList (digits.drop whole.toNat)
  else "0." ++ zeros (-whole).toNat ++ String.ofList digits

/-- One digit, the others behind a point, and the exponent of the first. -/
def exponentText (d : Decimal) : String :=
  let digits := (toString d.digits).toList
  let rest := if digits.length ≤ 1 then "" else "." ++ String.ofList (digits.drop 1)
  String.ofList (digits.take 1) ++ rest ++ "e" ++ toString d.leadingExponent

def decimalText (style : Style) (d : Decimal) : String :=
  if style.positional d.leadingExponent then style.positionalText d else exponentText d

def text (style : Style) (x : Float) : String :=
  if x.isNaN then "NaN"
  else
    let magnitude := if x.isInf then "inf" else style.decimalText (shortest x)
    if isNegative x then "-" ++ magnitude else magnitude

/-- Programs see numbers without an exponent, whole ones without a point. -/
def display : Style :=
  ⟨"", fun _ => true⟩

/-- Whoever inspects a value sees that it is a number: whole ones keep a point, and very large and
very small ones have an exponent. -/
def debug : Style :=
  ⟨".0", fun e => -4 ≤ e && e < 16⟩

end Style

end ScriptLang.Number
