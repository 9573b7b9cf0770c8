import ScriptLang.Number.Dyadic

/-! Reading numbers: an optional sign, then digits with at most one point and an optional exponent,
or a name for infinity or for no number. The nearest number is the result. -/

namespace ScriptLang.Number

def digitsValue (digits : List Char) : Nat :=
  digits.foldl (fun value c => 10 * value + (c.toNat - '0'.toNat)) 0

/-- The number nearest to `digits · 10 ^ exponent`. Far outside the range of numbers the power is
not computed. -/
def ofDecimal (digits : Nat) (exponent : Int) : Float :=
  let leading := (toString digits).length + exponent
  if digits = 0 || leading < -400 then 0
  else if 400 < leading then 1.0 / 0.0
  else Float.ofScientific digits (exponent < 0) exponent.natAbs

/-- The value of an exponent part without its letter. -/
def readExponent? (text : List Char) : Option Int :=
  let (negative, digits) : Bool × List Char :=
    match text with
    | '-' :: rest => (true, rest)
    | '+' :: rest => (false, rest)
    | _ => (false, text)
  if digits.isEmpty || !digits.all Char.isDigit then none
  else some (if negative then -digitsValue digits else digitsValue digits)

def readMagnitude? (text : List Char) : Option Float :=
  let whole := text.takeWhile Char.isDigit
  let afterWhole := text.dropWhile Char.isDigit
  let (part, rest) : List Char × List Char :=
    match afterWhole with
    | '.' :: rest => (rest.takeWhile Char.isDigit, rest.dropWhile Char.isDigit)
    | _ => ([], afterWhole)
  if whole.isEmpty && part.isEmpty then none
  else
    let digits := digitsValue (whole ++ part)
    match rest with
    | [] => some (ofDecimal digits (-part.length))
    | c :: rest =>
      if c = 'e' || c = 'E' then
        (readExponent? rest).map fun e => ofDecimal digits (e - part.length)
      else none

def readName? (text : List Char) : Option Float :=
  match String.ofList (text.map Char.toLower) with
  | "inf" | "infinity" => some (1.0 / 0.0)
  | "nan" => some (0.0 / 0.0)
  | _ => none

def read? (text : String) : Option Float :=
  match text.toList with
  | '-' :: rest => (unsigned? rest).map (-·)
  | '+' :: rest => unsigned? rest
  | rest => unsigned? rest
where
  unsigned? (rest : List Char) : Option Float :=
    (readName? rest).or (readMagnitude? rest)

end ScriptLang.Number
