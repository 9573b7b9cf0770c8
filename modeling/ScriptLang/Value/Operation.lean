import ScriptLang.Value.Display
import ScriptLang.Value.Equality

/-! Binary operators. Operands of kinds an operator does not know give `false`; only a zero divisor
is a fault. -/

namespace ScriptLang

def arithmetic (operator : Operator) (x y : Float) (line : Nat) : Except Fault Value :=
  match operator with
  | .add => .ok (.number (x + y))
  | .sub => .ok (.number (x - y))
  | .mul => .ok (.number (x * y))
  | .div => if y == 0 then .error (.divisionByZero line) else .ok (.number (x / y))
  | .mod =>
    if y == 0 then .error (.divisionByZero line) else .ok (.number (Number.remainder x y))
  | .less => .ok (.bool (x < y))
  | .greater => .ok (.bool (x > y))
  | .equal | .notEqual | .and | .or => .ok (.bool false)

/-- The result of an operator on two values. A string on either side of `+` joins display forms. -/
def State.operate (s : State) (operator : Operator) (a b : Value) (line : Nat) :
    Except Fault Value :=
  match operator, a, b with
  | .equal, a, b => .ok (.bool (s.equal a b))
  | .notEqual, a, b => .ok (.bool (!s.equal a b))
  | .and, .bool a, .bool b => .ok (.bool (a && b))
  | .or, .bool a, .bool b => .ok (.bool (a || b))
  | .add, .string a, b => .ok (.string (a ++ s.display b))
  | .add, a, .string b => .ok (.string (s.display a ++ b))
  | operator, .number x, .number y => arithmetic operator x y line
  | _, _, _ => .ok (.bool false)

end ScriptLang
