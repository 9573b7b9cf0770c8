import ScriptLang.Value

/-! Why a running program stops. A program can throw any value; every other cause is a fault of an
operation, and a program that catches one sees its message. -/

namespace ScriptLang

inductive Fault
  | unknownVariable (name : String) (line : Nat)
  | constantReassignment (name : String) (line : Nat)
  | notCallable (found : String) (line : Nat)
  | notAClass (found : String) (line : Nat)
  | indexOutOfBounds (index length : Nat) (line : Nat)
  | invalidIndex (index : String) (line : Nat)
  | unknownMember (member target : String) (line : Nat)
  | typeError (details : String) (line : Nat)
  | divisionByZero (line : Nat)
  | loopControlOutsideLoop (word : String) (line : Nat)
  | tagArity (count : Nat) (line : Nat)
  | recursionLimit (limit : Nat) (line : Nat)
  | native (function reason : String)
  deriving DecidableEq, Repr

namespace Fault

def onLine (line : Nat) (reason : String) : String :=
  "Error on line " ++ toString line ++ ": " ++ reason

def message : Fault → String
  | unknownVariable name line => onLine line ("Unknown variable '" ++ name ++ "'.")
  | constantReassignment name line => onLine line ("Cannot reassign constant '" ++ name ++ "'.")
  | notCallable found line => onLine line ("Cannot call a value of type " ++ found ++ ".")
  | notAClass found line => onLine line ("Can only instantiate classes, found " ++ found ++ ".")
  | indexOutOfBounds index length line =>
    onLine line
      ("Index " ++ toString index ++ " is out of bounds for length " ++ toString length ++ ".")
  | invalidIndex index line => onLine line ("Invalid index " ++ index ++ ".")
  | unknownMember member target line =>
    onLine line ("'" ++ target ++ "' has no member '" ++ member ++ "'.")
  | typeError details line => onLine line ("Type error: " ++ details ++ ".")
  | divisionByZero line => onLine line "Division by zero."
  | loopControlOutsideLoop word line =>
    onLine line ("Can only " ++ word ++ " inside while and for loops.")
  | tagArity count line =>
    onLine line ("Tagging an enum requires one argument, got " ++ toString count ++ ".")
  | recursionLimit limit line =>
    onLine line ("Maximum call depth of " ++ toString limit ++ " exceeded.")
  | native function reason => "Native function '" ++ function ++ "' failed: " ++ reason ++ "."

end Fault

inductive RuntimeError
  | thrown (value : Value) (line : Nat)
  | fault (f : Fault)

/-- What a program that catches the error finds in `error`. -/
def RuntimeError.caught : RuntimeError → Value
  | thrown value _ => value
  | fault f => .string f.message

end ScriptLang
