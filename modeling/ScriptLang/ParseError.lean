import ScriptLang.Token

/-! Why a source text is not a program. Every cause names the place it was found at. -/

namespace ScriptLang

inductive ParseError
  | unexpectedCharacter (character : Char) (position : Position)
  | unexpectedToken (expected : String) (found : String) (position : Position)
  | unexpectedEndOfInput (expected : String) (position : Position)
  | constantWithoutValue (name : String) (position : Position)
  | invalidMemberProperty (position : Position)
  | invalidAssignmentTarget (position : Position)
  | invalidParameter (position : Position)
  | duplicateDefault (position : Position)
  | invalidTernary (position : Position)
  | invalidTernaryTest (position : Position)
  deriving DecidableEq, Repr

namespace ParseError

def position : ParseError → Position
  | unexpectedCharacter _ p | unexpectedToken _ _ p | unexpectedEndOfInput _ p
  | constantWithoutValue _ p | invalidMemberProperty p | invalidAssignmentTarget p
  | invalidParameter p | duplicateDefault p | invalidTernary p | invalidTernaryTest p => p

def reason : ParseError → String
  | unexpectedCharacter c _ => "Unrecognized character '" ++ String.singleton c ++ "'."
  | unexpectedToken expected found _ => "Expected " ++ expected ++ ", found " ++ found ++ "."
  | unexpectedEndOfInput expected _ => "Unexpected end of input, expected " ++ expected ++ "."
  | constantWithoutValue name _ => "Constant '" ++ name ++ "' must be given a value."
  | invalidMemberProperty _ => "The right-hand side of '.' must be an identifier."
  | invalidAssignmentTarget _ => "Invalid left-hand side in assignment."
  | invalidParameter _ => "Function parameters must be identifiers."
  | duplicateDefault _ => "A match body can only have one default case."
  | invalidTernary _ => "Expected 'left | right' after '->'."
  | invalidTernaryTest _ => "Expected a name or binary expression before '->'."

def message (e : ParseError) : String :=
  "Error on line " ++ toString e.position.line ++ ", column " ++ toString e.position.column ++ ": " ++
    e.reason

/-- The error for finding `token` where `expected` was required. -/
def unexpected (token : Token) (expected : String) : ParseError :=
  match token.kind with
  | .endOfInput => unexpectedEndOfInput expected token.position
  | _ => unexpectedToken expected token.describe token.position

end ParseError

end ScriptLang
