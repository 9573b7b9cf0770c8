import ScriptLang.Grammar.Basic
import ScriptLang.Number.Reading

/-! Expressions, from the loosest to the tightest binding: assignment, ternary, `try`, logic,
comparison and sum, product, call and member, primary. -/

namespace ScriptLang.Grammar

open TokenKind (keyword symbol)

def parameter : Parser String := do
  let token ← advance
  if token.kind = .identifier then return token.literal
  else fail (.invalidParameter token.position)

namespace Nested

variable (g : Nested)

def functionRest (name : String) (line : Nat) : Parser (FunctionDecl Unit) := do
  let _ ← expect (symbol .leftParen) "'(' to open the parameter list"
  let parameters ← commaSeparated parameter .rightParen
  let body ← g.block
  return .mk () name parameters body line

def arguments : Parser (List (Expr Unit)) :=
  commaSeparated g.expression .rightParen

/-- One `.name` or `[key]` behind `container`. -/
def access (container : Expr Unit) : Parser (Expr Unit) := do
  let operator ← advance
  if operator.kind = symbol .dot then
    let name ← advance
    if name.kind = .identifier then
      return .place (.dot container name.literal name.line operator.line)
    else fail (.invalidMemberProperty name.position)
  else
    let key ← g.expression
    let _ ← expect (symbol .rightBracket) "']' after computed member"
    return .place (.index container key operator.line)

def startsAccess (kind : TokenKind) : Bool :=
  kind = symbol .dot || kind = symbol .leftBracket

def objectStep (properties : List (String × Expr Unit)) :
    Parser (List (String × Expr Unit) ⊕ List (String × Expr Unit)) := do
  if ← eat (symbol .rightBrace) then return .inr properties.reverse
  let key ← advance
  if key.kind ≠ .identifier && key.kind ≠ .string then fail (.unexpected key "a property key")
  let value ←
    if ← eat (symbol .colon) then g.expression
    else pure (.place (.variable key.literal key.line))
  if !(← nextIs (symbol .rightBrace)) then
    let _ ← expect (symbol .comma) "',' or '\x7d' after property"
  return .inl ((key.literal, value) :: properties)

/-- An object behind its opening brace. A key without a value stands for the variable of its name. -/
def object (line : Nat) : Parser (Expr Unit) := do
  return .object (← repeatFrom g.objectStep []) line

/-- The patterns of an arm and the last `default` among them. -/
def patternStep (read : List (Expr Unit) × Option Token) :
    Parser ((List (Expr Unit) × Option Token) ⊕ (List (Expr Unit) × Option Token)) := do
  let token ← peek
  let read ←
    if token.kind = keyword .defaultKw then do
      skip
      pure (read.1, some token)
    else do
      let pattern ← g.expression
      pure (pattern :: read.1, read.2)
  if ← nextIs (symbol .fatArrow) then return .inr (read.1.reverse, read.2)
  let _ ← expect (symbol .comma) "',' or '=>' after match pattern"
  return .inl read

def armStep (arms : List (Arm Unit)) : Parser (List (Arm Unit) ⊕ List (Arm Unit)) := do
  if ← eat (symbol .rightBrace) then return .inr arms.reverse
  let (patterns, default) ← repeatFrom g.patternStep ([], none)
  let _ ← expect (symbol .fatArrow) "'=>' after match patterns"
  let body ← g.block
  let _ ← eat (symbol .comma)
  match default with
  | some token =>
    if arms.any Arm.isDefault then fail (.duplicateDefault token.position)
    return .inl (.mk patterns true body :: arms)
  | none => return .inl (.mk patterns false body :: arms)

/-- A `match` behind its keyword. -/
def select (line : Nat) : Parser (Expr Unit) := do
  let scrutinee ← g.expression
  let _ ← expect (symbol .leftBrace) "'\x7b' to begin the match body"
  return .select scrutinee (← repeatFrom g.armStep []) line

/-- A function behind its keyword; the name is optional. -/
def function (line : Nat) : Parser (Expr Unit) := do
  let name ←
    if ← nextIs .identifier then do pure (← advance).literal
    else pure FunctionDecl.anonymous
  return .function (← g.functionRest name line)

def parenthesised : Parser (Expr Unit) := do
  let e ← g.expression
  let _ ← expect (symbol .rightParen) "')' after expression"
  return e

def memberStep (e : Expr Unit) : Parser (Expr Unit ⊕ Expr Unit) := do
  if startsAccess (← peek).kind then return .inl (← g.access e)
  return .inr e

/-- A primary expression and the members taken of it. -/
def member : Parser (Expr Unit) := do
  repeatFrom g.memberStep (← g.primary)

/-- An instantiation behind its keyword. The class is named or is a member. -/
def construct (line : Nat) : Parser (Expr Unit) := do
  let start ← peek
  match ← g.member with
  | .place target =>
    let _ ← expect (symbol .leftParen) "'(' after the class in a new expression"
    return .construct target (← g.arguments) line
  | _ => fail (.unexpected start "a class name after 'new'")

def primaryBody : Parser (Expr Unit) := do
  let token ← advance
  let line := token.line
  match token.kind with
  | .identifier => return .place (.variable token.literal line)
  | .number =>
    match Number.read? token.literal with
    | some value => return .number value line
    | none => fail (.unexpected token "a number")
  | .string => return .string token.literal line
  | keyword .fnKw => g.function line
  | symbol .leftParen => g.parenthesised
  | keyword .matchKw => g.select line
  | keyword .newKw => g.construct line
  | symbol .leftBrace => g.object line
  | symbol .leftBracket => return .array (← commaSeparated g.expression .rightBracket) line
  | _ => fail (.unexpected token "an expression")

def postfixStep (e : Expr Unit) : Parser (Expr Unit ⊕ Expr Unit) := do
  let token ← peek
  if token.kind = symbol .leftParen then
    skip
    return .inl (.call e (← g.arguments) token.line)
  if startsAccess token.kind then return .inl (← g.access e)
  return .inr e

/-- A primary expression with the calls and members behind it. -/
def postfixed : Parser (Expr Unit) := do
  repeatFrom g.postfixStep (← g.primaryBody)

def productOperator? : TokenKind → Option Operator
  | symbol .slash => some .div
  | symbol .star => some .mul
  | symbol .percent => some .mod
  | _ => none

def sumOperator? : TokenKind → Option Operator
  | symbol .plus => some .add
  | symbol .minus => some .sub
  | symbol .equalEqual => some .equal
  | symbol .bangEqual => some .notEqual
  | symbol .less => some .less
  | symbol .greater => some .greater
  | _ => none

def logicOperator? : TokenKind → Option Operator
  | symbol .andAnd => some .and
  | symbol .bar => some .or
  | _ => none

end Nested

/-- Joins `left` to one more operand if an operator is next. -/
def chainStep (operator? : TokenKind → Option Operator) (operand : Parser (Expr Unit))
    (left : Expr Unit) : Parser (Expr Unit ⊕ Expr Unit) := do
  let token ← peek
  match operator? token.kind with
  | some operator =>
    skip
    return .inl (.binary operator left (← operand) token.line)
  | none => return .inr left

/-- Operands with operators of one level between them, grouped to the left. -/
def chain (operator? : TokenKind → Option Operator) (operand : Parser (Expr Unit)) :
    Parser (Expr Unit) := do
  repeatFrom (chainStep operator? operand) (← operand)

/-- A ternary is the call of a function without a name whose body chooses a branch. -/
def ternary (test left right : Expr Unit) (line : Nat) : Expr Unit :=
  let choice := .branch test [.expression left line] (some [.expression right line]) line
  .call (.function (.mk () FunctionDecl.anonymous [] [choice] line)) [] line

def isTernaryTest : Expr Unit → Bool
  | .place (.variable ..) | .binary .. => true
  | _ => false

namespace Nested

variable (g : Nested)

def product : Parser (Expr Unit) :=
  chain productOperator? g.postfixed

def sum : Parser (Expr Unit) :=
  chain sumOperator? g.product

/-- The first operator joins two sums. From the second on, the right operand is a whole
expression. -/
def logic : Parser (Expr Unit) := do
  match ← chainStep logicOperator? g.sum (← g.sum) with
  | .inl pair => repeatFrom (chainStep logicOperator? g.expression) pair
  | .inr single => return single

def attempt : Parser (Expr Unit) := do
  let token ← peek
  if token.kind = keyword .tryKw then
    skip
    let body ← g.block
    let _ ← expect (keyword .catchKw) "'catch' after try block"
    return .attempt body (← g.block) token.line
  else g.logic

def conditional : Parser (Expr Unit) := do
  let test ← g.attempt
  let arrow ← peek
  if arrow.kind ≠ symbol .arrow then return test
  skip
  if !isTernaryTest test then fail (.invalidTernaryTest arrow.position)
  match ← g.expression with
  | .binary .or left right _ => return ternary test left right arrow.line
  | _ => fail (.invalidTernary arrow.position)

def assignment : Parser (Expr Unit) := do
  let target ← g.conditional
  let token ← peek
  if token.kind ≠ symbol .equals then return target
  skip
  match target with
  | .place target => return .assign target (← g.expression) token.line
  | _ => fail (.invalidAssignmentTarget token.position)

end Nested

end ScriptLang.Grammar
