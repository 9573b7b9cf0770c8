import ScriptLang.Grammar.Expression

/-! Statements and blocks. One semicolon may follow any statement. -/

namespace ScriptLang.Grammar

open TokenKind (keyword symbol)

namespace Nested

variable (g : Nested)

def variableDecl : Parser (VariableDecl Unit) := do
  let word ← advance
  let name ← expect .identifier "a variable name"
  let given ← eat (symbol .equals)
  if word.kind = keyword .constKw then
    if given then return .constant name.literal (← g.expression) word.line
    else fail (.constantWithoutValue name.literal name.position)
  else if given then return .variable name.literal (some (← g.expression)) word.line
  else return .variable name.literal none word.line

def test (opening closing : String) : Parser (Expr Unit) := do
  let _ ← expect (symbol .leftParen) opening
  let e ← g.expression
  let _ ← expect (symbol .rightParen) closing
  return e

def alternate : Parser (Option (List (Stmt Unit))) := do
  if !(← eat (keyword .elseKw)) then return none
  if ← nextIs (keyword .ifKw) then return some [← g.branch]
  return some (← g.block)

def branchBody : Parser (Stmt Unit) := do
  let word ← advance
  let test ← g.test "'(' after 'if'" "')' after if condition"
  let body ← g.block
  return .branch test body (← g.alternate) word.line

/-- The three clauses of the header follow one another; a semicolon may stand between them. -/
def forLoop : Parser (Stmt Unit) := do
  let word ← advance
  let _ ← expect (symbol .leftParen) "'(' after 'for'"
  let token ← peek
  if token.kind ≠ keyword .letKw && token.kind ≠ keyword .constKw then
    fail (.unexpected token "a variable declaration in for header")
  let start ← g.variableDecl
  let _ ← eat (symbol .semicolon)
  let test ← g.expression
  let _ ← eat (symbol .semicolon)
  let update ← g.expression
  let _ ← expect (symbol .rightParen) "')' after for header"
  return .forLoop start test update (← g.block) word.line

/-- What has been read of a class, each part backwards. -/
structure ClassParts where
  fields : List String
  staticFields : List (String × Expr Unit)
  methods : List (FunctionDecl Unit)
  staticMethods : List (FunctionDecl Unit)

def ClassParts.finish (parts : ClassParts) (name : String) (line : Nat) : ClassDecl Unit :=
  .mk name parts.fields.reverse parts.staticFields.reverse parts.methods.reverse
    parts.staticMethods.reverse line

/-- One member of a class: a name with a parenthesis behind it is a method, a static field has an
initialiser and any other field has none. -/
def classMember (parts : ClassParts) : Parser ClassParts := do
  let isStatic ← eat (keyword .staticKw)
  let name ← expect .identifier "a class member name"
  if ← nextIs (symbol .leftParen) then
    let method ← g.functionRest name.literal name.line
    if isStatic then return { parts with staticMethods := method :: parts.staticMethods }
    else return { parts with methods := method :: parts.methods }
  else if isStatic then
    let _ ← expect (symbol .equals) "'=' after a static field name"
    let value ← g.expression
    return { parts with staticFields := (name.literal, value) :: parts.staticFields }
  else
    let token ← peek
    if token.kind = symbol .equals then fail (.unexpected token "a field without initialiser")
    return { parts with fields := name.literal :: parts.fields }

def classStep (parts : ClassParts) : Parser (ClassParts ⊕ ClassParts) := do
  if ← eat (symbol .rightBrace) then return .inr parts
  let parts ← g.classMember parts
  let _ ← eat (symbol .semicolon)
  return .inl parts

def classDecl : Parser (Stmt Unit) := do
  let word ← advance
  let name ← expectName "a class name"
  let _ ← expect (symbol .leftBrace) "'\x7b' to open the class body"
  let parts ← repeatFrom g.classStep ⟨[], [], [], []⟩
  return .declareClass (parts.finish name word.line)

end Nested

def memberNameStep (names : List String) : Parser (List String ⊕ List String) := do
  if ← eat (symbol .rightBrace) then return .inr names.reverse
  let member ← advance
  if member.kind ≠ .identifier then fail (.unexpected member "an enum member name")
  if !(← nextIs (symbol .rightBrace)) then
    let _ ← expect (symbol .comma) "',' or '\x7d' after enum member"
  return .inl (member.literal :: names)

def enumDecl : Parser (Stmt Unit) := do
  let word ← advance
  let name ← expectName "an enum name"
  let _ ← expect (symbol .leftBrace) "'\x7b' to open the enum body"
  return .declareEnum name (← repeatFrom memberNameStep []) word.line

namespace Nested

variable (g : Nested)

def functionDecl (line : Nat) : Parser (Stmt Unit) := do
  skip
  let name ← expectName "a function name"
  return .function (← g.functionRest name line)

def whileLoop (line : Nat) : Parser (Stmt Unit) := do
  skip
  let test ← g.test "'(' after 'while'" "')' after while condition"
  return .whileLoop test (← g.block) line

def returns (line : Nat) : Parser (Stmt Unit) := do
  skip
  if (← nextIs (symbol .semicolon)) || (← nextIs (symbol .rightBrace)) then
    return .returns none line
  return .returns (some (← g.expression)) line

/-- A statement without its semicolon. The first word tells the form. -/
def bareStatement : Parser (Stmt Unit) := do
  let token ← peek
  let line := token.line
  match token.kind with
  | keyword .letKw | keyword .constKw => return .declare (← g.variableDecl)
  | keyword .fnKw => g.functionDecl line
  | keyword .ifKw => g.branchBody
  | keyword .forKw => g.forLoop
  | keyword .whileKw => g.whileLoop line
  | keyword .returnKw => g.returns line
  | keyword .breakKw =>
    skip
    return .breaks line
  | keyword .continueKw =>
    skip
    return .continues line
  | keyword .throwKw =>
    skip
    return .throws (← g.expression) line
  | keyword .classKw => g.classDecl
  | keyword .enumKw => enumDecl
  | _ => return .expression (← g.assignment) line

def statement : Parser (Stmt Unit) := do
  let s ← g.bareStatement
  let _ ← eat (symbol .semicolon)
  return s

def blockStep (body : List (Stmt Unit)) : Parser (List (Stmt Unit) ⊕ List (Stmt Unit)) := do
  if ← eat (symbol .rightBrace) then return .inr body.reverse
  let token ← peek
  if token.kind = .endOfInput then fail (.unexpected token "'\x7d' to close a block")
  return .inl ((← g.statement) :: body)

def blockBody : Parser (List (Stmt Unit)) := do
  let _ ← expect (symbol .leftBrace) "'\x7b' to open a block"
  repeatFrom g.blockStep []

def programStep (body : List (Stmt Unit)) : Parser (List (Stmt Unit) ⊕ List (Stmt Unit)) := do
  let token ← peek
  if token.kind = .endOfInput then return .inr body.reverse
  return .inl ((← g.statement) :: body)

/-- Statements up to the mark at the end of the input. -/
def program : Parser Source :=
  repeatFrom g.programStep []

end Nested

end ScriptLang.Grammar
