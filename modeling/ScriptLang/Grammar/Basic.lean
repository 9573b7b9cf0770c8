import ScriptLang.ParseError
import ScriptLang.Syntax

/-! Reading phrases from the front of a list of tokens. Whoever looks at the next token passes over the
line breaks before it, so they are optional separators everywhere. The tokens that are left bound
every repetition, because each round takes at least one that is no line break. -/

namespace ScriptLang.Grammar

/-- Why a phrase was not read: the tokens are in error, or a bound on rounds or levels was too small. -/
inductive Stop
  | error (e : ParseError)
  | exhausted
  deriving DecidableEq, Repr

abbrev Parser : Type → Type :=
  StateT (List Token) (Except Stop)

variable {α β γ : Type}

def fail (e : ParseError) : Parser α :=
  throw (.error e)

def afterBreaks (tokens : List Token) : List Token :=
  tokens.dropWhile (·.kind = .newline)

/-- The next token, which is left in place. The line breaks before it are dropped. -/
def peek : Parser Token :=
  fun tokens =>
    match afterBreaks tokens with
    | [] => .error (.error (.unexpectedEndOfInput "more input" ⟨0, 0⟩))
    | token :: rest => .ok (token, token :: rest)

/-- Takes the token at the very front, which has been looked at before. -/
def skip : Parser Unit :=
  fun tokens => .ok ((), tokens.tail)

def advance : Parser Token := do
  let token ← peek
  skip
  return token

def nextIs (kind : TokenKind) : Parser Bool :=
  fun tokens =>
    let tokens := afterBreaks tokens
    .ok (tokens.head?.any (·.kind = kind), tokens)

/-- Takes the next token if it has the kind. -/
def eat (kind : TokenKind) : Parser Bool := do
  let found ← nextIs kind
  if found then skip
  return found

def expect (kind : TokenKind) (expected : String) : Parser Token := do
  let token ← peek
  if token.kind = kind then
    skip
    return token
  else fail (.unexpected token expected)

def expectName (expected : String) : Parser String := do
  return (← expect .identifier expected).literal

/-- Repeats `step` once more than `budget` has tokens that are no line breaks, unless it gives a
result before. -/
def iterate (step : β → Parser (β ⊕ γ)) : List Token → β → Parser γ
  | [], b => do
    match ← step b with
    | .inl _ => throw .exhausted
    | .inr result => return result
  | token :: budget, b =>
    if token.kind = .newline then iterate step budget b
    else do
      match ← step b with
      | .inl next => iterate step budget next
      | .inr result => return result

/-- Repeats `step` until it gives a result. -/
def repeatFrom (step : β → Parser (β ⊕ γ)) (b : β) : Parser γ :=
  fun tokens => iterate step tokens b tokens

def listStep (item : Parser α) (closing : Symbol) (items : List α) :
    Parser (List α ⊕ List α) := do
  if ← eat (.symbol closing) then return .inr items.reverse
  let next ← item
  let token ← advance
  if token.kind = .symbol closing then return .inr (next :: items).reverse
  if token.kind = .symbol .comma then return .inl (next :: items)
  fail (.unexpected token ("',' or " ++ (TokenKind.symbol closing).text))

/-- Items with commas between them up to the closing token. A comma may precede it. -/
def commaSeparated (item : Parser α) (closing : Symbol) : Parser (List α) :=
  repeatFrom (listStep item closing) []

/-- The phrases that contain one another, as they are read inside of the phrase at hand. -/
structure Nested where
  expression : Parser (Expr Unit)
  block : Parser (List (Stmt Unit))
  branch : Parser (Stmt Unit)
  primary : Parser (Expr Unit)

end ScriptLang.Grammar
