import ScriptLang.Proofs.Literal
import ScriptLang.Syntax
import ScriptLang.Token

/-! Tokens that spell a program. Every operand stands in parentheses and every statement ends with a
semicolon, so that no phrase can take up what belongs to its neighbour. -/

namespace ScriptLang

namespace Token

def ofKind (kind : TokenKind) (text : String) (line : Nat) : Token :=
  ⟨kind, text, text, ⟨line, 1⟩⟩

def mark (s : Symbol) (line : Nat) : Token :=
  ofKind (.symbol s) s.text line

def word (k : Keyword) (line : Nat) : Token :=
  ofKind (.keyword k) k.text line

def name (x : String) (line : Nat) : Token :=
  ofKind .identifier x line

def text (s : String) (line : Nat) : Token :=
  ofKind .string s line

def number (x : Float) (line : Nat) : Token :=
  ofKind .number (Number.spell x) line

end Token

open Token

def Operator.symbol : Operator → Symbol
  | add => .plus
  | sub => .minus
  | mul => .star
  | div => .slash
  | mod => .percent
  | equal => .equalEqual
  | notEqual => .bangEqual
  | less => .less
  | greater => .greater
  | and => .andAnd
  | or => .bar

namespace Spelling

/-- In parentheses, the first of which is on `line`. -/
def enclosed (line : Nat) (tokens : List Token) : List Token :=
  mark .leftParen line :: (tokens ++ [mark .rightParen 1])

def braced (tokens : List Token) : List Token :=
  mark .leftBrace 1 :: (tokens ++ [mark .rightBrace 1])

/-- Each name with the mark behind it. -/
def names (separator : Symbol) (xs : List String) : List Token :=
  xs.flatMap fun x => [name x 1, mark separator 1]

end Spelling

open Spelling

mutual

@[simp]
def Place.spell : Place Unit → List Token
  | .variable x line => [name x line]
  | .dot container x nameLine line =>
    enclosed 1 container.spell ++ [mark .dot line, name x nameLine]
  | .index container key line =>
    enclosed 1 container.spell ++ mark .leftBracket line ::
      (enclosed 1 key.spell ++ [mark .rightBracket 1])

@[simp]
def Expr.spell : Expr Unit → List Token
  | .number x line => [number x line]
  | .string s line => [text s line]
  | .place p => p.spell
  | .object properties line =>
    mark .leftBrace line :: (Spelling.properties properties ++ [mark .rightBrace 1])
  | .array elements line =>
    mark .leftBracket line :: (Spelling.items elements ++ [mark .rightBracket 1])
  | .binary operator left right line =>
    enclosed 1 left.spell ++ mark operator.symbol line :: enclosed 1 right.spell
  | .assign target value line =>
    enclosed 1 target.spell ++ mark .equals line :: enclosed 1 value.spell
  | .call callee arguments line =>
    enclosed 1 callee.spell ++ mark .leftParen line ::
      (Spelling.items arguments ++ [mark .rightParen 1])
  | .construct target arguments line =>
    word .newKw line :: (enclosed 1 target.spell ++ mark .leftParen 1 ::
      (Spelling.items arguments ++ [mark .rightParen 1]))
  | .select scrutinee arms line =>
    word .matchKw line :: (enclosed 1 scrutinee.spell ++ braced (Spelling.arms arms))
  | .function f => word .fnKw f.line :: name f.name 1 :: f.spell
  | .attempt body handler line =>
    word .tryKw line :: (braced (Spelling.statements body) ++
      word .catchKw 1 :: braced (Spelling.statements handler))

/-- Each expression with a comma behind it. -/
@[simp]
def Spelling.items : List (Expr Unit) → List Token
  | [] => []
  | e :: rest => enclosed 1 e.spell ++ mark .comma 1 :: Spelling.items rest

@[simp]
def Spelling.properties : List (String × Expr Unit) → List Token
  | [] => []
  | (key, value) :: rest =>
    name key 1 :: mark .colon 1 :: (enclosed 1 value.spell ++
      mark .comma 1 :: Spelling.properties rest)

/-- Each pattern with a comma before it. -/
@[simp]
def Spelling.patterns : List (Expr Unit) → List Token
  | [] => []
  | e :: rest => mark .comma 1 :: (enclosed 1 e.spell ++ Spelling.patterns rest)

/-- An arm begins with `default` or with its first pattern, and has a comma behind it. -/
@[simp]
def Spelling.arms : List (Arm Unit) → List Token
  | [] => []
  | .mk patterns true body :: rest =>
    word .defaultKw 1 :: (Spelling.patterns patterns ++
      mark .fatArrow 1 :: (braced (Spelling.statements body) ++
        mark .comma 1 :: Spelling.arms rest))
  | .mk (first :: patterns) false body :: rest =>
    enclosed 1 first.spell ++ (Spelling.patterns patterns ++
      mark .fatArrow 1 :: (braced (Spelling.statements body) ++
        mark .comma 1 :: Spelling.arms rest))
  | .mk [] false _ :: _ => []

/-- The parameters and the body. -/
@[simp]
def FunctionDecl.spell : FunctionDecl Unit → List Token
  | .mk _ _ parameters body _ =>
    mark .leftParen 1 :: (names .comma parameters ++
      mark .rightParen 1 :: braced (Spelling.statements body))

@[simp]
def Spelling.methods (isStatic : Bool) : List (FunctionDecl Unit) → List Token
  | [] => []
  | f :: rest =>
    (if isStatic then [word .staticKw 1] else []) ++ name f.name f.line ::
      (f.spell ++ mark .semicolon 1 :: Spelling.methods isStatic rest)

@[simp]
def Spelling.staticFields : List (String × Expr Unit) → List Token
  | [] => []
  | (x, value) :: rest =>
    word .staticKw 1 :: name x 1 :: mark .equals 1 :: (enclosed 1 value.spell ++
      mark .semicolon 1 :: Spelling.staticFields rest)

@[simp]
def VariableDecl.spell : VariableDecl Unit → List Token
  | .variable x none line => [word .letKw line, name x 1]
  | .variable x (some value) line =>
    word .letKw line :: name x 1 :: mark .equals 1 :: enclosed 1 value.spell
  | .constant x value line =>
    word .constKw line :: name x 1 :: mark .equals 1 :: enclosed 1 value.spell

@[simp]
def ClassDecl.spell : ClassDecl Unit → List Token
  | .mk x fields staticFields methods staticMethods line =>
    word .classKw line :: name x 1 ::
      braced (names .semicolon fields ++ (Spelling.staticFields staticFields ++
        (Spelling.methods false methods ++ Spelling.methods true staticMethods)))

@[simp]
def Stmt.spell : Stmt Unit → List Token
  | .declare d => d.spell
  | .function f => word .fnKw f.line :: name f.name 1 :: f.spell
  | .branch test body none line =>
    word .ifKw line :: (enclosed 1 test.spell ++ braced (Spelling.statements body))
  | .branch test body (some alternate) line =>
    word .ifKw line :: (enclosed 1 test.spell ++ (braced (Spelling.statements body) ++
      word .elseKw 1 :: braced (Spelling.statements alternate)))
  | .forLoop start test update body line =>
    word .forKw line :: mark .leftParen 1 :: (start.spell ++ mark .semicolon 1 ::
      (enclosed 1 test.spell ++ mark .semicolon 1 :: (enclosed 1 update.spell ++
        mark .rightParen 1 :: braced (Spelling.statements body))))
  | .whileLoop test body line =>
    word .whileKw line :: (enclosed 1 test.spell ++ braced (Spelling.statements body))
  | .returns none line => [word .returnKw line]
  | .returns (some value) line => word .returnKw line :: enclosed 1 value.spell
  | .breaks line => [word .breakKw line]
  | .continues line => [word .continueKw line]
  | .throws value line => word .throwKw line :: enclosed 1 value.spell
  | .declareClass c => c.spell
  | .declareEnum x members line =>
    word .enumKw line :: name x 1 :: braced (names .comma members)
  | .expression e line => enclosed line e.spell

/-- Each statement with a semicolon behind it. -/
@[simp]
def Spelling.statements : List (Stmt Unit) → List Token
  | [] => []
  | s :: rest => s.spell ++ mark .semicolon 1 :: Spelling.statements rest

end

def Source.spell (source : Source) : List Token :=
  Spelling.statements source ++ [Token.endAt ⟨1, 1⟩]

end ScriptLang
