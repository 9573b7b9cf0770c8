import ScriptLang.Position

/-! The tokens of the language: reserved words, operators and brackets, names, literals, line
breaks, and the mark at the end of the input. -/

namespace ScriptLang

inductive Keyword
  | letKw | constKw | fnKw | ifKw | elseKw | forKw | whileKw | breakKw | continueKw | returnKw
  | classKw | staticKw | enumKw | matchKw | defaultKw | newKw | throwKw | tryKw | catchKw
  deriving DecidableEq, Repr

namespace Keyword

def all : List Keyword :=
  [letKw, constKw, fnKw, ifKw, elseKw, forKw, whileKw, breakKw, continueKw, returnKw, classKw,
    staticKw, enumKw, matchKw, defaultKw, newKw, throwKw, tryKw, catchKw]

def text : Keyword → String
  | letKw => "let"
  | constKw => "const"
  | fnKw => "fn"
  | ifKw => "if"
  | elseKw => "else"
  | forKw => "for"
  | whileKw => "while"
  | breakKw => "break"
  | continueKw => "continue"
  | returnKw => "return"
  | classKw => "class"
  | staticKw => "static"
  | enumKw => "enum"
  | matchKw => "match"
  | defaultKw => "default"
  | newKw => "new"
  | throwKw => "throw"
  | tryKw => "try"
  | catchKw => "catch"

def ofText? (text : String) : Option Keyword :=
  all.find? (·.text = text)

end Keyword

/-- Operators, brackets and punctuation. -/
inductive Symbol
  | fatArrow | arrow | equalEqual | bangEqual | andAnd | bar | plus | minus | star | slash
  | percent | equals | less | greater | leftParen | rightParen | leftBrace | rightBrace
  | leftBracket | rightBracket | comma | dot | colon | semicolon
  deriving DecidableEq, Repr

namespace Symbol

def all : List Symbol :=
  [fatArrow, arrow, equalEqual, bangEqual, andAnd, bar, plus, minus, star, slash, percent, equals,
    less, greater, leftParen, rightParen, leftBrace, rightBrace, leftBracket, rightBracket, comma,
    dot, colon, semicolon]

def text : Symbol → String
  | fatArrow => "=>"
  | arrow => "->"
  | equalEqual => "=="
  | bangEqual => "!="
  | andAnd => "&&"
  | bar => "|"
  | plus => "+"
  | minus => "-"
  | star => "*"
  | slash => "/"
  | percent => "%"
  | equals => "="
  | less => "<"
  | greater => ">"
  | leftParen => "("
  | rightParen => ")"
  | leftBrace => "\x7b"
  | rightBrace => "\x7d"
  | leftBracket => "["
  | rightBracket => "]"
  | comma => ","
  | dot => "."
  | colon => ":"
  | semicolon => ";"

end Symbol

inductive TokenKind
  | keyword (word : Keyword)
  | symbol (mark : Symbol)
  | identifier
  | number
  | string
  | newline
  | endOfInput
  deriving DecidableEq, Repr

def TokenKind.text : TokenKind → String
  | keyword word => "'" ++ word.text ++ "'"
  | symbol mark => "'" ++ mark.text ++ "'"
  | identifier => "identifier"
  | number => "number"
  | string => "string"
  | newline => "newline"
  | endOfInput => "end of input"

/-- A token of a source text. The lexeme is the text itself, the literal is that text without the
quotes of a string. -/
structure Token where
  kind : TokenKind
  literal : String
  lexeme : String
  position : Position
  deriving DecidableEq, Repr

namespace Token

def line (t : Token) : Nat :=
  t.position.line

/-- What messages call a token: names and literals are shown with their text. -/
def describe (t : Token) : String :=
  match t.kind with
  | .identifier | .number | .string => t.kind.text ++ " '" ++ t.literal ++ "'"
  | kind => kind.text

def endAt (position : Position) : Token :=
  ⟨.endOfInput, "", "", position⟩

end Token

end ScriptLang
