import ScriptLang.Grammar.Statement
import ScriptLang.Token.Lexer

/-! Reading whole programs. Phrases nest at most as deep as there are tokens that are no line breaks,
since each one takes such a token before it reads another inside of it. -/

namespace ScriptLang

namespace Grammar

/-- The phrases that may hold `depth` levels of phrases. -/
def nested : Nat → Nested
  | 0 => ⟨throw .exhausted, throw .exhausted, throw .exhausted, throw .exhausted⟩
  | depth + 1 =>
    let inner := nested depth
    ⟨inner.assignment, inner.blockBody, inner.branchBody, inner.primaryBody⟩

/-- The tokens that are no line breaks. -/
def significant (tokens : List Token) : List Token :=
  tokens.filter (·.kind ≠ .newline)

def readProgram (tokens : List Token) : Except Stop Source :=
  (nested ((significant tokens).length + 1)).program.run' tokens

end Grammar

/-- The program that the tokens spell. The list ends with the mark at the end of the input. -/
def parseTokens (tokens : List Token) : Except ParseError Source :=
  match Grammar.readProgram tokens with
  | .ok program => .ok program
  | .error (.error e) => .error e
  | .error .exhausted => .error (.unexpectedEndOfInput "more input" ⟨0, 0⟩)

def parse (source : String) : Except ParseError Source :=
  tokenize source >>= parseTokens

end ScriptLang
