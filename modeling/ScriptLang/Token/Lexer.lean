import ScriptLang.ParseError

/-! Splitting a source text into tokens. At each place the longest lexeme is taken; blanks and
comments separate tokens and leave no trace. A text where nothing matches is refused at its first
character. -/

namespace ScriptLang

namespace Lexer

def isBlank (c : Char) : Bool :=
  c = ' ' || c = '\t' || c = '\r' || c = '\x0c'

def isWordStart (c : Char) : Bool :=
  c.isAlpha || c = '_'

def isWordPart (c : Char) : Bool :=
  isWordStart c || c.isDigit

/-- A lexeme at the start of a text and what follows it. A gap has no kind. -/
structure Munch where
  kind : Option TokenKind
  lexeme : List Char
  rest : List Char
  deriving DecidableEq

/-- The longest start of `text` whose characters all satisfy `p`. -/
def Munch.span (kind : Option TokenKind) (p : Char → Bool) (text : List Char) : Munch :=
  ⟨kind, text.takeWhile p, text.dropWhile p⟩

/-- Puts `opening` in front of a lexeme. -/
def Munch.behind (opening : List Char) (m : Munch) : Munch :=
  { m with lexeme := opening ++ m.lexeme }

def wordKind (lexeme : List Char) : TokenKind :=
  match Keyword.ofText? (String.ofList lexeme) with
  | some word => .keyword word
  | none => .identifier

def munchWord (text : List Char) : Munch :=
  let m := Munch.span none isWordPart text
  { m with kind := some (wordKind m.lexeme) }

/-- Digits, with a point only if a digit follows it. -/
def munchNumber (text : List Char) : Munch :=
  let whole := Munch.span (some .number) Char.isDigit text
  match whole.rest with
  | '.' :: d :: rest =>
    if d.isDigit then
      (Munch.span (some .number) Char.isDigit (d :: rest)).behind (whole.lexeme ++ ['.'])
    else whole
  | _ => whole

/-- A string runs to the next quote of its kind. -/
def munchString? (quote : Char) (text : List Char) : Option Munch :=
  let body := Munch.span (some .string) (· != quote) text
  match body.rest with
  | [] => none
  | _ :: rest => some ⟨some .string, quote :: body.lexeme ++ [quote], rest⟩

def munchSymbol? : List Char → Option Munch
  | '=' :: '>' :: rest => mark .fatArrow ['=', '>'] rest
  | '-' :: '>' :: rest => mark .arrow ['-', '>'] rest
  | '=' :: '=' :: rest => mark .equalEqual ['=', '='] rest
  | '!' :: '=' :: rest => mark .bangEqual ['!', '='] rest
  | '&' :: '&' :: rest => mark .andAnd ['&', '&'] rest
  | c :: rest =>
    match c with
    | '|' => mark .bar [c] rest
    | '+' => mark .plus [c] rest
    | '-' => mark .minus [c] rest
    | '*' => mark .star [c] rest
    | '/' => mark .slash [c] rest
    | '%' => mark .percent [c] rest
    | '=' => mark .equals [c] rest
    | '<' => mark .less [c] rest
    | '>' => mark .greater [c] rest
    | '(' => mark .leftParen [c] rest
    | ')' => mark .rightParen [c] rest
    | '{' => mark .leftBrace [c] rest
    | '}' => mark .rightBrace [c] rest
    | '[' => mark .leftBracket [c] rest
    | ']' => mark .rightBracket [c] rest
    | ',' => mark .comma [c] rest
    | '.' => mark .dot [c] rest
    | ':' => mark .colon [c] rest
    | ';' => mark .semicolon [c] rest
    | _ => none
  | [] => none
where
  mark (symbol : Symbol) (lexeme rest : List Char) : Option Munch :=
    some ⟨some (.symbol symbol), lexeme, rest⟩

/-- The longest lexeme at the start of a text. -/
def munch? : List Char → Option Munch
  | [] => none
  | c :: rest =>
    if isBlank c then some ((Munch.span none isBlank rest).behind [c])
    else if c = '\n' then some ⟨some .newline, [c], rest⟩
    else if isWordStart c then some (munchWord (c :: rest))
    else if c.isDigit then some (munchNumber (c :: rest))
    else if c = '"' || c = '\'' then munchString? c rest
    else if c = '/' && rest.head? = some '/' then
      some ((Munch.span none (fun d => d ≠ '\n' && d ≠ '\r') rest).behind [c])
    else munchSymbol? (c :: rest)

def literal (kind : TokenKind) (lexeme : List Char) : List Char :=
  match kind with
  | .string => (lexeme.drop 1).dropLast
  | _ => lexeme

def token (kind : TokenKind) (lexeme : List Char) (position : Position) : Token :=
  ⟨kind, String.ofList (literal kind lexeme), String.ofList lexeme, position⟩

/-! ### Nothing is lost and something is taken -/

theorem Munch.span_append (kind : Option TokenKind) (p : Char → Bool) (text : List Char) :
    (Munch.span kind p text).lexeme ++ (Munch.span kind p text).rest = text :=
  List.takeWhile_append_dropWhile

theorem munchNumber_append (text : List Char) :
    (munchNumber text).lexeme ++ (munchNumber text).rest = text := by
  have whole := Munch.span_append (some .number) Char.isDigit text
  unfold munchNumber
  dsimp only
  split
  · rename_i d rest h
    split
    · have fraction := Munch.span_append (some .number) Char.isDigit (d :: rest)
      simp only [Munch.behind, List.append_assoc, fraction]
      rw [List.singleton_append, ← h, whole]
    · exact whole
  · exact whole

theorem munchString?_append {quote : Char} {text : List Char} {m : Munch}
    (h : munchString? quote text = some m) : m.lexeme ++ m.rest = quote :: text := by
  have body := Munch.span_append (some .string) (· != quote) text
  unfold munchString? at h
  dsimp only at h
  split at h
  · cases h
  · rename_i d rest hrest
    cases h
    have hd : d = quote := by
      have stop := List.head?_dropWhile_not (· != quote) text
      simp only [Munch.span] at hrest
      simpa [hrest] using stop
    rw [hrest, hd] at body
    simpa using body

theorem munchSymbol?_append {text : List Char} {m : Munch} (h : munchSymbol? text = some m) :
    m.lexeme ++ m.rest = text := by
  unfold munchSymbol? at h
  split at h
  case h_6 =>
    split at h <;> cases h <;> rfl
  all_goals
    cases h
    try rfl

theorem munch?_append {text : List Char} {m : Munch} (h : munch? text = some m) :
    m.lexeme ++ m.rest = text := by
  cases text with
  | nil => cases h
  | cons c rest =>
    simp only [munch?] at h
    split at h
    · cases h
      simp [Munch.behind, Munch.span_append]
    split at h
    · cases h
      rfl
    split at h
    · cases h
      exact Munch.span_append none isWordPart (c :: rest)
    split at h
    · cases h
      exact munchNumber_append (c :: rest)
    split at h
    · exact munchString?_append h
    split at h
    · cases h
      simp [Munch.behind, Munch.span_append]
    · exact munchSymbol?_append h

theorem lexeme_ne_nil_of_munch? {text : List Char} {m : Munch} (h : munch? text = some m) :
    m.lexeme ≠ [] := by
  cases text with
  | nil => cases h
  | cons c rest =>
    simp only [munch?] at h
    split at h
    · cases h
      simp [Munch.behind]
    split at h
    · cases h
      simp
    split at h
    · rename_i hword
      cases h
      simp [munchWord, Munch.span, isWordPart, hword]
    split at h
    · rename_i hdigit
      cases h
      unfold munchNumber
      dsimp only
      split
      · split
        · simp [Munch.behind]
        · simp [Munch.span, hdigit]
      · simp [Munch.span, hdigit]
    split at h
    · unfold munchString? at h
      dsimp only at h
      split at h
      · cases h
      · cases h
        simp
    split at h
    · cases h
      simp [Munch.behind]
    · unfold munchSymbol? at h
      split at h
      case h_6 =>
        split at h <;> cases h <;> simp
      all_goals
        cases h
        try simp

theorem length_rest_lt_of_munch? {text : List Char} {m : Munch} (h : munch? text = some m) :
    m.rest.length < text.length := by
  have parts := congrArg List.length (munch?_append h)
  have taken := List.length_pos_iff.mpr (lexeme_ne_nil_of_munch? h)
  simp only [List.length_append] at parts
  omega

/-- The tokens of a text that starts at `position`. -/
def scan (position : Position) (text : List Char) : Except ParseError (List Token) :=
  match h : munch? text with
  | none =>
    match text with
    | [] => .ok [Token.endAt position]
    | c :: _ => .error (.unexpectedCharacter c position)
  | some m =>
    have := length_rest_lt_of_munch? h
    match scan (position.after m.lexeme) m.rest, m.kind with
    | .error e, _ => .error e
    | .ok tokens, none => .ok tokens
    | .ok tokens, some kind => .ok (token kind m.lexeme position :: tokens)
termination_by text.length

end Lexer

/-- Splits a source text into tokens; the last one marks the end of the input. -/
def tokenize (source : String) : Except ParseError (List Token) :=
  Lexer.scan .start source.toList

end ScriptLang
