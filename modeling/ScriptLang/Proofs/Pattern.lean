import ScriptLang.Token.Lexer

/-! The lexemes of the language as patterns, and why the scanner takes the longest of them at the start
of a text. -/

namespace ScriptLang

/-- What a lexeme may look like. -/
inductive Pattern
  | text (s : String)
  | one (p : Char → Bool)
  | many (p : Char → Bool)
  | sequence (first second : Pattern)
  | optional (p : Pattern)

namespace Pattern

def Matches : Pattern → List Char → Prop
  | text s, raw => raw = s.toList
  | one p, raw => ∃ c, raw = [c] ∧ p c = true
  | many p, raw => ∀ c ∈ raw, p c = true
  | sequence first second, raw => ∃ a b, raw = a ++ b ∧ first.Matches a ∧ second.Matches b
  | optional p, raw => raw = [] ∨ p.Matches raw

/-! ### The declared patterns -/

def between (low high c : Char) : Bool :=
  low.toNat ≤ c.toNat && c.toNat ≤ high.toNat

def letter (c : Char) : Bool :=
  between 'a' 'z' c || between 'A' 'Z' c || c == '_'

def digit (c : Char) : Bool :=
  between '0' '9' c

def blank (c : Char) : Bool :=
  c == ' ' || c == '\t' || c == '\r' || c == '\x0c'

def identifier : Pattern :=
  sequence (one letter) (many fun c => letter c || digit c)

def digits : Pattern :=
  sequence (one digit) (many digit)

def number : Pattern :=
  sequence digits (optional (sequence (text ".") digits))

def quoted (quote : Char) : Pattern :=
  sequence (one (· == quote)) (sequence (many (· != quote)) (one (· == quote)))

def comment : Pattern :=
  sequence (text "//") (many fun c => c ≠ '\n' && c ≠ '\r')

def blanks : Pattern :=
  sequence (one blank) (many blank)

/-- The patterns with the kinds of their tokens. Comments and blanks have none. -/
def declared : List (Option TokenKind × Pattern) :=
  Keyword.all.map (fun word => (some (.keyword word), text word.text)) ++
    [(some .identifier, identifier), (some .number, number), (some .string, quoted '"'),
      (some .string, quoted '\''), (none, comment)] ++
    Symbol.all.map (fun mark => (some (.symbol mark), text mark.text)) ++
    [(some .newline, text "\n"), (none, blanks)]

end Pattern

/-- Some pattern matches the text as a whole. -/
def IsLexeme (raw : List Char) : Prop :=
  ∃ entry ∈ Pattern.declared, entry.2.Matches raw

/-- The lexeme is the longest start of the text that a pattern matches. -/
structure IsLongest (raw text : List Char) : Prop where
  start : raw <+: text
  lexeme : IsLexeme raw
  longest : ∀ other, other <+: text → IsLexeme other → other.length ≤ raw.length

/-- A pattern of the kind matches, and that of a reserved word comes before all others. -/
structure HasKind (raw : List Char) (kind : Option TokenKind) : Prop where
  matched : ∃ p, (kind, p) ∈ Pattern.declared ∧ p.Matches raw
  reserved : ∀ word : Keyword, raw = word.text.toList → kind = some (.keyword word)

namespace Pattern

theorem mem_keywords (word : Keyword) : word ∈ Keyword.all := by
  cases word <;> decide

theorem mem_symbols (mark : Symbol) : mark ∈ Symbol.all := by
  cases mark <;> decide

theorem mem_declared {kind : Option TokenKind} {p : Pattern} :
    (kind, p) ∈ declared ↔
      (∃ word : Keyword, kind = some (.keyword word) ∧ p = text word.text) ∨
      kind = some .identifier ∧ p = identifier ∨
      kind = some .number ∧ p = number ∨
      (∃ quote, (quote = '"' ∨ quote = '\'') ∧ kind = some .string ∧ p = quoted quote) ∨
      kind = none ∧ p = comment ∨
      (∃ mark : Symbol, kind = some (.symbol mark) ∧ p = text mark.text) ∨
      kind = some .newline ∧ p = text "\n" ∨
      kind = none ∧ p = blanks := by
  simp only [declared, List.mem_append, List.mem_map, List.mem_cons, List.not_mem_nil, or_false,
    Prod.mk.injEq, mem_keywords, mem_symbols, true_and, or_assoc]
  constructor
  · rintro (⟨word, rfl, rfl⟩ | h | h | h | h | h | ⟨mark, rfl, rfl⟩ | h)
    · exact .inl ⟨word, rfl, rfl⟩
    · exact .inr (.inl h)
    · exact .inr (.inr (.inl h))
    · exact .inr (.inr (.inr (.inl ⟨_, .inl rfl, h⟩)))
    · exact .inr (.inr (.inr (.inl ⟨_, .inr rfl, h⟩)))
    · exact .inr (.inr (.inr (.inr (.inl h))))
    · exact .inr (.inr (.inr (.inr (.inr (.inl ⟨mark, rfl, rfl⟩)))))
    · exact .inr (.inr (.inr (.inr (.inr (.inr h)))))
  · rintro (⟨word, rfl, rfl⟩ | h | h | ⟨quote, rfl | rfl, h⟩ | h | ⟨mark, rfl, rfl⟩ | h)
    · exact .inl ⟨word, rfl, rfl⟩
    · exact .inr (.inl h)
    · exact .inr (.inr (.inl h))
    · exact .inr (.inr (.inr (.inl h)))
    · exact .inr (.inr (.inr (.inr (.inl h))))
    · exact .inr (.inr (.inr (.inr (.inr (.inl h)))))
    · exact .inr (.inr (.inr (.inr (.inr (.inr (.inl ⟨mark, rfl, rfl⟩))))))
    · exact .inr (.inr (.inr (.inr (.inr (.inr (.inr h))))))

/-! ### What the patterns match -/

section Matches

variable {raw : List Char}

theorem matches_run {p q : Char → Bool} :
    (sequence (one p) (many q)).Matches raw ↔
      ∃ c rest, raw = c :: rest ∧ p c = true ∧ ∀ d ∈ rest, q d = true := by
  constructor
  · rintro ⟨_, rest, rfl, ⟨c, rfl, hc⟩, hrest⟩
    exact ⟨c, rest, rfl, hc, hrest⟩
  · rintro ⟨c, rest, rfl, hc, hrest⟩
    exact ⟨[c], rest, rfl, ⟨c, rfl, hc⟩, hrest⟩

theorem matches_digits : digits.Matches raw ↔ raw ≠ [] ∧ ∀ c ∈ raw, digit c = true := by
  rw [digits, matches_run]
  constructor
  · rintro ⟨c, rest, rfl, hc, hrest⟩
    exact ⟨nofun, List.forall_mem_cons.mpr ⟨hc, hrest⟩⟩
  · rintro ⟨hne, hdigits⟩
    obtain ⟨c, rest, rfl⟩ := List.exists_cons_of_ne_nil hne
    obtain ⟨hc, hrest⟩ := List.forall_mem_cons.mp hdigits
    exact ⟨c, rest, rfl, hc, hrest⟩

theorem matches_number :
    number.Matches raw ↔
      digits.Matches raw ∨
        ∃ whole part, raw = whole ++ '.' :: part ∧ digits.Matches whole ∧ digits.Matches part := by
  constructor
  · rintro ⟨whole, _, rfl, hwhole, rfl | ⟨_, part, rfl, rfl, hpart⟩⟩
    · exact .inl (by rwa [List.append_nil])
    · exact .inr ⟨whole, part, rfl, hwhole, hpart⟩
  · rintro (hwhole | ⟨whole, part, rfl, hwhole, hpart⟩)
    · exact ⟨raw, [], (List.append_nil raw).symm, hwhole, .inl rfl⟩
    · exact ⟨whole, '.' :: part, rfl, hwhole, .inr ⟨['.'], part, rfl, rfl, hpart⟩⟩

theorem matches_quoted {quote : Char} :
    (quoted quote).Matches raw ↔
      ∃ body, raw = quote :: (body ++ [quote]) ∧ ∀ c ∈ body, (c != quote) = true := by
  constructor
  · rintro ⟨_, _, rfl, ⟨c, rfl, hc⟩, body, _, rfl, hbody, d, rfl, hd⟩
    rw [beq_iff_eq] at hc hd
    exact ⟨body, by rw [hc, hd]; rfl, hbody⟩
  · rintro ⟨body, rfl, hbody⟩
    have hquote : (one (· == quote)).Matches [quote] := ⟨quote, rfl, beq_self_eq_true quote⟩
    exact ⟨[quote], body ++ [quote], rfl, hquote, body, [quote], rfl, hbody, hquote⟩

theorem matches_comment :
    comment.Matches raw ↔
      ∃ words, raw = '/' :: '/' :: words ∧ ∀ c ∈ words, (c ≠ '\n' && c ≠ '\r') = true := by
  constructor
  · rintro ⟨_, words, rfl, rfl, hwords⟩
    exact ⟨words, rfl, hwords⟩
  · rintro ⟨words, rfl, hwords⟩
    exact ⟨_, words, rfl, rfl, hwords⟩

end Matches

end Pattern

end ScriptLang
