import ScriptLang.Proofs.Layout
import ScriptLang.Proofs.DatumText
import ScriptLang.Proofs.Segmentation

/-! A text from which only the lexemes are left, with a single space behind each. No lexeme goes on with a
space, but for strings that are closed later, and line breaks stand in lexemes alone. So the text falls into
the same tokens, on the same lines, and is read alike. -/

namespace ScriptLang

/-- The lexemes of the tokens with single spaces between them. -/
def spaced (tokens : List Token) : String :=
  " ".intercalate (tokens.map Token.lexeme)

/-- The lexemes of the words, each with a space behind it. -/
def spread (words : List Token) : List Char :=
  words.flatMap fun t => t.lexeme.toList ++ [' ']

namespace Lexer

variable {raw : List Char} {kind : TokenKind}

theorem munch?_identifier_space (h : Pattern.identifier.Matches raw) (rest : List Char) :
    munch? (raw ++ ' ' :: rest) = some ⟨some (wordKind raw), raw, ' ' :: rest⟩ := by
  obtain ⟨c, tail, rfl, hc, hparts⟩ := head_of_matches_identifier h
  have hstop : ∀ d ∈ (' ' :: rest).head?, isWordPart d = false := by
    rintro _ ⟨⟩
    rfl
  rw [List.cons_append, munch?_word hc, munchWord, ← List.cons_append, span_append_of_stop hparts hstop]

theorem munch?_quoted {quote : Char} (hquote : quote = '"' ∨ quote = '\'')
    (h : (Pattern.quoted quote).Matches raw) (rest : List Char) :
    munch? (raw ++ rest) = some ⟨some .string, raw, rest⟩ := by
  obtain ⟨body, rfl, hbody⟩ := Pattern.matches_quoted.mp h
  have hstop : ∀ c ∈ (quote :: rest).head?, (c != quote) = false := by
    rintro _ ⟨⟩
    exact bne_self_eq_false quote
  rw [List.cons_append, List.append_assoc, munch?_quote hquote, munchString?, List.singleton_append,
    span_append_of_stop hbody hstop]
  rfl

/-- A token in front of a space ends there. -/
theorem munch?_append_space (h : HasKind raw (some kind)) (rest : List Char) :
    munch? (raw ++ ' ' :: rest) = some ⟨some kind, raw, ' ' :: rest⟩ := by
  obtain ⟨⟨p, hp, hmatch⟩, hreserved⟩ := h
  rcases Pattern.mem_declared.mp hp with ⟨word, hkind, rfl⟩ | ⟨hkind, rfl⟩ | ⟨hkind, rfl⟩ |
    ⟨quote, hquote, hkind, rfl⟩ | ⟨hkind, -⟩ | ⟨mark, hkind, rfl⟩ | ⟨hkind, rfl⟩ | ⟨hkind, -⟩ <;> cases hkind
  · obtain rfl : raw = word.text.toList := hmatch
    rw [munch?_identifier_space (matches_identifier_text word), wordKind_text]
  · have hname : ∀ word : Keyword, raw ≠ word.text.toList :=
      fun word hword => nomatch hreserved word hword
    rw [munch?_identifier_space hmatch, wordKind_eq_identifier hname]
  · exact munch?_number hmatch (stops_cons rfl (by decide))
  · exact munch?_quoted hquote hmatch _
  · obtain rfl : raw = mark.text.toList := hmatch
    cases mark <;> rfl
  · obtain rfl : raw = ['\n'] := hmatch
    rfl

theorem begins_of_hasKind (h : HasKind raw (some kind)) : Begins raw := by
  have hmunch := munch?_append_space h []
  obtain ⟨c, tail, rfl⟩ := List.exists_cons_of_ne_nil (lexeme_ne_nil_of_munch? hmunch)
  refine ⟨c, tail, rfl, Bool.eq_false_iff.mpr fun hblank => ?_⟩
  cases (munch?_blank hblank).symm.trans hmunch

end Lexer

open Lexer

/-! ### Text -/

theorem spaced_cons {t : Token} {tokens : List Token} (h : tokens ≠ []) :
    spaced (t :: tokens) = t.lexeme ++ " " ++ spaced tokens := by
  obtain ⟨next, rest, rfl⟩ := List.exists_cons_of_ne_nil h
  exact String.intercalate_cons_cons

theorem toList_spaced (words : List Token) (p : Position) :
    (spaced (words ++ [.endAt p])).toList = spread words := by
  induction words with
  | nil => rfl
  | cons t words ih =>
    rw [List.cons_append, spaced_cons (by simp), String.toList_append, String.toList_append, ih]
    rfl

theorem Gap.count_newline {gap rest : List Char} (h : Gap gap rest) : gap.count '\n' = 0 := by
  induction h with
  | nil => rfl
  | @cons raw _ _ _ hraw _ ih =>
    rw [List.count_append, ih, Nat.add_zero, List.count_eq_zero]
    intro hmem
    rcases hraw with hblanks | hcomment
    · obtain ⟨c, tail, rfl, hc, htail⟩ := Pattern.matches_run.mp hblanks
      have hall : ∀ d ∈ c :: tail, Pattern.blank d = true := List.forall_mem_cons.mpr ⟨hc, htail⟩
      cases hall _ hmem
    · obtain ⟨words, rfl, hwords⟩ := Pattern.matches_comment.mp hcomment
      have hwords : '\n' ∉ words := fun h => nomatch hwords _ h
      simp [hwords] at hmem

/-! ### Segments -/

theorem Position.bare_behind {text other : List Char} (h : text.count '\n' = other.count '\n') :
    (behind text).bare = (behind other).bare := by
  rw [bare, bare, behind, behind, h]

theorem Token.Represents.bare_eq {t : Token} {raw text other : List Char} (h : t.Represents raw text)
    (hlines : other.count '\n' = text.count '\n') :
    (token t.kind raw (.behind other)).bare = t.bare := by
  conv_rhs => rw [eq_token h]
  rw [bare, bare, token, token, Position.bare_behind hlines]

namespace Segments

variable {front text front' text' : List Char} {tokens : List Token}

theorem hasKind_of_mem (h : Segments front text tokens front' text') :
    ∀ t ∈ tokens, HasKind t.lexeme.toList (some t.kind) := by
  induction h with
  | gap => exact nofun
  | token _ _ ht _ ih => exact List.forall_mem_cons.mpr ⟨ht.lexeme ▸ ht.kind, ih⟩

theorem isLongest_space {words : List Token} (h : ∀ t ∈ words, HasKind t.lexeme.toList (some t.kind)) :
    IsLongest [' '] ([' '] ++ spread words) := by
  have hmunch : munch? ([' '] ++ spread words) = some ⟨none, [' '], spread words⟩ := by
    cases words with
    | nil => rfl
    | cons t words =>
      obtain ⟨c, rest, htext, hc⟩ := begins_of_hasKind (h t List.mem_cons_self)
      rw [spread, List.flatMap_cons, htext]
      exact munch?_space hc
  exact (munch?_eq_some_iff.mp hmunch).1

/-- Behind a text with as many lines, the lexemes with a space behind each fall into the same tokens, and
again there are as many lines. -/
theorem respaced (h : Segments front text tokens front' text') {other : List Char}
    (hlines : other.count '\n' = front.count '\n') :
    ∃ words other', words.map Token.bare = tokens.map Token.bare ∧
      Segments other (spread tokens) words other' [] ∧
      other'.count '\n' = front'.count '\n' := by
  -- Only the line breaks of what stands before a token tell on its line, so they are all that is kept.
  induction h generalizing other with
  | gap hgap =>
    refine ⟨[], other ++ [], rfl, .gap .nil, ?_⟩
    rw [List.append_nil, List.count_append, hgap.count_newline, hlines]
    rfl
  | @token front gap raw text front' text' t tokens hgap hlongest ht hrest ih =>
    have hplace : other.count '\n' = (front ++ gap).count '\n' := by
      rw [List.count_append, hgap.count_newline, hlines]
      rfl
    have hbehind : (other ++ raw ++ [' ']).count '\n' = (front ++ gap ++ raw).count '\n' := by
      rw [List.count_append, List.count_append, List.count_append, hplace]
      rfl
    obtain ⟨words, other', hwords, hsegments, hother'⟩ := ih hbehind
    have hspace := isLongest_space hrest.hasKind_of_mem
    have hgapped := hsegments.behind_gap hspace (.inl (Pattern.matches_run.mpr ⟨' ', [], rfl, rfl, nofun⟩))
    have hraw : IsLongest raw (raw ++ ([' '] ++ spread tokens)) :=
      (munch?_eq_some_iff.mp (munch?_append_space ht.kind (spread tokens))).1
    let copy := Lexer.token t.kind raw (.behind other)
    have hcopy : copy.Represents raw (other ++ []) := by
      rw [List.append_nil]
      exact represents_token ht.kind
    refine ⟨copy :: words, other', ?_, ?_, hother'⟩
    · rw [List.map_cons, List.map_cons, hwords, ht.bare_eq hplace]
    · rw [← List.append_nil other] at hgapped
      have hspread : spread (t :: tokens) = [] ++ (raw ++ ([' '] ++ spread tokens)) := by
        rw [spread, List.flatMap_cons, ht.lexeme, List.append_assoc]
        rfl
      rw [hspread]
      exact .token .nil hraw hcopy hgapped

end Segments

/-- The tokens of a text are again those of their lexemes with single spaces between them, but for columns. -/
theorem exists_tokenize_spaced {source : String} {tokens : List Token} (h : tokenize source = .ok tokens) :
    ∃ others, tokenize (spaced tokens) = .ok others ∧ tokens.map Token.bare = others.map Token.bare := by
  obtain ⟨words, hwords, rfl⟩ := ((tokenize_longest source).1 tokens).mp h
  have hstart : ([] : List Char).count '\n' = ([] : List Char).count '\n' := rfl
  obtain ⟨copies, last, hcopies, hsegments, hlines⟩ := hwords.respaced hstart
  have hlast : last = (spaced (words ++ [.endAt (.behind source.toList)])).toList := by
    rw [toList_spaced, ← List.append_nil last]
    exact hsegments.append_eq.symm
  rw [← toList_spaced words (.behind source.toList), hlast] at hsegments
  refine ⟨_, hsegments.tokenize_eq, ?_⟩
  have hmark : (Token.endAt (.behind source.toList)).bare = (Token.endAt (.behind last)).bare := by
    rw [Token.bare, Token.bare]
    exact congrArg (Token.mk _ _ _) (Position.bare_behind hlines.symm)
  rw [List.map_append, List.map_append, hcopies, ← hlast, List.map_singleton, List.map_singleton, hmark]

theorem parse_of_tokenize {source : String} {tokens : List Token} (h : tokenize source = .ok tokens) :
    parse source = parseTokens tokens := by
  rw [parse, h]
  rfl

theorem parse_spaced_bare {source : String} {tokens : List Token} (h : tokenize source = .ok tokens) :
    (parse source).mapError ParseError.bare = (parse (spaced tokens)).mapError ParseError.bare := by
  obtain ⟨others, hothers, hbare⟩ := exists_tokenize_spaced h
  rw [parse_of_tokenize h, parse_of_tokenize hothers]
  exact parseTokens_eq_of_bare hbare

theorem same_but_error {ε α : Type} {f : ε → ε} {r r' : Except ε α} (h : r.mapError f = r'.mapError f) :
    (∀ a, r = .ok a ↔ r' = .ok a) ∧ ∀ e, r = .error e → ∃ e', r' = .error e' ∧ f e' = f e := by
  rcases r with e | a <;> rcases r' with e' | a'
  · refine ⟨fun _ => iff_of_false nofun nofun, ?_⟩
    rintro _ ⟨⟩
    exact ⟨e', rfl, (Except.error.inj h).symm⟩
  · cases h
  · cases h
  · cases h
    exact ⟨fun _ => Iff.rfl, nofun⟩

/-- A text that falls into tokens may as well be written as their lexemes with single spaces between them. The
tokens are the same but for their columns, and so is what is read, the program or the error. So two texts that
fall into the same lexemes are read alike, whatever blanks and comments there are between these. -/
theorem parse_spaced {source : String} {tokens : List Token} (h : tokenize source = .ok tokens) :
    (∃ others, tokenize (spaced tokens) = .ok others ∧
      List.Forall₂ (fun t u : Token =>
        t.kind = u.kind ∧ t.literal = u.literal ∧ t.lexeme = u.lexeme ∧ t.line = u.line) tokens others) ∧
    (∀ program, parse source = .ok program ↔ parse (spaced tokens) = .ok program) ∧
    (∀ e, parse source = .error e → ∃ e', parse (spaced tokens) = .error e' ∧ e'.bare = e.bare ∧
      e'.reason = e.reason ∧ e'.position.line = e.position.line) ∧
    ∀ (source' : String) (tokens' : List Token), tokenize source' = .ok tokens' →
      tokens'.map Token.lexeme = tokens.map Token.lexeme →
        (parse source').mapError ParseError.bare = (parse source).mapError ParseError.bare := by
  have hread := parse_spaced_bare h
  obtain ⟨hprogram, herror⟩ := same_but_error hread
  refine ⟨?_, hprogram, fun e he => ?_, fun source' tokens' h' hlexemes => ?_⟩
  · obtain ⟨others, hothers, hbare⟩ := exists_tokenize_spaced h
    have heq : List.Forall₂ (· = ·) (tokens.map Token.bare) (others.map Token.bare) := by
      rw [List.forall₂_eq_eq_eq]
      exact hbare
    have hpairs := List.forall₂_map_right_iff.mp (List.forall₂_map_left_iff.mp heq)
    exact ⟨others, hothers, hpairs.imp fun t u => Token.bare_eq_iff.mp⟩
  · obtain ⟨e', he', hbare⟩ := herror e he
    have hreason := congrArg ParseError.reason hbare
    have hline := congrArg (fun e => e.position.line) hbare
    simp only [ParseError.reason_bare, ParseError.position_bare] at hreason hline
    exact ⟨e', he', hbare, hreason, hline⟩
  · have hspaced : spaced tokens' = spaced tokens := congrArg (" ".intercalate ·) hlexemes
    rw [hread, parse_spaced_bare h', hspaced]

/-- Behind a comment an assignment lacks its value, which is found out on the third line. It is so too with
the lexemes and single spaces, and without any blanks. -/
theorem parse_spaced_comment :
    let source := "// no\na\t= \n"
    let tokens : List Token :=
      [⟨.newline, "\n", "\n", ⟨1, 6⟩⟩, ⟨.identifier, "a", "a", ⟨2, 1⟩⟩, ⟨.symbol .equals, "=", "=", ⟨2, 3⟩⟩,
        ⟨.newline, "\n", "\n", ⟨2, 5⟩⟩, .endAt ⟨3, 1⟩]
    let e : ParseError := .unexpectedEndOfInput "an expression" ⟨3, 1⟩
    tokenize source = .ok tokens ∧ spaced tokens = "\n a = \n " ∧ parse source = .error e ∧
      (∃ e', parse "\n a = \n " = .error e' ∧ e'.bare = e.bare) ∧
      (parse "\na=\n").mapError ParseError.bare = (parse source).mapError ParseError.bare := by
  intro source tokens e
  have htokens : tokenize source = .ok tokens := by cbv
  have hspaced : spaced tokens = "\n a = \n " := by cbv
  have hparse : parse source = .error e := by cbv
  have hother : tokenize "\na=\n" = .ok
      [⟨.newline, "\n", "\n", ⟨1, 1⟩⟩, ⟨.identifier, "a", "a", ⟨2, 1⟩⟩, ⟨.symbol .equals, "=", "=", ⟨2, 2⟩⟩,
        ⟨.newline, "\n", "\n", ⟨2, 3⟩⟩, .endAt ⟨3, 1⟩] := by cbv
  obtain ⟨-, -, herror, hsame⟩ := parse_spaced htokens
  obtain ⟨e', he', hbare, -⟩ := herror e hparse
  exact ⟨htokens, hspaced, hparse, ⟨e', hspaced ▸ he', hbare⟩, hsame _ _ hother rfl⟩

end ScriptLang
