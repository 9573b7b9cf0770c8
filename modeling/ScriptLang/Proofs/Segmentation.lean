import ScriptLang.Proofs.Munch

/-! How a source text falls into gaps and the lexemes of its tokens, each of them the longest there, and
where each token stands. The scanner finds this segmentation as far as it goes. -/

namespace ScriptLang

/-! ### Places -/

/-- The place behind a text: its line breaks and the characters since the last one are counted. -/
def Position.behind (text : List Char) : Position :=
  ⟨1 + text.count '\n', 1 + (text.reverse.takeWhile (· ≠ '\n')).length⟩

namespace Position

theorem behind_concat (text : List Char) (c : Char) : behind (text ++ [c]) = (behind text).next c := by
  by_cases hc : c = '\n'
  · subst hc
    simp [behind, next, Nat.add_assoc]
  · simp [behind, next, hc, Nat.add_assoc, Nat.add_comm 1]

theorem after_behind (text more : List Char) : (behind text).after more = behind (text ++ more) := by
  induction more generalizing text with
  | nil => rw [List.append_nil]; rfl
  | cons c rest ih =>
    rw [after, List.foldl_cons, ← behind_concat]
    exact (ih (text ++ [c])).trans (by rw [List.append_assoc, List.singleton_append])

end Position

/-! ### Segments -/

/-- Blanks and comments in front of `rest`, each the longest lexeme where it stands. -/
inductive Gap : (gap rest : List Char) → Prop
  | nil {rest : List Char} : Gap [] rest
  | cons {raw gap rest : List Char} (hlongest : IsLongest raw (raw ++ (gap ++ rest)))
      (hraw : Pattern.blanks.Matches raw ∨ Pattern.comment.Matches raw) (hgap : Gap gap rest) :
      Gap (raw ++ gap) rest

/-- The token of a lexeme that stands behind `text`. The literal of a string lacks the quotes. -/
structure Token.Represents (t : Token) (raw text : List Char) : Prop where
  kind : HasKind raw (some t.kind)
  literal : if t.kind = .string then ∃ quote, raw = quote :: (t.literal.toList ++ [quote])
    else t.literal.toList = raw
  lexeme : t.lexeme.toList = raw
  position : t.position = .behind text

/-- From behind `front`, where `text` stands, the tokens lead to behind `front'`, where `text'` stands. -/
inductive Segments : (front text : List Char) → List Token → (front' text' : List Char) → Prop
  | gap {front gap text : List Char} (hgap : Gap gap text) :
      Segments front (gap ++ text) [] (front ++ gap) text
  | token {front gap raw text front' text' : List Char} {t : Token} {tokens : List Token}
      (hgap : Gap gap (raw ++ text)) (hlongest : IsLongest raw (raw ++ text))
      (ht : t.Represents raw (front ++ gap))
      (hrest : Segments (front ++ gap ++ raw) text tokens front' text') :
      Segments front (gap ++ (raw ++ text)) (t :: tokens) front' text'

/-! ### Single lexemes -/

namespace Lexer

variable {position : Position} {c : Char} {raw rest : List Char}

theorem hasKind_none_iff :
    HasKind raw none ↔ Pattern.blanks.Matches raw ∨ Pattern.comment.Matches raw := by
  constructor
  · rintro ⟨⟨p, hp, hmatch⟩, -⟩
    rcases Pattern.mem_declared.mp hp with ⟨_, h, -⟩ | ⟨h, -⟩ | ⟨h, -⟩ | ⟨_, -, h, -⟩ | ⟨-, rfl⟩ |
      ⟨_, h, -⟩ | ⟨h, -⟩ | ⟨-, rfl⟩
    all_goals first | cases h | exact .inl hmatch | exact .inr hmatch
  · rintro (hblanks | hcomment)
    · obtain ⟨c, tail, rfl, hc, -⟩ := Pattern.matches_run.mp hblanks
      exact hasKind_of_head rfl (isWordStart_of_isBlank hc) (Pattern.mem_declared.mpr (by simp))
        hblanks
    · obtain ⟨words, rfl, -⟩ := Pattern.matches_comment.mp hcomment
      exact hasKind_of_head rfl rfl (Pattern.mem_declared.mpr (by simp)) hcomment

theorem scan_nil : scan position [] = .ok [Token.endAt position] := by
  rw [scan]
  rfl

theorem scan_stuck (h : munch? (c :: rest) = none) :
    scan position (c :: rest) = .error (.unexpectedCharacter c position) := by
  rw [scan]
  split
  · rfl
  · next m hm => simp [h] at hm

theorem scan_gap (h : munch? (raw ++ rest) = some ⟨none, raw, rest⟩) :
    scan position (raw ++ rest) = scan (position.after raw) rest := by
  rw [scan]
  split
  · next hm => simp [h] at hm
  · next m hm =>
    obtain rfl : ⟨none, raw, rest⟩ = m := Option.some.inj (h.symm.trans hm)
    dsimp only
    cases scan (position.after raw) rest <;> rfl

theorem scan_token {kind : TokenKind} (h : munch? (raw ++ rest) = some ⟨some kind, raw, rest⟩) :
    scan position (raw ++ rest) =
      (scan (position.after raw) rest).map (token kind raw position :: ·) := by
  rw [scan]
  split
  · next hm => simp [h] at hm
  · next m hm =>
    obtain rfl : ⟨some kind, raw, rest⟩ = m := Option.some.inj (h.symm.trans hm)
    dsimp only
    cases scan (position.after raw) rest <;> rfl

theorem literal_string {body : List Char} {quote : Char} :
    literal .string (quote :: (body ++ [quote])) = body := by
  simp [literal]

theorem exists_quote (h : HasKind raw (some .string)) :
    ∃ quote body, raw = quote :: (body ++ [quote]) := by
  obtain ⟨⟨p, hp, hmatch⟩, -⟩ := h
  rcases Pattern.mem_declared.mp hp with ⟨_, h, -⟩ | ⟨h, -⟩ | ⟨h, -⟩ | ⟨quote, -, -, rfl⟩ | ⟨h, -⟩ |
    ⟨_, h, -⟩ | ⟨h, -⟩ | ⟨h, -⟩
  case inr.inr.inr.inl =>
    obtain ⟨body, rfl, -⟩ := Pattern.matches_quoted.mp hmatch
    exact ⟨quote, body, rfl⟩
  all_goals cases h

theorem represents_token {kind : TokenKind} {text : List Char} (h : HasKind raw (some kind)) :
    (token kind raw (.behind text)).Represents raw text := by
  refine ⟨h, ?_, String.toList_ofList, rfl⟩
  simp only [token, String.toList_ofList]
  split
  · next hstring =>
    subst hstring
    obtain ⟨quote, body, rfl⟩ := exists_quote h
    exact ⟨quote, by rw [literal_string]⟩
  · next hother =>
    cases kind
    case string => exact absurd rfl hother
    all_goals rfl

theorem eq_token {t : Token} {text : List Char} (h : t.Represents raw text) :
    t = token t.kind raw (.behind text) := by
  have hliteral : t.literal.toList = literal t.kind raw := by
    have hgiven := h.literal
    split at hgiven
    · next hstring =>
      obtain ⟨quote, rfl⟩ := hgiven
      rw [hstring, literal_string]
    · next hother =>
      rw [hgiven]
      cases hkind : t.kind
      case string => exact absurd hkind hother
      all_goals rfl
  obtain ⟨kind, text, lexeme, position⟩ := t
  rw [token, ← hliteral, ← h.lexeme, ← h.position, String.ofList_toList, String.ofList_toList]

end Lexer

/-! ### The scanner follows the segments -/

open Lexer

theorem Gap.scan {gap rest front : List Char} (h : Gap gap rest) :
    Lexer.scan (.behind front) (gap ++ rest) = Lexer.scan (.behind (front ++ gap)) rest := by
  induction h generalizing front with
  | nil => rw [List.nil_append, List.append_nil]
  | @cons raw gap rest hlongest hraw _ ih =>
    rw [List.append_assoc, scan_gap, Position.after_behind, ih, List.append_assoc]
    exact munch?_eq_some_iff.mpr ⟨hlongest, hasKind_none_iff.mpr hraw, rfl⟩

namespace Segments

variable {front text front' text' : List Char} {tokens : List Token}

theorem scan (h : Segments front text tokens front' text') :
    Lexer.scan (.behind front) text = (Lexer.scan (.behind front') text').map (tokens ++ ·) := by
  induction h with
  | gap hgap =>
    rw [hgap.scan]
    exact (id_map _).symm
  | @token front gap raw text front' text' t tokens hgap hlongest ht hrest ih =>
    have hmunch : munch? (raw ++ text) = some ⟨some t.kind, raw, text⟩ :=
      munch?_eq_some_iff.mpr ⟨hlongest, ht.kind, rfl⟩
    rw [hgap.scan, scan_token hmunch, Position.after_behind, ih, ← eq_token ht]
    cases Lexer.scan (.behind front') text' <;> rfl

theorem append_eq (h : Segments front text tokens front' text') : front ++ text = front' ++ text' := by
  induction h with
  | gap => rw [List.append_assoc]
  | token _ _ _ _ ih => rw [← ih]; simp only [List.append_assoc]

theorem behind_gap {raw : List Char} (hlongest : IsLongest raw (raw ++ text))
    (hraw : Pattern.blanks.Matches raw ∨ Pattern.comment.Matches raw)
    (h : Segments (front ++ raw) text tokens front' text') :
    Segments front (raw ++ text) tokens front' text' := by
  cases h with
  | gap hgap =>
    have hwhole : Segments front _ [] _ _ := .gap (.cons hlongest hraw hgap)
    simpa only [List.append_assoc] using hwhole
  | @token _ gap lexeme text _ _ t tokens hgap hlexeme ht hrest =>
    have hwhole : Gap (raw ++ gap) (lexeme ++ text) := .cons hlongest hraw hgap
    rw [List.append_assoc front raw gap] at ht hrest
    simpa only [List.append_assoc] using Segments.token hwhole hlexeme ht hrest

end Segments

/-- The segments go on to the end of the text, or to where no pattern matches. -/
theorem exists_segments (front text : List Char) :
    ∃ tokens front' text', Segments front text tokens front' text' ∧
      (text' = [] ∨ munch? text' = none) := by
  induction hn : text.length using Nat.strongRecOn generalizing front text with
  | ind n ih =>
    subst hn
    cases hm : munch? text with
    | none => exact ⟨[], front ++ [], text, .gap .nil, .inr hm⟩
    | some m =>
      obtain ⟨hlongest, hkind, htext⟩ := munch?_eq_some_iff.mp hm
      obtain ⟨tokens, front', text', hrest, hend⟩ :=
        ih _ (length_rest_lt_of_munch? hm) (front ++ m.lexeme) m.rest rfl
      rw [htext] at hlongest ⊢
      cases hm : m.kind with
      | none =>
        rw [hm] at hkind
        exact ⟨tokens, front', text', hrest.behind_gap hlongest (hasKind_none_iff.mp hkind), hend⟩
      | some kind =>
        rw [hm] at hkind
        have htoken : Token.Represents _ m.lexeme (front ++ []) := represents_token hkind
        rw [← List.append_nil front] at hrest
        exact ⟨_ :: tokens, front', text', .token .nil hlongest htoken hrest, hend⟩

theorem Segments.tokenize_eq {source : String} {words : List Token}
    (h : Segments [] source.toList words source.toList []) :
    tokenize source = .ok (words ++ [Token.endAt (.behind source.toList)]) := by
  have hstart : tokenize source = Lexer.scan (.behind []) source.toList := rfl
  rw [hstart, h.scan, scan_nil]
  rfl

theorem Segments.tokenize_eq_error {source : String} {words : List Token} {front rest : List Char}
    {c : Char} (h : Segments [] source.toList words front (c :: rest))
    (hnone : munch? (c :: rest) = none) :
    tokenize source = .error (.unexpectedCharacter c (.behind front)) := by
  have hstart : tokenize source = Lexer.scan (.behind []) source.toList := rfl
  rw [hstart, h.scan, scan_stuck hnone]
  rfl

theorem exists_segments_source (source : String) :
    (∃ words, Segments [] source.toList words source.toList []) ∨
    ∃ words front c rest, source.toList = front ++ c :: rest ∧
      Segments [] source.toList words front (c :: rest) ∧ munch? (c :: rest) = none := by
  obtain ⟨words, front, text, hwords, hend⟩ := exists_segments [] source.toList
  have hsource : source.toList = front ++ text := hwords.append_eq
  cases text with
  | nil =>
    rw [List.append_nil] at hsource
    rw [← hsource] at hwords
    exact .inl ⟨words, hwords⟩
  | cons c rest =>
    exact .inr ⟨words, front, c, rest, hsource, hwords, hend.resolve_left (List.cons_ne_nil c rest)⟩

/-- The scanner cuts a text into gaps and longest lexemes. It gives the tokens of the whole text with the
mark at its end, and if no pattern matches somewhere before, it is refused at the character there. -/
theorem tokenize_longest (source : String) :
    (∀ tokens, tokenize source = .ok tokens ↔
      ∃ words, Segments [] source.toList words source.toList [] ∧
        tokens = words ++ [Token.endAt (.behind source.toList)]) ∧
    ∀ e, tokenize source = .error e ↔
      ∃ words front c rest, source.toList = front ++ c :: rest ∧
        Segments [] source.toList words front (c :: rest) ∧
        (∀ raw, raw <+: c :: rest → ¬ IsLexeme raw) ∧
        e = .unexpectedCharacter c (.behind front) := by
  refine ⟨fun tokens => ⟨fun h => ?_, ?_⟩, fun e => ⟨fun h => ?_, ?_⟩⟩
  · rcases exists_segments_source source with ⟨words, hwords⟩ | ⟨_, _, _, _, -, hwords, hnone⟩
    · exact ⟨words, hwords, Except.ok.inj (h.symm.trans hwords.tokenize_eq)⟩
    · cases h.symm.trans (hwords.tokenize_eq_error hnone)
  · rintro ⟨words, hwords, rfl⟩
    exact hwords.tokenize_eq
  · rcases exists_segments_source source with
      ⟨_, hwords⟩ | ⟨words, front, c, rest, hsource, hwords, hnone⟩
    · cases h.symm.trans hwords.tokenize_eq
    · exact ⟨words, front, c, rest, hsource, hwords, munch?_eq_none_iff.mp hnone,
        Except.error.inj (h.symm.trans (hwords.tokenize_eq_error hnone))⟩
  · rintro ⟨words, front, c, rest, -, hwords, hnone, rfl⟩
    exact hwords.tokenize_eq_error (munch?_eq_none_iff.mpr hnone)

end ScriptLang
