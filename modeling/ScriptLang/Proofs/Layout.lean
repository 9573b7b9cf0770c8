import ScriptLang.Proofs.Likeness

/-! The layout of a text makes no difference to what is read. Whoever looks at the next token passes over the
line breaks before it, and repetitions do not count them. Columns are handed on to errors alone. -/

namespace ScriptLang

/-! ### Line breaks -/

namespace Grammar

theorem afterBreaks_cases {tokens others : List Token}
    (h : significant tokens = significant others) :
    (afterBreaks tokens = [] ∧ afterBreaks others = []) ∨
      ∃ t rest rest', afterBreaks tokens = t :: rest ∧ afterBreaks others = t :: rest' ∧
        significant rest = significant rest' := by
  rw [← significant_afterBreaks tokens, ← significant_afterBreaks others] at h
  cases hleft : afterBreaks tokens with
  | nil =>
    cases hright : afterBreaks others with
    | nil => exact .inl ⟨rfl, rfl⟩
    | cons t rest =>
      rw [hleft, hright, significant_cons (afterBreaks_front hright)] at h
      cases h
  | cons t rest =>
    rw [hleft, significant_cons (afterBreaks_front hleft)] at h
    cases hright : afterBreaks others with
    | nil =>
      rw [hright] at h
      cases h
    | cons t' rest' =>
      rw [hright, significant_cons (afterBreaks_front hright)] at h
      obtain ⟨rfl, hrest⟩ := List.cons.inj h
      exact .inr ⟨t, rest, rest', rfl, rfl, hrest⟩

/-- The same tokens besides line breaks. -/
def exceptBreaks : Likeness where
  Alike tokens others := significant tokens = significant others
  nil := rfl
  sameColumns := True
  sameBounds := True
  front := by
    intro tokens others h
    obtain ⟨hleft, hright⟩ | ⟨t, rest, rest', hleft, hright, hrest⟩ := afterBreaks_cases h
    · exact .inl ⟨hleft, hright⟩
    · have hfront : significant (t :: rest) = significant (t :: rest') := by
        have ht := afterBreaks_front hleft
        rw [significant_cons ht, significant_cons ht, hrest]
      exact .inr ⟨t, t.position.column, rest, rest', hleft, hright, fun _ => rfl, hfront, hrest⟩
  weight := congrArg List.length

end Grammar

section LineBreaks

open Grammar (significant)

/-- Of two lists with the same tokens besides their line breaks, both are read as the same program or
fail with the same error. In particular all breaks of a list can be left out. -/
theorem parseTokens_significant (tokens : List Token) :
    parseTokens (significant tokens) = parseTokens tokens ∧
      ∀ others, significant others = significant tokens → parseTokens others = parseTokens tokens := by
  have hread : ∀ others, significant others = significant tokens →
      parseTokens others = parseTokens tokens :=
    fun others h => (parseTokens_of_alike Grammar.exceptBreaks trivial h).2 trivial
  refine ⟨hread _ ?_, hread⟩
  rw [significant, significant, List.filter_filter]
  simp

/-- A break between an operator and its operand is as good as one before the whole sum. -/
theorem parseTokens_break_moved :
    let lineBreak : Token := ⟨.newline, "\n", "\n", ⟨1, 1⟩⟩
    let plus : Token := ⟨.symbol .plus, "+", "+", ⟨2, 3⟩⟩
    let a : Token := ⟨.identifier, "a", "a", ⟨2, 1⟩⟩
    significant [lineBreak, a, plus, a, .endAt ⟨3, 2⟩] =
        significant [a, plus, lineBreak, a, .endAt ⟨3, 2⟩] ∧
      parseTokens [lineBreak, a, plus, a, .endAt ⟨3, 2⟩] =
        parseTokens [a, plus, lineBreak, a, .endAt ⟨3, 2⟩] :=
  ⟨rfl, (parseTokens_significant _).2 _ rfl⟩

end LineBreaks

/-! ### Columns -/

theorem Token.bare_eq_iff {t u : Token} : t.bare = u.bare ↔
    t.kind = u.kind ∧ t.literal = u.literal ∧ t.lexeme = u.lexeme ∧ t.line = u.line := by
  simp [bare, Position.bare, line]

theorem Token.exists_inColumn_of_bare {t u : Token} (h : t.bare = u.bare) :
    ∃ column, u = t.inColumn column := by
  obtain ⟨hkind, hliteral, hlexeme, hline⟩ := bare_eq_iff.mp h
  refine ⟨u.position.column, ?_⟩
  rw [inColumn, hkind, hliteral, hlexeme, show t.position.line = u.position.line from hline]

namespace ParseError

theorem position_bare (e : ParseError) : e.bare.position = e.position.bare := by
  cases e <;> rfl

theorem reason_bare (e : ParseError) : e.bare.reason = e.reason := by
  cases e <;> rfl

end ParseError

namespace Grammar

theorem afterBreaks_bare (tokens : List Token) :
    afterBreaks (tokens.map Token.bare) = (afterBreaks tokens).map Token.bare :=
  List.dropWhile_map ..

theorem weight_bare (tokens : List Token) : weight (tokens.map Token.bare) = weight tokens := by
  rw [weight, significant, List.filter_map, List.length_map]
  rfl

/-- The same tokens besides their columns. -/
def exceptColumns : Likeness where
  Alike tokens others := tokens.map Token.bare = others.map Token.bare
  nil := rfl
  sameColumns := False
  sameBounds := True
  front := by
    intro tokens others h
    have hfronts : (afterBreaks tokens).map Token.bare = (afterBreaks others).map Token.bare := by
      rw [← afterBreaks_bare, ← afterBreaks_bare, h]
    cases hleft : afterBreaks tokens with
    | nil =>
      rw [hleft] at hfronts
      exact .inl ⟨rfl, List.map_eq_nil_iff.mp hfronts.symm⟩
    | cons t rest =>
      rw [hleft] at hfronts
      obtain ⟨u, rest', hright, hu, hrest⟩ := List.map_eq_cons_iff.mp hfronts.symm
      obtain ⟨column, rfl⟩ := Token.exists_inColumn_of_bare hu.symm
      exact .inr ⟨t, column, rest, rest', rfl, hright, False.elim, hright ▸ hfronts, hrest.symm⟩
  weight := by
    intro tokens others h
    rw [← weight_bare, h, weight_bare]

end Grammar

theorem parseTokens_eq_of_bare {tokens others : List Token}
    (h : tokens.map Token.bare = others.map Token.bare) :
    (parseTokens tokens).mapError ParseError.bare = (parseTokens others).mapError ParseError.bare :=
  (parseTokens_of_alike Grammar.exceptColumns trivial h).1

end ScriptLang
