import ScriptLang.Proofs.Pattern

/-! The scanner takes the longest lexeme. Each pattern is followed from its first character on, whatever
comes behind the text that it matches. -/

namespace ScriptLang

namespace Lexer

/-! ### Classes of characters -/

theorem isWordStart_eq : isWordStart = Pattern.letter := by
  funext c
  rw [Bool.eq_iff_iff]
  change ((decide ('A'.toNat ≤ c.toNat ∧ c.toNat ≤ 'Z'.toNat) ||
    Pattern.between 'a' 'z' c) || c == '_') = true ↔ Pattern.letter c = true
  simp only [Pattern.letter, Pattern.between, Bool.or_eq_true, Bool.and_eq_true, decide_eq_true_eq,
    beq_iff_eq]
  exact or_congr_left or_comm

theorem isDigit_eq : Char.isDigit = Pattern.digit := by
  funext c
  rw [Bool.eq_iff_iff]
  change (decide _ && decide _) = true ↔ (decide _ && decide _) = true
  simp only [Bool.and_eq_true, decide_eq_true_eq]
  exact Iff.rfl

theorem isWordPart_eq (c : Char) : isWordPart c = (Pattern.letter c || Pattern.digit c) := by
  rw [isWordPart, isWordStart_eq, isDigit_eq]

theorem eq_of_isBlank {c : Char} (h : isBlank c = true) :
    c = ' ' ∨ c = '\t' ∨ c = '\r' ∨ c = '\x0c' := by
  simpa [isBlank, or_assoc] using h

theorem isWordStart_of_isBlank {c : Char} (h : isBlank c = true) : isWordStart c = false := by
  rcases eq_of_isBlank h with rfl | rfl | rfl | rfl <;> rfl

theorem isDigit_of_isBlank {c : Char} (h : isBlank c = true) : c.isDigit = false := by
  rcases eq_of_isBlank h with rfl | rfl | rfl | rfl <;> rfl

theorem isWordStart_of_isDigit {c : Char} (h : c.isDigit = true) : isWordStart c = false := by
  rw [isDigit_eq] at h
  rw [isWordStart_eq, Bool.eq_false_iff]
  intro hletter
  simp only [Pattern.digit, Pattern.letter, Pattern.between, Bool.and_eq_true, Bool.or_eq_true,
    decide_eq_true_eq, beq_iff_eq] at h hletter
  have hdigits : '0'.toNat = 48 ∧ '9'.toNat = 57 := ⟨rfl, rfl⟩
  have hletters : 'A'.toNat = 65 ∧ 'a'.toNat = 97 := ⟨rfl, rfl⟩
  rcases hletter with (hlower | hupper) | rfl
  · omega
  · omega
  · exact absurd h (by decide)

/-! ### The first character decides -/

section First

variable {c : Char} {rest : List Char}

theorem munch?_blank (h : isBlank c = true) :
    munch? (c :: rest) = some ((Munch.span none isBlank rest).behind [c]) :=
  if_pos h

theorem munch?_word (h : isWordStart c = true) :
    munch? (c :: rest) = some (munchWord (c :: rest)) := by
  have hblank : isBlank c = false := by
    refine Bool.eq_false_iff.mpr fun hblank => ?_
    rw [isWordStart_of_isBlank hblank] at h
    cases h
  have hnewline : c ≠ '\n' := by
    rintro rfl
    cases h
  simp [munch?, hblank, hnewline, h]

theorem munch?_digit (h : c.isDigit = true) :
    munch? (c :: rest) = some (munchNumber (c :: rest)) := by
  have hblank : isBlank c = false := by
    refine Bool.eq_false_iff.mpr fun hblank => ?_
    rw [isDigit_of_isBlank hblank] at h
    cases h
  have hnewline : c ≠ '\n' := by
    rintro rfl
    cases h
  simp [munch?, hblank, hnewline, isWordStart_of_isDigit h, h]

theorem munch?_quote (h : c = '"' ∨ c = '\'') : munch? (c :: rest) = munchString? c rest := by
  rcases h with rfl | rfl <;> rfl

theorem munch?_comment :
    munch? ('/' :: '/' :: rest) =
      some ((Munch.span none (fun d => d ≠ '\n' && d ≠ '\r') ('/' :: rest)).behind ['/']) :=
  rfl

end First

/-! ### Reserved words -/

theorem ofText?_text (word : Keyword) : Keyword.ofText? word.text = some word := by
  cases word <;> rfl

theorem wordKind_text (word : Keyword) : wordKind word.text.toList = .keyword word := by
  rw [wordKind, String.ofList_toList, ofText?_text]

theorem wordKind_eq_identifier {raw : List Char} (h : ∀ word : Keyword, raw ≠ word.text.toList) :
    wordKind raw = .identifier := by
  have hnone : Keyword.ofText? (String.ofList raw) = none := by
    rw [Keyword.ofText?, List.find?_eq_none]
    intro word _ hword
    have htext : word.text = String.ofList raw := by simpa using hword
    exact h word (by rw [htext, String.toList_ofList])
  rw [wordKind, hnone]

theorem matches_identifier_text (word : Keyword) :
    Pattern.identifier.Matches word.text.toList := by
  rw [Pattern.identifier, Pattern.matches_run]
  cases word <;> exact ⟨_, _, rfl, rfl, List.all_eq_true.mp rfl⟩

theorem head_of_matches_identifier {raw : List Char} (h : Pattern.identifier.Matches raw) :
    ∃ c rest, raw = c :: rest ∧ isWordStart c = true ∧ ∀ d ∈ raw, isWordPart d = true := by
  obtain ⟨c, rest, rfl, hc, hrest⟩ := Pattern.matches_run.mp h
  rw [← isWordStart_eq] at hc
  simp only [← isWordPart_eq] at hrest
  have hpart : isWordPart c = true := by rw [isWordPart, hc, Bool.true_or]
  exact ⟨c, rest, rfl, hc, List.forall_mem_cons.mpr ⟨hpart, hrest⟩⟩

theorem hasKind_of_head {raw rest : List Char} {c : Char} {kind : Option TokenKind} {p : Pattern}
    (hraw : raw = c :: rest) (hc : isWordStart c = false) (hp : (kind, p) ∈ Pattern.declared)
    (hmatch : p.Matches raw) : HasKind raw kind := by
  refine ⟨⟨p, hp, hmatch⟩, fun word hword => ?_⟩
  have hidentifier : Pattern.identifier.Matches raw := hword ▸ matches_identifier_text word
  obtain ⟨d, _, hd, hstart, -⟩ := head_of_matches_identifier hidentifier
  obtain ⟨rfl, -⟩ := List.cons.inj (hraw.symm.trans hd)
  rw [hc] at hstart
  cases hstart

theorem hasKind_wordKind {raw : List Char} (h : Pattern.identifier.Matches raw) :
    HasKind raw (some (wordKind raw)) := by
  by_cases hreserved : ∃ word : Keyword, raw = word.text.toList
  · obtain ⟨word, rfl⟩ := hreserved
    refine ⟨⟨.text word.text, Pattern.mem_declared.mpr (.inl ⟨word, ?_, rfl⟩), rfl⟩, ?_⟩
    · rw [wordKind_text]
    · intro other hother
      rw [hother, wordKind_text]
  · have hnot : ∀ word : Keyword, raw ≠ word.text.toList := not_exists.mp hreserved
    rw [wordKind_eq_identifier hnot]
    exact ⟨⟨.identifier, Pattern.mem_declared.mpr (.inr (.inl ⟨rfl, rfl⟩)), h⟩,
      fun word hword => absurd hword (hnot word)⟩

/-! ### What the scanner takes is a lexeme -/

theorem takeWhile_forall {p : Char → Bool} {text : List Char} :
    ∀ c ∈ text.takeWhile p, p c = true :=
  fun _ hc => List.all_eq_true.mp List.all_takeWhile _ hc

theorem exists_munchSymbol? {text : List Char} {m : Munch} (h : munchSymbol? text = some m) :
    ∃ mark : Symbol, m.kind = some (.symbol mark) ∧ m.lexeme = mark.text.toList := by
  unfold munchSymbol? at h
  split at h
  case h_6 =>
    split at h <;> cases h <;> exact ⟨_, rfl, rfl⟩
  all_goals
    cases h
    try exact ⟨_, rfl, rfl⟩

theorem matches_munchNumber {c : Char} (rest : List Char) (hc : c.isDigit = true) :
    (munchNumber (c :: rest)).kind = some .number ∧
      Pattern.number.Matches (munchNumber (c :: rest)).lexeme := by
  have hwhole : Pattern.digits.Matches ((c :: rest).takeWhile Char.isDigit) := by
    refine Pattern.matches_digits.mpr ⟨?_, takeWhile_forall⟩
    rw [List.takeWhile_cons_of_pos hc]
    exact nofun
  have hlexeme : Pattern.number.Matches ((c :: rest).takeWhile Char.isDigit) :=
    Pattern.matches_number.mpr (.inl hwhole)
  unfold munchNumber
  dsimp only
  split
  · next d part _ =>
    split
    · next hd =>
      have hpart : Pattern.digits.Matches ((d :: part).takeWhile Char.isDigit) := by
        refine Pattern.matches_digits.mpr ⟨?_, takeWhile_forall⟩
        rw [List.takeWhile_cons_of_pos hd]
        exact nofun
      refine ⟨rfl, Pattern.matches_number.mpr (.inr ⟨_, _, ?_, hwhole, hpart⟩)⟩
      simp [Munch.behind, Munch.span]
    · exact ⟨rfl, hlexeme⟩
  · exact ⟨rfl, hlexeme⟩

theorem matches_munchString? {quote : Char} {rest : List Char} {m : Munch}
    (h : munchString? quote rest = some m) :
    m.kind = some .string ∧ (Pattern.quoted quote).Matches m.lexeme := by
  unfold munchString? at h
  dsimp only at h
  split at h
  · cases h
  · cases h
    exact ⟨rfl, Pattern.matches_quoted.mpr ⟨_, rfl, takeWhile_forall⟩⟩

theorem exists_lexeme_cons {c : Char} {rest : List Char} {m : Munch}
    (h : munch? (c :: rest) = some m) : ∃ tail, m.lexeme = c :: tail := by
  obtain ⟨d, tail, htail⟩ := List.exists_cons_of_ne_nil (lexeme_ne_nil_of_munch? h)
  have happend := munch?_append h
  rw [htail, List.cons_append] at happend
  obtain ⟨rfl, -⟩ := List.cons.inj happend
  exact ⟨tail, htail⟩

theorem hasKind_munch? {text : List Char} {m : Munch} (h : munch? text = some m) :
    HasKind m.lexeme m.kind := by
  cases text with
  | nil => cases h
  | cons c rest =>
    obtain ⟨tail, htail⟩ := exists_lexeme_cons h
    -- The first character tells the pattern; the cases are those of `munch?`.
    simp only [munch?] at h
    split at h
    · next hblank =>
      cases h
      have hmatch : Pattern.blanks.Matches (c :: rest.takeWhile isBlank) :=
        Pattern.matches_run.mpr ⟨c, _, rfl, hblank, takeWhile_forall⟩
      exact hasKind_of_head htail (isWordStart_of_isBlank hblank)
        (Pattern.mem_declared.mpr (by simp [Munch.behind, Munch.span])) hmatch
    split at h
    · next hnewline =>
      cases h
      have hmatch : (Pattern.text "\n").Matches [c] := hnewline ▸ rfl
      exact hasKind_of_head htail (hnewline ▸ rfl) (Pattern.mem_declared.mpr (by simp)) hmatch
    split at h
    · next hword =>
      cases h
      have hpart : isWordPart c = true := by rw [isWordPart, hword, Bool.true_or]
      refine hasKind_wordKind (Pattern.matches_run.mpr ⟨c, rest.takeWhile isWordPart, ?_, ?_, ?_⟩)
      · exact List.takeWhile_cons_of_pos hpart
      · rwa [← isWordStart_eq]
      · simp only [← isWordPart_eq]
        exact takeWhile_forall
    next hword =>
    split at h
    · next hdigit =>
      cases h
      obtain ⟨hkind, hmatch⟩ := matches_munchNumber rest hdigit
      rw [hkind]
      exact hasKind_of_head htail (isWordStart_of_isDigit hdigit)
        (Pattern.mem_declared.mpr (by simp)) hmatch
    split at h
    · next hquote =>
      obtain ⟨hkind, hmatch⟩ := matches_munchString? h
      rw [hkind]
      refine hasKind_of_head htail (Bool.eq_false_iff.mpr hword) (Pattern.mem_declared.mpr ?_) hmatch
      exact .inr (.inr (.inr (.inl ⟨c, by simpa using hquote, rfl, rfl⟩)))
    split at h
    · next hslash =>
      cases h
      obtain ⟨rfl, hnext⟩ : c = '/' ∧ rest.head? = some '/' := by simpa using hslash
      obtain ⟨words, rfl⟩ := List.head?_eq_some_iff.mp hnext
      refine hasKind_of_head htail rfl (Pattern.mem_declared.mpr ?_)
        (Pattern.matches_comment.mpr ⟨_, rfl, takeWhile_forall⟩)
      simp [Munch.behind, Munch.span]
    · obtain ⟨mark, hkind, hlexeme⟩ := exists_munchSymbol? h
      rw [hkind]
      exact hasKind_of_head htail (Bool.eq_false_iff.mpr hword) (Pattern.mem_declared.mpr (by simp))
        (show (Pattern.text mark.text).Matches m.lexeme from hlexeme)

/-! ### Every lexeme is taken, or a longer one -/

/-- The scanner takes all of `raw` and what of `rest` still belongs to it. If nothing does, the lexeme
has the kind. -/
def Takes (raw rest : List Char) (kind : Option TokenKind) : Prop :=
  ∃ m more, munch? (raw ++ rest) = some m ∧ m.lexeme = raw ++ more ∧ (more = [] → m.kind = kind)

section Takes

variable {raw rest : List Char}

theorem takes_word (h : Pattern.identifier.Matches raw) :
    Takes raw rest (some (wordKind raw)) := by
  obtain ⟨c, tail, rfl, hc, hparts⟩ := head_of_matches_identifier h
  refine ⟨_, rest.takeWhile isWordPart, munch?_word hc, ?_, fun hmore => ?_⟩
  · exact List.takeWhile_append_of_pos hparts
  · have hlexeme : (c :: (tail ++ rest)).takeWhile isWordPart = c :: tail := by
      rw [← List.cons_append, List.takeWhile_append_of_pos hparts, hmore, List.append_nil]
    show some (wordKind ((c :: (tail ++ rest)).takeWhile isWordPart)) = _
    rw [hlexeme]

theorem exists_munchNumber (text : List Char) :
    ∃ more, (munchNumber text).lexeme = text.takeWhile Char.isDigit ++ more := by
  unfold munchNumber
  dsimp only
  split
  · split
    · exact ⟨_, List.append_assoc _ _ _⟩
    · exact ⟨[], (List.append_nil _).symm⟩
  · exact ⟨[], (List.append_nil _).symm⟩

theorem munchNumber_fraction {whole : List Char} {d : Char}
    (hwhole : ∀ c ∈ whole, c.isDigit = true) (hd : d.isDigit = true) :
    munchNumber (whole ++ '.' :: d :: rest) =
      (Munch.span (some .number) Char.isDigit (d :: rest)).behind (whole ++ ['.']) := by
  have hspan : Munch.span (some .number) Char.isDigit (whole ++ '.' :: d :: rest) =
      ⟨some .number, whole, '.' :: d :: rest⟩ := by
    rw [Munch.span, List.takeWhile_append_of_pos hwhole, List.dropWhile_append_of_pos hwhole,
      List.takeWhile_cons_of_neg (by decide), List.dropWhile_cons_of_neg (by decide),
      List.append_nil]
  simp only [munchNumber, hspan, hd, if_true]

theorem takes_digits (h : Pattern.digits.Matches raw) : Takes raw rest (some .number) := by
  obtain ⟨hne, hdigits⟩ := Pattern.matches_digits.mp h
  obtain ⟨c, tail, rfl⟩ := List.exists_cons_of_ne_nil hne
  have hc : c.isDigit = true := hdigits c List.mem_cons_self
  obtain ⟨more, hmore⟩ := exists_munchNumber (c :: tail ++ rest)
  have hwhole : (c :: tail ++ rest).takeWhile Char.isDigit =
      c :: tail ++ rest.takeWhile Char.isDigit :=
    List.takeWhile_append_of_pos hdigits
  rw [hwhole, List.append_assoc] at hmore
  exact ⟨_, _, munch?_digit hc, hmore, fun _ => (matches_munchNumber _ hc).1⟩

theorem takes_fraction {whole part : List Char} (hwhole : Pattern.digits.Matches whole)
    (hpart : Pattern.digits.Matches part) :
    Takes (whole ++ '.' :: part) rest (some .number) := by
  obtain ⟨hwholeNe, hwholeDigits⟩ := Pattern.matches_digits.mp hwhole
  obtain ⟨hpartNe, hpartDigits⟩ := Pattern.matches_digits.mp hpart
  obtain ⟨c, tail, rfl⟩ := List.exists_cons_of_ne_nil hwholeNe
  obtain ⟨d, digits, rfl⟩ := List.exists_cons_of_ne_nil hpartNe
  have hc : c.isDigit = true := hwholeDigits c List.mem_cons_self
  have hd : d.isDigit = true := hpartDigits d List.mem_cons_self
  have hnumber : munchNumber (c :: tail ++ '.' :: d :: (digits ++ rest)) = _ :=
    munchNumber_fraction hwholeDigits hd
  have hfraction : (d :: (digits ++ rest)).takeWhile Char.isDigit =
      d :: digits ++ rest.takeWhile Char.isDigit :=
    List.takeWhile_append_of_pos hpartDigits
  have htext : c :: tail ++ '.' :: d :: digits ++ rest =
      c :: tail ++ '.' :: d :: (digits ++ rest) := by
    simp
  refine ⟨munchNumber (c :: tail ++ '.' :: d :: (digits ++ rest)), rest.takeWhile Char.isDigit, ?_,
    ?_, fun _ => ?_⟩
  · rw [htext]
    exact munch?_digit hc
  · rw [hnumber]
    simp [Munch.behind, Munch.span, hfraction]
  · rw [hnumber]
    rfl

theorem takes_string {quote : Char} (hquote : quote = '"' ∨ quote = '\'')
    (h : (Pattern.quoted quote).Matches raw) : Takes raw rest (some .string) := by
  obtain ⟨body, rfl, hbody⟩ := Pattern.matches_quoted.mp h
  have hlexeme : (body ++ quote :: rest).takeWhile (· != quote) = body := by
    rw [List.takeWhile_append_of_pos hbody, List.takeWhile_cons_of_neg (by simp), List.append_nil]
  have hrest : (body ++ quote :: rest).dropWhile (· != quote) = quote :: rest := by
    rw [List.dropWhile_append_of_pos hbody, List.dropWhile_cons_of_neg (by simp)]
  refine ⟨⟨some .string, quote :: body ++ [quote], rest⟩, [], ?_, ?_, fun _ => rfl⟩
  · rw [List.cons_append, List.append_assoc, munch?_quote hquote]
    simp [munchString?, Munch.span, hlexeme, hrest]
  · simp

theorem takes_comment (h : Pattern.comment.Matches raw) : Takes raw rest none := by
  obtain ⟨words, rfl, hwords⟩ := Pattern.matches_comment.mp h
  refine ⟨_, rest.takeWhile fun d => d ≠ '\n' && d ≠ '\r', munch?_comment, ?_, fun _ => rfl⟩
  have hslash : ∀ c ∈ '/' :: words, (c ≠ '\n' && c ≠ '\r') = true :=
    List.forall_mem_cons.mpr ⟨rfl, hwords⟩
  exact congrArg ('/' :: ·) (List.takeWhile_append_of_pos hslash)

theorem takes_blanks (h : Pattern.blanks.Matches raw) : Takes raw rest none := by
  obtain ⟨c, tail, rfl, hc, htail⟩ := Pattern.matches_run.mp h
  refine ⟨_, rest.takeWhile isBlank, munch?_blank hc, ?_, fun _ => rfl⟩
  exact congrArg (c :: ·) (List.takeWhile_append_of_pos htail)

/-- A mark that begins a longer lexeme is only taken where that one is not. -/
theorem takes_symbol (mark : Symbol) : Takes mark.text.toList rest (some (.symbol mark)) := by
  cases mark with
  -- Three marks begin longer lexemes: `=>` and `==`, `->`, and a comment.
  | equals =>
    show Takes ['='] rest _
    rcases rest with _ | ⟨d, rest⟩
    · exact ⟨_, [], rfl, rfl, fun _ => rfl⟩
    by_cases harrow : d = '>'
    · subst harrow
      exact ⟨_, ['>'], rfl, rfl, nofun⟩
    by_cases hequal : d = '='
    · subst hequal
      exact ⟨_, ['='], rfl, rfl, nofun⟩
    refine ⟨⟨some (.symbol .equals), ['='], d :: rest⟩, [], ?_, rfl, fun _ => rfl⟩
    show munchSymbol? ('=' :: d :: rest) = _
    simp [munchSymbol?, munchSymbol?.mark, harrow, hequal]
  | minus =>
    show Takes ['-'] rest _
    rcases rest with _ | ⟨d, rest⟩
    · exact ⟨_, [], rfl, rfl, fun _ => rfl⟩
    by_cases harrow : d = '>'
    · subst harrow
      exact ⟨_, ['>'], rfl, rfl, nofun⟩
    refine ⟨⟨some (.symbol .minus), ['-'], d :: rest⟩, [], ?_, rfl, fun _ => rfl⟩
    show munchSymbol? ('-' :: d :: rest) = _
    simp [munchSymbol?, munchSymbol?.mark, harrow]
  | slash =>
    show Takes ['/'] rest _
    rcases rest with _ | ⟨d, rest⟩
    · exact ⟨_, [], rfl, rfl, fun _ => rfl⟩
    by_cases hslash : d = '/'
    · subst hslash
      exact ⟨_, '/' :: rest.takeWhile fun d => d ≠ '\n' && d ≠ '\r', munch?_comment, rfl, nofun⟩
    refine ⟨⟨some (.symbol .slash), ['/'], d :: rest⟩, [], ?_, rfl, fun _ => rfl⟩
    have hcomment : ('/' = '/' && (d :: rest).head? = some '/') = false := by simp [hslash]
    show (if '/' = '/' && (d :: rest).head? = some '/' then _ else munchSymbol? ('/' :: d :: rest)) = _
    rw [hcomment]
    rfl
  | _ => exact ⟨_, [], rfl, rfl, fun _ => rfl⟩

end Takes

theorem takes_of_hasKind {raw : List Char} {kind : Option TokenKind} (rest : List Char)
    (h : HasKind raw kind) : Takes raw rest kind := by
  obtain ⟨⟨p, hp, hmatch⟩, hreserved⟩ := h
  rcases Pattern.mem_declared.mp hp with ⟨word, rfl, rfl⟩ | ⟨rfl, rfl⟩ | ⟨rfl, rfl⟩ |
    ⟨quote, hquote, rfl, rfl⟩ | ⟨rfl, rfl⟩ | ⟨mark, rfl, rfl⟩ | ⟨rfl, rfl⟩ | ⟨rfl, rfl⟩
  · obtain rfl : raw = word.text.toList := hmatch
    rw [← wordKind_text]
    exact takes_word (matches_identifier_text word)
  · have hname : ∀ word : Keyword, raw ≠ word.text.toList :=
      fun word hword => nomatch hreserved word hword
    rw [← wordKind_eq_identifier hname]
    exact takes_word hmatch
  · rcases Pattern.matches_number.mp hmatch with hdigits | ⟨whole, part, rfl, hwhole, hpart⟩
    · exact takes_digits hdigits
    · exact takes_fraction hwhole hpart
  · exact takes_string hquote hmatch
  · exact takes_comment hmatch
  · obtain rfl : raw = mark.text.toList := hmatch
    exact takes_symbol mark
  · obtain rfl : raw = ['\n'] := hmatch
    exact ⟨_, [], rfl, rfl, fun _ => rfl⟩
  · exact takes_blanks hmatch

end Lexer

open Lexer

theorem HasKind.isLexeme {raw : List Char} {kind : Option TokenKind} (h : HasKind raw kind) :
    IsLexeme raw :=
  let ⟨p, hp, hmatch⟩ := h.matched
  ⟨(kind, p), hp, hmatch⟩

theorem IsLexeme.exists_hasKind {raw : List Char} (h : IsLexeme raw) : ∃ kind, HasKind raw kind := by
  by_cases hreserved : ∃ word : Keyword, raw = word.text.toList
  · obtain ⟨word, rfl⟩ := hreserved
    exact ⟨_, hasKind_wordKind (matches_identifier_text word)⟩
  · obtain ⟨⟨kind, p⟩, hp, hmatch⟩ := h
    exact ⟨kind, ⟨p, hp, hmatch⟩, fun word hword => absurd ⟨word, hword⟩ hreserved⟩

theorem munch?_eq_some_iff {text : List Char} {m : Munch} :
    munch? text = some m ↔
      IsLongest m.lexeme text ∧ HasKind m.lexeme m.kind ∧ text = m.lexeme ++ m.rest := by
  constructor
  · intro h
    have hkind := hasKind_munch? h
    have happend := munch?_append h
    refine ⟨⟨⟨m.rest, happend⟩, hkind.isLexeme, fun other hstart hother => ?_⟩, hkind, happend.symm⟩
    obtain ⟨otherKind, hotherKind⟩ := hother.exists_hasKind
    obtain ⟨rest, rfl⟩ := hstart
    obtain ⟨m', more, hm', hlexeme, -⟩ := takes_of_hasKind rest hotherKind
    obtain rfl : m = m' := Option.some.inj (h.symm.trans hm')
    rw [hlexeme, List.length_append]
    exact Nat.le_add_right _ _
  · rintro ⟨hlongest, hkind, htext⟩
    obtain ⟨m', more, hm', hlexeme, hmore⟩ := takes_of_hasKind m.rest hkind
    rw [← htext] at hm'
    have happend := munch?_append hm'
    have hle := hlongest.longest m'.lexeme ⟨m'.rest, happend⟩ (hasKind_munch? hm').isLexeme
    rw [hlexeme, List.length_append] at hle
    obtain rfl : more = [] := List.length_eq_zero_iff.mp (by omega)
    rw [List.append_nil] at hlexeme
    rw [hlexeme, htext] at happend
    rw [hm']
    obtain ⟨kind, lexeme, rest⟩ := m
    obtain ⟨kind', lexeme', rest'⟩ := m'
    obtain rfl : rest' = rest := List.append_cancel_left happend
    obtain rfl : lexeme' = lexeme := hlexeme
    obtain rfl : kind' = kind := hmore rfl
    rfl

theorem munch?_eq_none_iff {text : List Char} :
    munch? text = none ↔ ∀ raw, raw <+: text → ¬ IsLexeme raw := by
  constructor
  · rintro h raw ⟨rest, rfl⟩ hraw
    obtain ⟨kind, hkind⟩ := hraw.exists_hasKind
    obtain ⟨m, more, hm, -⟩ := takes_of_hasKind rest hkind
    rw [h] at hm
    cases hm
  · intro h
    cases hm : munch? text with
    | none => rfl
    | some m =>
      have hstart : m.lexeme <+: text := ⟨m.rest, munch?_append hm⟩
      exact absurd (hasKind_munch? hm).isLexeme (h m.lexeme hstart)

end ScriptLang
