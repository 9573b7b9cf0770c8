import ScriptLang.Proofs.DatumReading

/-! The text of data is scanned part by part. What stands behind a part matters by its first character
alone: it must not go on with a name or a number. -/

namespace ScriptLang

open TokenKind (symbol)
open Grammar

namespace Lexer

/-- No name and no number goes on in the text. -/
def Stops (text : List Char) : Prop :=
  ∀ c ∈ text.head?, isWordPart c = false ∧ c ≠ '.'

section Stops

variable {p : Char → Bool} {raw rest : List Char}

theorem stops_cons {c : Char} (hpart : isWordPart c = false) (hpoint : c ≠ '.') : Stops (c :: rest) := by
  intro d hd
  obtain rfl := Option.some.inj hd
  exact ⟨hpart, hpoint⟩

theorem isDigit_of_isWordPart {c : Char} (h : isWordPart c = false) : c.isDigit = false :=
  (Bool.or_eq_false_iff.mp h).2

theorem takeWhile_append_of_stop (hraw : ∀ c ∈ raw, p c = true) (hrest : ∀ c ∈ rest.head?, p c = false) :
    (raw ++ rest).takeWhile p = raw := by
  rw [List.takeWhile_append_of_pos hraw]
  cases rest with
  | nil => rw [List.takeWhile_nil, List.append_nil]
  | cons c rest =>
    rw [List.takeWhile_cons_of_neg (Bool.eq_false_iff.mp (hrest c rfl)), List.append_nil]

theorem dropWhile_append_of_stop (hraw : ∀ c ∈ raw, p c = true) (hrest : ∀ c ∈ rest.head?, p c = false) :
    (raw ++ rest).dropWhile p = rest := by
  rw [List.dropWhile_append_of_pos hraw]
  cases rest with
  | nil => rfl
  | cons c rest => exact List.dropWhile_cons_of_neg (Bool.eq_false_iff.mp (hrest c rfl))

theorem span_append_of_stop {kind : Option TokenKind} (hraw : ∀ c ∈ raw, p c = true)
    (hrest : ∀ c ∈ rest.head?, p c = false) : Munch.span kind p (raw ++ rest) = ⟨kind, raw, rest⟩ := by
  rw [Munch.span, takeWhile_append_of_stop hraw hrest, dropWhile_append_of_stop hraw hrest]

end Stops

/-! ### Single lexemes -/

section Single

variable {raw rest : List Char}

theorem matches_of_hasKind_identifier (h : HasKind raw (some .identifier)) :
    Pattern.identifier.Matches raw := by
  obtain ⟨p, hp, hmatch⟩ := h.matched
  rcases Pattern.mem_declared.mp hp with ⟨_, h, -⟩ | ⟨-, rfl⟩ | ⟨h, -⟩ | ⟨_, -, h, -⟩ | ⟨h, -⟩ |
    ⟨_, h, -⟩ | ⟨h, -⟩ | ⟨h, -⟩
  case inr.inl => exact hmatch
  all_goals cases h

theorem munch?_name (h : HasKind raw (some .identifier)) (hrest : Stops rest) :
    munch? (raw ++ rest) = some ⟨some .identifier, raw, rest⟩ := by
  have hkind : wordKind raw = .identifier :=
    wordKind_eq_identifier fun word hword => nomatch h.reserved word hword
  obtain ⟨c, tail, rfl, hc, hparts⟩ := head_of_matches_identifier (matches_of_hasKind_identifier h)
  rw [List.cons_append, munch?_word hc, munchWord, ← List.cons_append,
    span_append_of_stop hparts fun d hd => (hrest d hd).1, hkind]

theorem munchNumber_digits (h : ∀ c ∈ raw, c.isDigit = true) (hrest : Stops rest) :
    munchNumber (raw ++ rest) = ⟨some .number, raw, rest⟩ := by
  have hspan : Munch.span (some .number) Char.isDigit (raw ++ rest) = ⟨some .number, raw, rest⟩ :=
    span_append_of_stop h fun d hd => isDigit_of_isWordPart (hrest d hd).1
  rw [munchNumber, hspan]
  dsimp only
  split
  · exact absurd rfl (hrest '.' rfl).2
  · rfl

theorem munch?_number (h : Pattern.number.Matches raw) (hrest : Stops rest) :
    munch? (raw ++ rest) = some ⟨some .number, raw, rest⟩ := by
  rcases Pattern.matches_number.mp h with hdigits | ⟨whole, part, rfl, hwhole, hpart⟩
  · obtain ⟨hne, hdigits⟩ := Pattern.matches_digits.mp hdigits
    obtain ⟨c, tail, rfl⟩ := List.exists_cons_of_ne_nil hne
    rw [List.cons_append, munch?_digit (hdigits c List.mem_cons_self), ← List.cons_append,
      munchNumber_digits hdigits hrest]
  · obtain ⟨hwholeNe, hwholeDigits⟩ := Pattern.matches_digits.mp hwhole
    obtain ⟨hpartNe, hpartDigits⟩ := Pattern.matches_digits.mp hpart
    obtain ⟨c, tail, rfl⟩ := List.exists_cons_of_ne_nil hwholeNe
    obtain ⟨d, digits, rfl⟩ := List.exists_cons_of_ne_nil hpartNe
    have hspan : Munch.span (some .number) Char.isDigit (d :: digits ++ rest) =
        ⟨some .number, d :: digits, rest⟩ :=
      span_append_of_stop hpartDigits fun d hd => isDigit_of_isWordPart (hrest d hd).1
    have hnumber : munchNumber (c :: tail ++ '.' :: d :: (digits ++ rest)) =
        (Munch.span (some .number) Char.isDigit (d :: digits ++ rest)).behind (c :: tail ++ ['.']) :=
      munchNumber_fraction hwholeDigits (hpartDigits d List.mem_cons_self)
    have htext : c :: tail ++ '.' :: d :: digits ++ rest =
        c :: tail ++ '.' :: d :: (digits ++ rest) := by
      simp only [List.append_assoc, List.cons_append]
    rw [htext, List.cons_append, munch?_digit (hwholeDigits c List.mem_cons_self),
      ← List.cons_append, hnumber, hspan]
    simp only [Munch.behind, List.append_assoc, List.singleton_append]

theorem munch?_string {body : List Char} (h : '"' ∉ body) :
    munch? ('"' :: (body ++ '"' :: rest)) =
      some ⟨some .string, '"' :: (body ++ ['"']), rest⟩ := by
  have hbody : ∀ c ∈ body, (c != '"') = true := by
    intro c hc
    rw [bne_iff_ne]
    rintro rfl
    exact h hc
  have hstop : ∀ c ∈ ('"' :: rest).head?, (c != '"') = false := by
    intro c hc
    obtain rfl := Option.some.inj hc
    rfl
  rw [munch?_quote (.inl rfl), munchString?, span_append_of_stop hbody hstop]
  rfl

theorem munch?_space {c : Char} (hc : isBlank c = false) :
    munch? (' ' :: c :: rest) = some ⟨none, [' '], c :: rest⟩ := by
  have hspan : Munch.span none isBlank ([] ++ c :: rest) = ⟨none, [], c :: rest⟩ := by
    refine span_append_of_stop (List.forall_mem_nil _) fun d hd => ?_
    obtain rfl := Option.some.inj hd
    exact hc
  rw [munch?_blank rfl]
  exact congrArg (fun m => some (Munch.behind [' '] m)) hspan

end Single

/-! ### Parts of a text -/

def Begins (text : List Char) : Prop :=
  ∃ c rest, text = c :: rest ∧ isBlank c = false

/-- Where the text stands, such tokens are found, and the scanner goes on behind it. -/
def Scans (R : List Token → Prop) (text : List Char) : Prop :=
  ∀ position rest, Stops rest → ∃ tokens position', R tokens ∧
    scan position (text ++ rest) = (scan position' rest).map (tokens ++ ·)

theorem Begins.append {text : List Char} (h : Begins text) (more : List Char) :
    Begins (text ++ more) := by
  obtain ⟨c, rest, rfl, hc⟩ := h
  exact ⟨c, rest ++ more, rfl, hc⟩

theorem begins_of_number {raw : List Char} (h : Pattern.number.Matches raw) : Begins raw := by
  obtain ⟨_, tail, rfl, hwhole, -⟩ := h
  obtain ⟨c, rest, rfl, hc, -⟩ := Pattern.matches_run.mp hwhole
  rw [← isDigit_eq] at hc
  refine ⟨c, rest ++ tail, rfl, Bool.eq_false_iff.mpr fun hblank => ?_⟩
  rw [isDigit_of_isBlank hblank] at hc
  cases hc

theorem begins_of_name {raw : List Char} (h : HasKind raw (some .identifier)) : Begins raw := by
  obtain ⟨c, rest, rfl, hc, -⟩ := head_of_matches_identifier (matches_of_hasKind_identifier h)
  refine ⟨c, rest, rfl, Bool.eq_false_iff.mpr fun hblank => ?_⟩
  rw [isWordStart_of_isBlank hblank] at hc
  cases hc

namespace Scans

variable {R S : List Token → Prop} {raw text more : List Char}

theorem imp (h : Scans R text) (hRS : ∀ tokens, R tokens → S tokens) : Scans S text := by
  intro position rest hrest
  obtain ⟨tokens, position', hR, hscan⟩ := h position rest hrest
  exact ⟨tokens, position', hRS tokens hR, hscan⟩

theorem single {kind : TokenKind}
    (h : ∀ rest, Stops rest → munch? (raw ++ rest) = some ⟨some kind, raw, rest⟩) :
    Scans (fun tokens => ∃ t, tokens = [t] ∧ t.kind = kind ∧
      t.literal = String.ofList (literal kind raw)) raw :=
  fun _ rest hrest => ⟨_, _, ⟨_, rfl, rfl, rfl⟩, scan_token (h rest hrest)⟩

theorem append (h : Scans R text) (hmore : Scans S more) (hstops : ∀ rest, Stops (more ++ rest)) :
    Scans (fun tokens => ∃ front back, tokens = front ++ back ∧ R front ∧ S back) (text ++ more) := by
  intro position rest hrest
  obtain ⟨front, middle, hR, hfront⟩ := h position (more ++ rest) (hstops rest)
  obtain ⟨back, position', hS, hback⟩ := hmore middle rest hrest
  refine ⟨front ++ back, position', ⟨front, back, rfl, hR, hS⟩, ?_⟩
  rw [List.append_assoc, hfront, hback]
  cases scan position' rest with
  | error e => rfl
  | ok tokens => exact congrArg Except.ok (List.append_assoc front back tokens).symm

theorem space (hbegins : Begins text) (h : Scans R text) : Scans R (' ' :: text) := by
  obtain ⟨c, tail, rfl, hc⟩ := hbegins
  intro position rest hrest
  obtain ⟨tokens, position', hR, hscan⟩ := h (position.after [' ']) rest hrest
  refine ⟨tokens, position', hR, ?_⟩
  have hspace : munch? ([' '] ++ (c :: tail ++ rest)) = some ⟨none, [' '], c :: tail ++ rest⟩ :=
    munch?_space hc
  rw [← hscan]
  exact scan_gap hspace

theorem behind_mark {mark : Symbol} {c : Char}
    (hmark : ∀ rest, munch? ([c] ++ rest) = some ⟨some (symbol mark), [c], rest⟩) (h : Scans R text) :
    Scans (fun tokens => ∃ t inner, tokens = t :: inner ∧ t.kind = symbol mark ∧ R inner)
      (c :: text) := by
  intro position rest hrest
  obtain ⟨tokens, position', hR, hscan⟩ := h (position.after [c]) rest hrest
  refine ⟨_, position', ⟨token (symbol mark) [c] position, tokens, rfl, rfl, hR⟩, ?_⟩
  have hhead : scan position (c :: (text ++ rest)) =
      (scan (position.after [c]) (text ++ rest)).map (token (symbol mark) [c] position :: ·) :=
    scan_token (hmark (text ++ rest))
  rw [List.cons_append, hhead, hscan]
  cases scan position' rest <;> rfl

theorem mark {mark : Symbol} {c : Char}
    (h : ∀ rest, munch? ([c] ++ rest) = some ⟨some (symbol mark), [c], rest⟩) :
    Scans (fun tokens => ∃ t, tokens = [t] ∧ t.kind = symbol mark) [c] :=
  (single fun rest _ => h rest).imp fun _ ⟨t, htokens, hkind, _⟩ => ⟨t, htokens, hkind⟩

theorem enclosed {opening closing : Symbol} {c : Char}
    (hopening : ∀ rest, munch? ([c] ++ rest) = some ⟨some (symbol opening), [c], rest⟩)
    (h : Scans R text)
    (hclosing : Scans (fun tokens => ∃ t, tokens = [t] ∧ t.kind = symbol closing) more)
    (hstops : ∀ rest, Stops (more ++ rest)) :
    Scans (fun tokens => ∃ first inner last, tokens = first :: (inner ++ [last]) ∧
      first.kind = symbol opening ∧ last.kind = symbol closing ∧ R inner) (c :: (text ++ more)) := by
  refine ((h.append hclosing hstops).behind_mark hopening).imp ?_
  rintro _ ⟨first, _, rfl, hfirst, inner, _, rfl, hR, last, rfl, hlast⟩
  exact ⟨first, inner, last, rfl, hfirst, hlast, hR⟩

theorem nil : Scans (· = []) [] :=
  fun position _ _ => ⟨[], position, rfl, (id_map _).symm⟩

end Scans

section List

variable {α : Type} {f : α → String} {R : α → List Token → Prop}

theorem begins_intercalate {a : α} {as : List α} (h : Begins (f a).toList) :
    Begins (", ".intercalate ((a :: as).map f)).toList := by
  cases as with
  | nil => simpa using h
  | cons b bs =>
    simp only [List.map_cons, String.intercalate_cons_cons, String.toList_append, List.append_assoc]
    exact h.append _

theorem scans_intercalate {as : List α} (hbegins : ∀ a ∈ as, Begins (f a).toList)
    (h : ∀ a ∈ as, Scans (R a) (f a).toList) :
    Scans (fun tokens => ∃ parts, List.Forall₂ R as parts ∧ Separated parts tokens)
      (", ".intercalate (as.map f)).toList := by
  induction as with
  | nil =>
    refine Scans.nil.imp ?_
    rintro _ rfl
    exact ⟨[], .nil, .nil⟩
  | cons a as ih =>
    obtain ⟨ha, hrest⟩ := List.forall_mem_cons.mp h
    cases as with
    | nil =>
      rw [List.map_singleton, String.intercalate_singleton]
      exact ha.imp fun tokens hR => ⟨[tokens], .cons hR .nil, .one⟩
    | cons b bs =>
      obtain ⟨-, hbegins⟩ := List.forall_mem_cons.mp hbegins
      have hmore := (ih hbegins hrest).space (begins_intercalate (hbegins b List.mem_cons_self))
      have hcomma : ∀ rest, munch? ([','] ++ rest) = some ⟨some (symbol .comma), [','], rest⟩ :=
        fun _ => rfl
      have hwhole := ha.append (hmore.behind_mark hcomma) fun rest => stops_cons rfl (by decide)
      simp only [List.map_cons, String.intercalate_cons_cons, String.toList_append,
        List.append_assoc]
      refine hwhole.imp ?_
      rintro _ ⟨front, _, rfl, hR, comma, inner, rfl, hkind, _, hparts, hseparated⟩
      cases hparts with
      | cons hb hbs => exact ⟨_, .cons hR (.cons hb hbs), .more hkind hseparated⟩

end List

end Lexer

open Lexer

namespace Datum

theorem scans_name {text : String} {d : Datum} (h : HasKind text.toList (some .identifier))
    (hd : ∀ line, d.Written (.place (.variable text line) : Expr Unit)) :
    Begins text.toList ∧ Scans d.Spelled text.toList := by
  refine ⟨begins_of_name h, (Scans.single fun _ => munch?_name h).imp ?_⟩
  rintro _ ⟨t, rfl, hkind, hliteral⟩
  refine Spelled.name hkind fun line => ?_
  rw [hliteral.trans String.ofList_toList]
  exact hd line

theorem scans_property {p : String × Datum} (hname : HasKind p.1.toList (some .identifier))
    (hbegins : Begins p.2.text.toList) (h : Scans p.2.Spelled p.2.text.toList) :
    Scans (SpelledProperty p) (propertyText p).toList := by
  have hcolon : ∀ rest, munch? ([':'] ++ rest) = some ⟨some (symbol .colon), [':'], rest⟩ :=
    fun _ => rfl
  have hkey := Scans.single fun _ => munch?_name hname
  have hwhole := hkey.append ((h.space hbegins).behind_mark hcolon) fun rest => stops_cons rfl (by decide)
  simp only [propertyText, String.toList_append, List.append_assoc]
  refine hwhole.imp ?_
  rintro _ ⟨_, _, rfl, ⟨key, rfl, hkey, hliteral⟩, colon, inner, rfl, hkind, hd⟩
  have hproperty := SpelledProperty.mk hkey hkind hd
  rwa [hliteral.trans String.ofList_toList] at hproperty

theorem scans_string {text : String} (h : '"' ∉ text.toList) :
    Begins (string text).text.toList ∧ Scans (string text).Spelled (string text).text.toList := by
  have hwhole : (string text).text.toList = '"' :: (text.toList ++ ['"']) := by
    simp only [Datum.text, String.toList_append]
    rfl
  have hmunch : ∀ rest, Stops rest → munch? ('"' :: (text.toList ++ ['"']) ++ rest) =
      some ⟨some .string, '"' :: (text.toList ++ ['"']), rest⟩ := by
    intro rest _
    rw [List.cons_append, List.append_assoc]
    exact munch?_string h
  rw [hwhole]
  refine ⟨⟨'"', _, rfl, rfl⟩, (Scans.single hmunch).imp ?_⟩
  rintro _ ⟨t, rfl, hkind, hliteral⟩
  rw [literal_string, String.ofList_toList] at hliteral
  subst hliteral
  exact Spelled.string hkind

theorem scans_array {items : List Datum}
    (h : ∀ d ∈ items, Begins d.text.toList ∧ Scans d.Spelled d.text.toList) :
    Begins (array items).text.toList ∧ Scans (array items).Spelled (array items).text.toList := by
  have hopening : ∀ rest, munch? (['['] ++ rest) = some ⟨some (symbol .leftBracket), ['['], rest⟩ :=
    fun _ => rfl
  have hclosing : ∀ rest, munch? ([']'] ++ rest) = some ⟨some (symbol .rightBracket), [']'], rest⟩ :=
    fun _ => rfl
  have hlist := scans_intercalate (fun d hd => (h d hd).1) fun d hd => (h d hd).2
  have hscans := Scans.enclosed hopening hlist (.mark hclosing) fun _ => stops_cons rfl (by decide)
  have hwhole : (array items).text.toList =
      '[' :: ((", ".intercalate (items.map text)).toList ++ [']']) := by
    simp only [text, itemTexts_eq, String.toList_append]
    rfl
  rw [hwhole]
  refine ⟨⟨'[', _, rfl, rfl⟩, hscans.imp ?_⟩
  rintro _ ⟨opening, inner, closing, rfl, hopening, hclosing, parts, hparts, hseparated⟩
  exact Spelled.array hopening hclosing hparts hseparated

theorem scans_object {properties : List (String × Datum)}
    (hnames : ∀ p ∈ properties, HasKind p.1.toList (some .identifier))
    (h : ∀ p ∈ properties, Begins p.2.text.toList ∧ Scans p.2.Spelled p.2.text.toList) :
    Begins (object properties).text.toList ∧
      Scans (object properties).Spelled (object properties).text.toList := by
  have hopening : ∀ rest, munch? (['{'] ++ rest) = some ⟨some (symbol .leftBrace), ['{'], rest⟩ :=
    fun _ => rfl
  have hclosing : ∀ rest, munch? (['}'] ++ rest) = some ⟨some (symbol .rightBrace), ['}'], rest⟩ :=
    fun _ => rfl
  cases properties with
  | nil =>
    have hscans := Scans.enclosed hopening .nil (.mark hclosing) fun _ => stops_cons rfl (by decide)
    refine ⟨⟨'{', _, rfl, rfl⟩, hscans.imp ?_⟩
    rintro _ ⟨opening, _, closing, rfl, hopening, hclosing, rfl⟩
    exact Spelled.object hopening hclosing .nil .nil
  | cons p rest =>
    have hbegins : ∀ p' ∈ p :: rest, Begins (propertyText p').toList := by
      intro p' hp'
      simp only [propertyText, String.toList_append, List.append_assoc]
      exact (begins_of_name (hnames p' hp')).append _
    have hfields : ∀ p' ∈ p :: rest, Scans (SpelledProperty p') (propertyText p').toList :=
      fun p' hp' => scans_property (hnames p' hp') (h p' hp').1 (h p' hp').2
    have hlist := scans_intercalate hbegins hfields
    have hspaced := hlist.space (begins_intercalate (hbegins p List.mem_cons_self))
    have hend := (Scans.mark hclosing).space ⟨'}', [], rfl, rfl⟩
    have hscans := Scans.enclosed hopening hspaced hend fun _ => stops_cons rfl (by decide)
    have hwhole : (object (p :: rest)).text.toList =
        '{' :: (' ' :: (", ".intercalate ((p :: rest).map propertyText)).toList ++
          [' ', '}']) := by
      simp only [text, propertyTexts_eq, String.toList_append]
      rfl
    rw [hwhole]
    refine ⟨⟨'{', _, rfl, rfl⟩, hscans.imp ?_⟩
    rintro _ ⟨opening, inner, closing, rfl, hopening, hclosing, parts, hparts, hseparated⟩
    exact Spelled.object hopening hclosing hparts hseparated

theorem Printable.scans {d : Datum} (h : d.Printable) :
    Begins d.text.toList ∧ Scans d.Spelled d.text.toList := by
  induction d with
  | null =>
    have hname : HasKind "null".toList (some .identifier) :=
      hasKind_wordKind (Pattern.matches_run.mpr ⟨_, _, rfl, rfl, List.all_eq_true.mp rfl⟩)
    exact scans_name hname fun _ => .null
  | bool b =>
    have hname : HasKind (if b then "true" else "false").toList (some .identifier) := by
      cases b
      · exact hasKind_wordKind (Pattern.matches_run.mpr ⟨_, _, rfl, rfl, List.all_eq_true.mp rfl⟩)
      · exact hasKind_wordKind (Pattern.matches_run.mpr ⟨_, _, rfl, rfl, List.all_eq_true.mp rfl⟩)
    exact scans_name hname fun _ => .bool
  | number x =>
    cases h with
    | number hfinite hsign =>
      have hx := Number.readsBack hfinite hsign
      refine ⟨begins_of_number hx.digits, (Scans.single fun _ => munch?_number hx.digits).imp ?_⟩
      rintro _ ⟨t, rfl, hkind, hliteral⟩
      refine Spelled.number hkind ?_
      rw [hliteral.trans String.ofList_toList]
      exact hx.read
  | string text =>
    cases h with
    | string htext => exact scans_string htext
  | array items ih =>
    cases h with
    | array hitems => exact scans_array fun d hd => ih d hd (hitems d hd)
  | object properties ih =>
    cases h with
    | object hnames _ hproperties => exact scans_object hnames fun p hp => ih p hp (hproperties p hp)

/-- The text of data is a program of one expression, which writes them out. -/
theorem Printable.parse {d : Datum} (h : d.Printable) :
    ∃ e line, d.Written e ∧ parse d.text = .ok [.expression e line] := by
  have hend : Stops [] := nofun
  obtain ⟨tokens, position, hspelled, hscan⟩ := h.scans.2 .start [] hend
  have hlast : (Token.endAt position).kind = .endOfInput := rfl
  obtain ⟨e, line, hwritten, hparse⟩ := hspelled.parseTokens hlast
  refine ⟨e, line, hwritten, ?_⟩
  rw [List.append_nil, scan_nil] at hscan
  rw [ScriptLang.parse, tokenize, hscan]
  exact hparse

end Datum

end ScriptLang
