import ScriptLang.Proofs.Construct
import ScriptLang.Proofs.Datum
import ScriptLang.Proofs.Segmentation

/-! The text of data is read as an expression that writes them out. The scanner finds the tokens of each
part wherever the part stands, and the tokens are read whatever lines they stand on. -/

namespace ScriptLang

open TokenKind (symbol)
open Grammar

/-- The expression writes the datum out. -/
inductive Datum.Written {ι : Type} : Datum → Expr ι → Prop
  | null {line : Nat} : Written null (.place (.variable "null" line))
  | bool {b : Bool} {line : Nat} :
    Written (bool b) (.place (.variable (if b then "true" else "false") line))
  | number {x : Float} {line : Nat} : Written (number x) (.number x line)
  | string {text : String} {line : Nat} : Written (string text) (.string text line)
  | array {items : List Datum} {elements : List (Expr ι)} {line : Nat}
      (h : List.Forall₂ Written items elements) : Written (array items) (.array elements line)
  | object {properties : List (String × Datum)} {fields : List (String × Expr ι)} {line : Nat}
      (hkeys : fields.map Prod.fst = properties.map Prod.fst)
      (h : List.Forall₂ Written (properties.map Prod.snd) (fields.map Prod.snd)) :
      Written (object properties) (.object fields line)

namespace Grammar

/-- A token that data can begin with. -/
def opensDatum : TokenKind → Bool
  | .identifier | .number | .string | .symbol .leftBrace | .symbol .leftBracket => true
  | _ => false

theorem opensDatum_iff {kind : TokenKind} :
    opensDatum kind = true ↔ kind = .identifier ∨ kind = .number ∨ kind = .string ∨
      kind = symbol .leftBrace ∨ kind = symbol .leftBracket := by
  constructor
  · intro h
    unfold opensDatum at h
    split at h <;> simp_all
  · rintro (rfl | rfl | rfl | rfl | rfl) <;> rfl

theorem opensDatum_ne {kind : TokenKind} (h : opensDatum kind = true) : kind ≠ .newline := by
  rintro rfl
  cases h

/-- The parts one after the other, with commas between them. -/
inductive Separated : List (List Token) → List Token → Prop
  | nil : Separated [] []
  | one {part : List Token} : Separated [part] part
  | more {part next tokens : List Token} {parts : List (List Token)} {comma : Token}
      (hcomma : comma.kind = symbol .comma) (h : Separated (next :: parts) tokens) :
      Separated (part :: next :: parts) (part ++ comma :: tokens)

/-- The tokens are those of an expression that begins like data. -/
structure SpellsItem (tokens : List Token) (e : Expr Unit) : Prop where
  first : ∃ t rest, tokens = t :: rest ∧ opensDatum t.kind = true
  read : Spells tokens e

theorem Separated.forall_mem {parts : List (List Token)} {tokens : List Token} {P : Token → Prop}
    (h : Separated parts tokens) (hparts : ∀ part ∈ parts, ∀ t ∈ part, P t)
    (hcomma : ∀ t, t.kind = symbol .comma → P t) : ∀ t ∈ tokens, P t := by
  induction h with
  | nil => exact List.forall_mem_nil _
  | one => exact hparts _ List.mem_cons_self
  | more hkind _ ih =>
    obtain ⟨hpart, hrest⟩ := List.forall_mem_cons.mp hparts
    exact List.forall_mem_append.mpr ⟨hpart, List.forall_mem_cons.mpr ⟨hcomma _ hkind, ih hrest⟩⟩

variable {depth : Nat} {rest : List Token}

theorem SpellsItem.expression {tokens : List Token} {e : Expr Unit} (h : SpellsItem tokens e)
    (hdepth : tokens.length < depth) {t : Token} (ht : endsExpression t.kind = true) :
    (nested depth).expression (tokens ++ t :: rest) = .ok (e, t :: rest) := by
  obtain ⟨depth, rfl⟩ : ∃ inner, depth = inner + 1 := ⟨depth - 1, by omega⟩
  exact h.read depth (by omega) t rest ht

/-! ### Arrays -/

section Items

variable {tokens : List Token} {e : Expr Unit} {acc : List (Expr Unit)} {t : Token}

theorem listStep_item (h : SpellsItem tokens e) (hdepth : tokens.length < depth)
    (ht : endsExpression t.kind = true) :
    listStep (nested depth).expression .rightBracket acc (tokens ++ t :: rest) =
      (do
        if t.kind = symbol .rightBracket then return .inr (e :: acc).reverse
        if t.kind = symbol .comma then return .inl (e :: acc)
        fail (.unexpected t ("',' or " ++ (TokenKind.symbol .rightBracket).text)) :
        Parser (List (Expr Unit) ⊕ List (Expr Unit))) rest := by
  obtain ⟨first, others, rfl, hfirst⟩ := h.first
  have hfirst' := opensDatum_ne hfirst
  have hne : first.kind ≠ symbol .rightBracket := by
    intro heq
    rw [heq] at hfirst
    cases hfirst
  have hread : (nested depth).expression (first :: others ++ t :: rest) = .ok (e, t :: rest) :=
    h.expression hdepth ht
  rw [listStep, List.cons_append, eat_bind hfirst', if_neg hne]
  simp only [Bool.false_eq_true, if_false]
  rw [List.cons_append] at hread
  rw [bind_of_ok hread, advance_bind (endsExpression_ne ht)]

theorem items_read {es : List (Expr Unit)} {parts : List (List Token)}
    (h : List.Forall₂ SpellsItem parts es) (hseparated : Separated parts tokens)
    (hdepth : tokens.length < depth) (ht : t.kind = symbol .rightBracket)
    (acc : List (Expr Unit)) :
    Finishes (listStep (nested depth).expression .rightBracket) acc (tokens ++ t :: rest)
      (acc.reverse ++ es) rest := by
  induction hseparated generalizing es acc with
  | nil =>
    cases h
    refine .last ?_
    rw [listStep, List.nil_append, eat_bind (by simp [ht]), if_pos ht, List.append_nil]
    rfl
  | one =>
    obtain _ | ⟨hitem, _ | _⟩ := h
    refine .last ?_
    rw [listStep_item hitem hdepth (by rw [ht]; rfl), if_pos ht, List.reverse_cons]
    rfl
  | @more part next tokens parts comma hcomma hseparated ih =>
    cases h with
    | @cons _ e _ es hitem hrest =>
      rw [List.length_append, List.length_cons] at hdepth
      have hstep : ∀ rest', listStep (nested depth).expression .rightBracket acc
          (part ++ comma :: rest') = .ok (.inl (e :: acc), rest') := by
        intro rest'
        rw [listStep_item hitem (by omega) (by rw [hcomma]; rfl), if_neg (by rw [hcomma]; decide),
          if_pos hcomma]
        rfl
      rw [List.append_assoc, List.cons_append]
      have hcomma' : comma.kind ≠ .newline := by
        simp [hcomma]
      refine .next (hstep _) (by rw [weight_append part, weight_cons hcomma']; omega) ?_
      have hfinish := ih hrest (by omega) (e :: acc)
      rwa [List.reverse_cons, List.append_assoc, List.singleton_append] at hfinish

end Items

/-! ### Objects -/

section Fields

variable {tokens : List Token} {field : String × Expr Unit} {acc : List (String × Expr Unit)}
  {t : Token}

inductive SpellsField : List Token → String × Expr Unit → Prop
  | mk {key colon : Token} {tokens : List Token} {e : Expr Unit} (hkey : key.kind = .identifier)
    (hcolon : colon.kind = symbol .colon) (h : SpellsItem tokens e) :
    SpellsField (key :: colon :: tokens) (key.literal, e)

theorem objectStep_field (h : SpellsField tokens field) (hdepth : tokens.length < depth)
    (ht : endsExpression t.kind = true) :
    (nested depth).objectStep acc (tokens ++ t :: rest) =
      (do
        if !(← nextIs (symbol .rightBrace)) then
          let _ ← expect (symbol .comma) "',' or '\x7d' after property"
        return .inl (field :: acc) :
        Parser (List (String × Expr Unit) ⊕ List (String × Expr Unit))) (t :: rest) := by
  obtain ⟨hkey, hcolon, h⟩ := h
  rename_i key colon tokens e
  have hread : (nested depth).expression (tokens ++ t :: rest) = .ok (e, t :: rest) :=
    h.expression (by simp only [List.length_cons] at hdepth; omega) ht
  simp [Nested.objectStep, hkey, hcolon, bind_of_ok hread, -bind_pure_comp]

theorem fields_read {fields : List (String × Expr Unit)} {parts : List (List Token)}
    (h : List.Forall₂ SpellsField parts fields) (hseparated : Separated parts tokens)
    (hdepth : tokens.length < depth) (ht : t.kind = symbol .rightBrace)
    (acc : List (String × Expr Unit)) :
    Finishes (nested depth).objectStep acc (tokens ++ t :: rest) (acc.reverse ++ fields) rest := by
  have hclosing : t.kind ≠ .newline := by
    simp [ht]
  have hend : ∀ acc, Finishes (nested depth).objectStep acc (t :: rest) acc.reverse rest := by
    intro acc
    refine .last ?_
    rw [Nested.objectStep, eat_bind hclosing, if_pos ht]
    rfl
  induction hseparated generalizing fields acc with
  | nil =>
    cases h
    rw [List.append_nil]
    exact hend acc
  | @one part =>
    cases h with
    | @cons _ field _ _ hfield hnone =>
      cases hnone
      have hstep : (nested depth).objectStep acc (part ++ t :: rest) =
          .ok (.inl (field :: acc), t :: rest) := by
        rw [objectStep_field hfield hdepth (by rw [ht]; rfl), nextIs_bind hclosing,
          decide_eq_true ht]
        rfl
      refine .next hstep ?_ (by rw [← List.reverse_cons]; exact hend _)
      obtain @⟨key, colon, tokens, e, hkey, -, -⟩ := hfield
      have hkey' : key.kind ≠ .newline := by
        simp [hkey]
      rw [weight_append, weight_cons hkey']
      omega
  | @more part next tokens parts comma hcomma hseparated ih =>
    cases h with
    | @cons _ field _ fields hfield hrest =>
      rw [List.length_append, List.length_cons] at hdepth
      have hcomma' : comma.kind ≠ .newline := by
        simp [hcomma]
      have hstep : ∀ rest', (nested depth).objectStep acc (part ++ comma :: rest') =
          .ok (.inl (field :: acc), rest') := by
        intro rest'
        have hne : comma.kind ≠ symbol .rightBrace := by
          rw [hcomma]
          decide
        rw [objectStep_field hfield (by omega) (by rw [hcomma]; rfl), nextIs_bind hcomma',
          decide_eq_false hne, Bool.not_false, if_pos rfl]
        simp only [expect_bind hcomma' hcomma]
        rfl
      rw [List.append_assoc, List.cons_append]
      refine .next (hstep _) (by rw [weight_append part, weight_cons hcomma']; omega) ?_
      have hfinish := ih hrest (by omega) (field :: acc)
      rwa [List.reverse_cons, List.append_assoc, List.singleton_append] at hfinish

end Fields

end Grammar

/-! ### Data -/

/-- The tokens are read as an expression that writes the datum out. -/
structure Datum.Spelled (d : Datum) (tokens : List Token) : Prop where
  first : ∃ t rest, tokens = t :: rest ∧ opensDatum t.kind = true
  significant : ∀ t ∈ tokens, t.kind ≠ .newline
  read : ∃ e, d.Written e ∧ Spells tokens e

/-- A name, a colon and the tokens of a datum. -/
inductive Datum.SpelledProperty : String × Datum → List Token → Prop
  | mk {d : Datum} {key colon : Token} {tokens : List Token} (hkey : key.kind = .identifier)
    (hcolon : colon.kind = symbol .colon) (h : d.Spelled tokens) :
    SpelledProperty (key.literal, d) (key :: colon :: tokens)

namespace Datum.Spelled

theorem single {d : Datum} {t : Token} {e : Expr Unit} (ht : opensDatum t.kind = true)
    (he : d.Written e) (h : ∀ (g : Nested) rest, g.primaryBody (t :: rest) = .ok (e, rest)) :
    d.Spelled [t] where
  first := ⟨t, [], rfl, ht⟩
  significant := by
    rw [List.forall_mem_singleton]
    exact opensDatum_ne ht
  read := by
    refine ⟨e, he, spells_of_primary ⟨opensDatum_ne ht, ?_⟩ fun _ _ => h _⟩
    intro heq
    rw [heq] at ht
    cases ht

theorem name {d : Datum} {t : Token} (ht : t.kind = .identifier)
    (hd : ∀ line, d.Written (.place (.variable t.literal line) : Expr Unit)) : d.Spelled [t] := by
  refine single (by rw [ht]; rfl) (hd t.line) fun g rest => ?_
  rw [Nested.primaryBody, advance_bind (by simp [ht])]
  simp only [ht]
  rfl

theorem number {x : Float} {t : Token} (ht : t.kind = .number)
    (hread : Number.read? t.literal = some x) : (Datum.number x).Spelled [t] := by
  have hwritten : (Datum.number x).Written (.number x t.line : Expr Unit) := .number
  refine single (by rw [ht]; rfl) hwritten fun g rest => ?_
  rw [Nested.primaryBody, advance_bind (by simp [ht])]
  simp only [ht, hread]
  rfl

theorem string {t : Token} (ht : t.kind = .string) : (Datum.string t.literal).Spelled [t] := by
  have hwritten : (Datum.string t.literal).Written (.string t.literal t.line : Expr Unit) := .string
  refine single (by rw [ht]; rfl) hwritten fun g rest => ?_
  rw [Nested.primaryBody, advance_bind (by simp [ht])]
  simp only [ht]
  rfl

theorem exists_items {items : List Datum} {parts : List (List Token)}
    (h : List.Forall₂ Datum.Spelled items parts) :
    ∃ es, List.Forall₂ SpellsItem parts es ∧ List.Forall₂ Written items es := by
  induction h with
  | nil => exact ⟨[], .nil, .nil⟩
  | cons hd _ ih =>
    obtain ⟨es, hparts, hitems⟩ := ih
    obtain ⟨e, he, hread⟩ := hd.read
    exact ⟨e :: es, .cons ⟨hd.first, hread⟩ hparts, .cons he hitems⟩

theorem forall_mem {parts : List (List Token)} {items : List Datum}
    (h : List.Forall₂ Datum.Spelled items parts) :
    ∀ part ∈ parts, ∀ t ∈ part, t.kind ≠ .newline := by
  intro part hpart
  obtain ⟨d, -, hd⟩ := exists_of_mem_forall₂ h hpart
  exact hd.significant

theorem array {items : List Datum} {parts : List (List Token)} {tokens : List Token}
    {opening closing : Token} (hopening : opening.kind = symbol .leftBracket)
    (hclosing : closing.kind = symbol .rightBracket) (h : List.Forall₂ Datum.Spelled items parts)
    (hseparated : Separated parts tokens) :
    (Datum.array items).Spelled (opening :: (tokens ++ [closing])) where
  first := ⟨opening, _, rfl, by rw [hopening]; rfl⟩
  significant := by
    have htokens := hseparated.forall_mem (forall_mem h) fun t ht => by simp [ht]
    simp only [List.forall_mem_cons, List.forall_mem_append, hopening, hclosing]
    exact ⟨nofun, htokens, nofun, List.forall_mem_nil _⟩
  read := by
    obtain ⟨es, hes, hwritten⟩ := exists_items h
    refine ⟨.array es opening.line, .array hwritten, spells_of_primary (by rw [hopening]; exact ⟨nofun, nofun⟩) ?_⟩
    intro depth hdepth rest
    have hread : commaSeparated (nested depth).expression .rightBracket (tokens ++ closing :: rest) =
        .ok (es, rest) := by
      rw [List.length_append] at hdepth
      exact (items_read hes hseparated (by omega) hclosing []).repeatFrom
    rw [Nested.primaryBody, advance_bind (by simp [hopening])]
    simp only [hopening, List.append_assoc, List.singleton_append, bind_of_ok hread]
    rfl

theorem exists_fields {properties : List (String × Datum)} {parts : List (List Token)}
    (h : List.Forall₂ SpelledProperty properties parts) :
    ∃ fields : List (String × Expr Unit), List.Forall₂ SpellsField parts fields ∧
      fields.map Prod.fst = properties.map Prod.fst ∧
      List.Forall₂ Written (properties.map Prod.snd) (fields.map Prod.snd) := by
  induction h with
  | nil => exact ⟨[], .nil, rfl, .nil⟩
  | cons hp _ ih =>
    obtain ⟨fields, hparts, hkeys, hwritten⟩ := ih
    obtain ⟨hkey, hcolon, hd⟩ := hp
    obtain ⟨e, he, hread⟩ := hd.read
    exact ⟨(_, e) :: fields, .cons (.mk hkey hcolon ⟨hd.first, hread⟩) hparts,
      congrArg (_ :: ·) hkeys, .cons he hwritten⟩

theorem object {properties : List (String × Datum)} {parts : List (List Token)}
    {tokens : List Token} {opening closing : Token} (hopening : opening.kind = symbol .leftBrace)
    (hclosing : closing.kind = symbol .rightBrace)
    (h : List.Forall₂ SpelledProperty properties parts) (hseparated : Separated parts tokens) :
    (Datum.object properties).Spelled (opening :: (tokens ++ [closing])) where
  first := ⟨opening, _, rfl, by rw [hopening]; rfl⟩
  significant := by
    have hparts : ∀ part ∈ parts, ∀ t ∈ part, t.kind ≠ .newline := by
      intro part hpart
      obtain ⟨p, -, hkey, hcolon, hd⟩ := exists_of_mem_forall₂ h hpart
      simp only [List.forall_mem_cons, hkey, hcolon]
      exact ⟨nofun, nofun, hd.significant⟩
    have htokens := hseparated.forall_mem hparts fun t ht => by simp [ht]
    simp only [List.forall_mem_cons, List.forall_mem_append, hopening, hclosing]
    exact ⟨nofun, htokens, nofun, List.forall_mem_nil _⟩
  read := by
    obtain ⟨fields, hfields, hkeys, hwritten⟩ := exists_fields h
    refine ⟨.object fields opening.line, .object hkeys hwritten,
      spells_of_primary (by rw [hopening]; exact ⟨nofun, nofun⟩) ?_⟩
    intro depth hdepth rest
    have hread : repeatFrom (nested depth).objectStep [] (tokens ++ closing :: rest) =
        .ok (fields, rest) := by
      rw [List.length_append] at hdepth
      exact (fields_read hfields hseparated (by omega) hclosing []).repeatFrom
    rw [Nested.primaryBody, advance_bind (by simp [hopening])]
    simp only [hopening, Nested.object, List.append_assoc, List.singleton_append, bind_of_ok hread]
    rfl

end Datum.Spelled

/-! ### Programs of one expression -/

theorem Grammar.bareStatement_of_opens {g : Nested} {t : Token} {rest : List Token}
    (ht : opensDatum t.kind = true) :
    g.bareStatement (t :: rest) =
      (do return .expression (← g.assignment) t.line : Parser (Stmt Unit)) (t :: rest) := by
  rw [Nested.bareStatement, peek_bind (opensDatum_ne ht)]
  rcases opensDatum_iff.mp ht with h | h | h | h | h <;> rw [h]

/-- The tokens of a datum are a program that writes it out. -/
theorem Datum.Spelled.parseTokens {d : Datum} {tokens : List Token} {last : Token}
    (h : d.Spelled tokens) (hlast : last.kind = .endOfInput) :
    ∃ e line, d.Written e ∧ parseTokens (tokens ++ [last]) = .ok [.expression e line] := by
  obtain ⟨e, he, hread⟩ := h.read
  obtain ⟨t, rest, rfl, ht⟩ := h.first
  refine ⟨e, t.line, he, ?_⟩
  have hsignificant : Grammar.significant (t :: rest ++ [last]) = t :: rest ++ [last] := by
    refine List.filter_eq_self.mpr fun t' ht' => decide_eq_true ?_
    rcases List.mem_append.mp ht' with ht' | ht'
    · exact h.significant t' ht'
    · rw [List.mem_singleton.mp ht', hlast]
      decide
  have hend : last.kind ≠ .newline := by
    simp [hlast]
  obtain ⟨depth, hdepth⟩ : ∃ depth, depth = (t :: rest ++ [last]).length + 1 := ⟨_, rfl⟩
  have hassignment : (nested depth).assignment (t :: rest ++ [last]) = .ok (e, [last]) := by
    refine hread depth ?_ last [] (by rw [hlast]; rfl)
    rw [hdepth, List.length_append]
    omega
  have hstatement : (nested depth).statement (t :: rest ++ [last]) =
      .ok (.expression e t.line, [last]) := by
    have hbare : (nested depth).bareStatement (t :: rest ++ [last]) =
        .ok (.expression e t.line, [last]) := by
      rw [List.cons_append] at hassignment ⊢
      rw [bareStatement_of_opens ht, bind_of_ok hassignment]
      rfl
    rw [Nested.statement, bind_of_ok hbare, eat_bind hend, if_neg (by rw [hlast]; decide)]
    rfl
  -- The program has two rounds: the statement and the end mark.
  have hfirst : (nested depth).programStep [] (t :: rest ++ [last]) =
      .ok (.inl [.expression e t.line], [last]) := by
    have hne : t.kind ≠ .endOfInput := by
      intro heq
      rw [heq] at ht
      cases ht
    rw [List.cons_append] at hstatement ⊢
    rw [Nested.programStep, peek_bind (opensDatum_ne ht), if_neg hne, bind_of_ok hstatement]
    rfl
  have hsecond : (nested depth).programStep [.expression e t.line] [last] =
      .ok (.inr [.expression e t.line], [last]) := by
    rw [Nested.programStep, peek_bind hend, if_pos hlast]
    rfl
  have hshorter : weight [last] < weight (t :: rest ++ [last]) := by
    rw [List.cons_append, weight_cons (opensDatum_ne ht), weight_append]
    omega
  have hprogram : (nested depth).program (t :: rest ++ [last]) =
      .ok ([.expression e t.line], [last]) :=
    Finishes.repeatFrom (.next hfirst hshorter (.last hsecond))
  rw [ScriptLang.parseTokens, readProgram, hsignificant, ← hdepth, StateT.run', hprogram]
  rfl

end ScriptLang
