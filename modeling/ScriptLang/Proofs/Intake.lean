import Mathlib
import ScriptLang.Proofs.Layout
import ScriptLang.Proofs.Segmentation

/-! What parsers take, and which tokens their errors point at. A parser takes tokens only in front of the
end mark: where it may come upon the mark it looks first, or fails at once. So an error is about a token
that has been reached. A phrase takes at least one token that is no line break, which bounds the rounds of
repetitions and the levels of phrases. -/

namespace ScriptLang.Grammar

open TokenKind (keyword symbol)

variable {α β γ : Type}

/-! ### Errors in question -/

/-- The error that points at no token. -/
def nothingLeft : ParseError :=
  .unexpectedEndOfInput "more input" ⟨0, 0⟩

/-- The token is no line break, and no end mark stands before it. -/
def Reached (t : Token) (tokens : List Token) : Prop :=
  t.kind ≠ .newline ∧ ∃ front back, tokens = front ++ t :: back ∧ ∀ u ∈ front, u.kind ≠ .endOfInput

/-- All errors at the token are allowed. -/
def Blames (allowed : ParseError → Prop) (t : Token) : Prop :=
  ∀ e, e.position = t.position → e ≠ nothingLeft → allowed e

/-- All errors at tokens up to the first end mark are allowed, and if there is no end mark, so is the
error that points at no token. -/
structure Admits (allowed : ParseError → Prop) (tokens : List Token) : Prop where
  blames : ∀ t, Reached t tokens → Blames allowed t
  missing : (∀ t ∈ tokens, t.kind ≠ .endOfInput) → allowed nothingLeft

/-- The parser has given a good result and has taken none of the tokens from the end mark on, or it has
failed with an allowed error. If the result is one that `took` asks for, a token has been taken that is no
line break. -/
def Meets (allowed : ParseError → Prop) (good took : α → Prop) (tokens : List Token) :
    Except Stop (α × List Token) → Prop
  | .ok (a, rest) => good a ∧ ∃ taken, tokens = taken ++ rest ∧ (∀ t ∈ taken, t.kind ≠ .endOfInput) ∧
      (took a → 0 < weight taken)
  | .error (.error e) => allowed e
  | .error .exhausted => False

/-- What the parser does with fewer than `level` tokens, of which the one at the very front may be known. -/
def Reads (allowed : ParseError → Prop) (front : Option Token) (level : Nat) (p : Parser α)
    (good took : α → Prop) : Prop :=
  ∀ tokens, (∀ t ∈ front, tokens.head? = some t) → Admits allowed tokens → weight tokens < level →
    Meets allowed good took tokens (p tokens)

/-- The parser takes at least one token. -/
abbrev Takes (allowed : ParseError → Prop) (front : Option Token) (level : Nat) (p : Parser α) : Prop :=
  Reads allowed front level p (fun _ => True) fun _ => True

/-- The parser may take no token. -/
abbrev Passes (allowed : ParseError → Prop) (front : Option Token) (level : Nat) (p : Parser α) : Prop :=
  Reads allowed front level p (fun _ => True) fun _ => False

/-- Each round of a repetition but the last takes at least one token. -/
abbrev Progresses (allowed : ParseError → Prop) (level : Nat) (step : Parser (β ⊕ γ)) : Prop :=
  Reads allowed none level step (fun _ => True) (·.isLeft)

/-- The parser fails at once. -/
def Rejects (allowed : ParseError → Prop) (p : Parser α) : Prop :=
  ∀ tokens, ∃ e, p tokens = .error (.error e) ∧ allowed e

variable {allowed : ParseError → Prop} {good took : α → Prop} {good' took' : β → Prop}
  {front : Option Token} {level : Nat} {tokens rest taken : List Token} {t : Token}

theorem Blames.unexpected (h : Blames allowed t) {expected : String} (hexpected : expected ≠ "more input") :
    allowed (.unexpected t expected) := by
  refine h _ ?_ ?_
  · rw [ParseError.unexpected]
    split <;> rfl
  · rw [ParseError.unexpected]
    split
    · exact fun heq => hexpected (ParseError.unexpectedEndOfInput.inj heq).1
    · intro heq
      cases heq

namespace Rejects

theorem fail {e : ParseError} (h : allowed e) : Rejects allowed (fail e : Parser α) :=
  fun _ => ⟨e, rfl, h⟩

theorem fail_bind {e : ParseError} {f : α → Parser β} (h : allowed e) :
    Rejects allowed ((Grammar.fail e : Parser α) >>= f) :=
  fun _ => ⟨e, rfl, h⟩

theorem ite_pos {c : Prop} [Decidable c] {p q : Parser α} (hc : c) (hp : Rejects allowed p) :
    Rejects allowed (if c then p else q) := by
  rwa [if_pos hc]

theorem ite_neg {c : Prop} [Decidable c] {p q : Parser α} (hc : ¬c) (hq : Rejects allowed q) :
    Rejects allowed (if c then p else q) := by
  rwa [if_neg hc]

end Rejects

namespace Admits

theorem after (h : Admits allowed (taken ++ rest)) (htaken : ∀ t ∈ taken, t.kind ≠ .endOfInput) :
    Admits allowed rest where
  blames := by
    rintro t ⟨ht, front, back, rfl, hfront⟩
    refine h.blames t ⟨ht, taken ++ front, back, (List.append_assoc ..).symm, ?_⟩
    exact List.forall_mem_append.mpr ⟨htaken, hfront⟩
  missing hrest := h.missing (List.forall_mem_append.mpr ⟨htaken, hrest⟩)

theorem head (h : Admits allowed (t :: rest)) (ht : t.kind ≠ .newline) : Blames allowed t :=
  h.blames t ⟨ht, [], rest, rfl, nofun⟩

theorem any : Admits (fun _ => True) tokens :=
  ⟨fun _ _ _ _ _ => trivial, fun _ => trivial⟩

end Admits

namespace Meets

variable {r : Except Stop (α × List Token)}

theorem pure {a : α} (ha : good a) (htook : took a → False) :
    Meets allowed good took tokens ((pure a : Parser α) tokens) :=
  ⟨ha, [], rfl, nofun, fun h => (htook h).elim⟩

theorem prepend {took' : α → Prop} (h : Meets allowed good took rest r)
    (htaken : ∀ t ∈ taken, t.kind ≠ .endOfInput) (htook : ∀ a, took' a → took a ∨ 0 < weight taken) :
    Meets allowed good took' (taken ++ rest) r := by
  match r with
  | .error (.error _) => exact h
  | .error .exhausted => exact h
  | .ok (a, _) =>
    obtain ⟨ha, more, rfl, hmore, hpositive⟩ := h
    refine ⟨ha, taken ++ more, (List.append_assoc ..).symm, ?_, fun h => ?_⟩
    · exact List.forall_mem_append.mpr ⟨htaken, hmore⟩
    · rw [weight_append]
      have := (htook a h).imp_left hpositive
      omega

theorem weaken {good' took' : α → Prop} (h : Meets allowed good took tokens r)
    (hgood : ∀ a, good a → good' a) (htook : ∀ a, took' a → took a) :
    Meets allowed good' took' tokens r := by
  match r with
  | .error (.error _) => exact h
  | .error .exhausted => exact h
  | .ok (a, _) =>
    obtain ⟨ha, taken, htokens, htaken, hpositive⟩ := h
    exact ⟨hgood a ha, taken, htokens, htaken, hpositive ∘ htook a⟩

/-- The second parser need not take a token if the first one has. -/
theorem bind {p : Parser α} {f : α → Parser β} (hadmits : Admits allowed tokens)
    (h : Meets allowed good took tokens (p tokens))
    (hf : ∀ a taken rest, good a → (took a → 0 < weight taken) →
      weight tokens = weight taken + weight rest → Admits allowed rest →
      Meets allowed good' (fun b => took' b ∧ weight taken = 0) rest (f a rest)) :
    Meets allowed good' took' tokens ((p >>= f) tokens) := by
  have hrun : (p >>= f) tokens = p tokens >>= fun r => f r.1 r.2 := rfl
  rw [hrun]
  match p tokens, h with
  | .error (.error _), h => exact h
  | .ok (a, rest), h =>
    obtain ⟨ha, taken, rfl, htaken, hpositive⟩ := h
    have hnext := hf a taken rest ha hpositive (weight_append taken rest) (hadmits.after htaken)
    refine hnext.prepend htaken fun b hb => ?_
    exact (Nat.eq_zero_or_pos (weight taken)).imp_left fun hzero => ⟨hb, hzero⟩

theorem of_afterBreaks (hadmits : Admits allowed tokens)
    (h : Admits allowed (afterBreaks tokens) → weight (afterBreaks tokens) = weight tokens →
      Meets allowed good took (afterBreaks tokens) r) : Meets allowed good took tokens r := by
  have hsplit : tokens.takeWhile (·.kind = .newline) ++ afterBreaks tokens = tokens :=
    List.takeWhile_append_dropWhile
  have hbreaks : ∀ t ∈ tokens.takeWhile (·.kind = .newline), t.kind ≠ .endOfInput := by
    intro t ht
    have hbreak := List.all_eq_true.mp List.all_takeWhile t ht
    simp_all
  have hweight : weight (afterBreaks tokens) = weight tokens := by
    rw [weight, weight, significant_afterBreaks]
  have hmeets := h (Admits.after (by rwa [hsplit]) hbreaks) hweight
  exact hsplit ▸ hmeets.prepend hbreaks fun _ => .inl

end Meets

/-! ### Rules -/

namespace Reads

variable {p q : Parser α} {f : α → Parser β}

theorem pure {a : α} (ha : good a) (htook : took a → False) :
    Reads allowed front level (pure a) good took :=
  fun _ _ _ _ => .pure ha htook

theorem done {a : α} : Passes allowed front level (Pure.pure a : Parser α) :=
  pure trivial id

theorem fail {e : ParseError} (h : allowed e) : Reads allowed front level (fail e) good took :=
  fun _ _ _ _ => h

theorem fail_bind {e : ParseError} (h : allowed e) :
    Reads allowed front level ((Grammar.fail e : Parser α) >>= f) good' took' :=
  fun _ _ _ _ => h

theorem ite {c : Prop} [Decidable c] (hp : c → Reads allowed front level p good took)
    (hq : ¬c → Reads allowed front level q good took) :
    Reads allowed front level (if c then p else q) good took := by
  split
  · next hc => exact hp hc
  · next hc => exact hq hc

theorem anywhere (h : Reads allowed none level p good took) : Reads allowed front level p good took :=
  fun tokens _ => h tokens nofun

theorem lower (h : Reads allowed front (level + 1) p good took) :
    Reads allowed front level p good took :=
  fun tokens hfront hadmits hweight => h tokens hfront hadmits (Nat.lt_succ_of_lt hweight)

theorem mono {good' took' : α → Prop} (h : Reads allowed front level p good took)
    (hgood : ∀ a, good a → good' a) (htook : ∀ a, took' a → took a) :
    Reads allowed front level p good' took' :=
  fun tokens hfront hadmits hweight => (h tokens hfront hadmits hweight).weaken hgood htook

theorem bind (hp : Reads allowed front level p good took)
    (hf : ∀ a, good a → Reads allowed none level (f a) good' took') :
    Reads allowed front level (p >>= f) good' took' := by
  intro tokens hfront hadmits hweight
  refine .bind hadmits (hp tokens hfront hadmits hweight) fun a taken rest ha _ hsum hadmits => ?_
  exact (hf a ha rest nofun hadmits (by omega)).weaken (fun _ => id) fun _ => And.left

theorem take_bind (hp : Reads allowed front (level + 1) p good fun _ => True)
    (hf : ∀ a, good a → Reads allowed none level (f a) good' fun _ => False) :
    Reads allowed front (level + 1) (p >>= f) good' took' := by
  intro tokens hfront hadmits hweight
  refine .bind hadmits (hp tokens hfront hadmits hweight) fun a taken rest ha htook hsum hadmits => ?_
  have hpositive := htook trivial
  exact (hf a ha rest nofun hadmits (by omega)).weaken (fun _ => id) fun _ h => by omega

/-! ### Single tokens -/

theorem skip_bind {f : Unit → Parser β} (hbreak : t.kind ≠ .newline) (hend : t.kind ≠ .endOfInput)
    (hf : Reads allowed none level (f ()) good' fun _ => False) :
    Reads allowed (some t) (level + 1) (skip >>= f) good' took' := by
  refine take_bind ?_ fun _ (_ : True) => hf
  intro tokens hfront _ _
  obtain ⟨rest, rfl⟩ := List.head?_eq_some_iff.mp (hfront t rfl)
  refine ⟨trivial, [t], rfl, by simpa using hend, fun _ => ?_⟩
  rw [weight_cons hbreak]
  exact Nat.succ_pos _

theorem peek_bind {f : Token → Parser β}
    (hf : ∀ t, t.kind ≠ .newline → Blames allowed t → Reads allowed (some t) level (f t) good' took') :
    Reads allowed none level (peek >>= f) good' took' := by
  intro tokens _ hadmits hweight
  refine Meets.of_afterBreaks hadmits fun hadmits hsame => ?_
  cases hnext : afterBreaks tokens with
  | nil =>
    have hfails : (peek >>= f) tokens = .error (.error nothingLeft) := by
      show (peek tokens >>= fun r => f r.1 r.2) = _
      rw [peek, hnext]
      rfl
    rw [hfails]
    exact hadmits.missing (by simp [hnext])
  | cons t rest =>
    have hpeek : peek tokens = .ok (t, t :: rest) := by rw [peek, hnext]
    have ht := afterBreaks_front hnext
    rw [hnext] at hadmits hsame
    rw [bind_of_ok hpeek]
    exact hf t ht (hadmits.head ht) _ (by simp) hadmits (hsame ▸ hweight)

theorem nextIs_bind {kind : TokenKind} {f : Bool → Parser β}
    (hfalse : Reads allowed none level (f false) good' took')
    (htrue : ∀ t, t.kind = kind → t.kind ≠ .newline → Reads allowed (some t) level (f true) good' took') :
    Reads allowed none level (nextIs kind >>= f) good' took' := by
  intro tokens _ hadmits hweight
  refine Meets.of_afterBreaks hadmits fun hadmits hsame => ?_
  have hless : weight (afterBreaks tokens) < level := hsame ▸ hweight
  show Meets _ _ _ _ (f ((afterBreaks tokens).head?.any (·.kind = kind)) (afterBreaks tokens))
  cases hfound : (afterBreaks tokens).head?.any (·.kind = kind) with
  | false => exact hfalse _ nofun hadmits hless
  | true =>
    obtain ⟨t, ht, hkind⟩ := (Option.any_eq_true _ _).mp hfound
    obtain ⟨rest, hrest⟩ := List.head?_eq_some_iff.mp ht
    refine htrue t (by simpa using hkind) (afterBreaks_front hrest) _ ?_ hadmits hless
    rintro _ ⟨⟩
    exact ht

theorem nextIs {kind : TokenKind} : Passes allowed none level (nextIs kind) := by
  refine (nextIs_bind (pure trivial id) fun _ _ _ => pure trivial id :
    Passes allowed none level (Grammar.nextIs kind >>= Pure.pure))

theorem advance_bind {f : Token → Parser β}
    (hf : ∀ t, t.kind ≠ .newline → t.kind ≠ .endOfInput → Blames allowed t →
      Reads allowed none level (f t) good' fun _ => False)
    (hend : ∀ t, t.kind = .endOfInput → Blames allowed t → Rejects allowed (f t)) :
    Reads allowed none (level + 1) (advance >>= f) good' took' := by
  rw [advance, bind_assoc]
  simp only [bind_assoc, pure_bind]
  refine peek_bind fun t ht hblames => ?_
  by_cases hkind : t.kind = .endOfInput
  · intro tokens _ _ _
    obtain ⟨e, he, hallowed⟩ := hend t hkind hblames tokens.tail
    show Meets _ _ _ _ (f t tokens.tail)
    rw [he]
    exact hallowed
  · exact skip_bind ht hkind (hf t ht hkind hblames)

theorem advance_front {f : Token → Parser β} (hbreak : t.kind ≠ .newline) (hend : t.kind ≠ .endOfInput)
    (hf : Reads allowed none level (f t) good' fun _ => False) :
    Reads allowed (some t) (level + 1) (advance >>= f) good' took' := by
  intro tokens hfront hadmits hweight
  obtain ⟨rest, rfl⟩ := List.head?_eq_some_iff.mp (hfront t rfl)
  rw [Grammar.advance_bind hbreak]
  exact skip_bind (f := fun _ => f t) hbreak hend hf _ hfront hadmits hweight

theorem eat {kind : TokenKind} (hkind : kind ≠ .endOfInput) :
    Reads allowed none level (eat kind) (fun _ => True) (· = true) := by
  have hno : Reads allowed none (level + 1) (Pure.pure false) (fun _ => True) (· = true) :=
    pure trivial nofun
  have hyes : ∀ t : Token, t.kind = kind → t.kind ≠ .newline → Reads allowed (some t) (level + 1)
      (skip >>= fun _ => Pure.pure true) (fun _ => True) (· = true) :=
    fun t ht hbreak => skip_bind hbreak (ht ▸ hkind) (pure trivial id)
  exact lower (nextIs_bind hno hyes)

theorem expect {kind : TokenKind} {expected : String} (hkind : kind ≠ .endOfInput)
    (hexpected : expected ≠ "more input") :
    Reads allowed none level (expect kind expected) (Blames allowed) fun _ => True := by
  refine lower <| peek_bind fun t hbreak hblames => ite (fun ht => ?_) fun _ => ?_
  · exact skip_bind hbreak (ht ▸ hkind) (pure hblames id)
  · exact fail (hblames.unexpected hexpected)

theorem expectName {expected : String} (hexpected : expected ≠ "more input") :
    Takes allowed none level (expectName expected) :=
  lower <| take_bind (expect nofun hexpected) fun _ _ => done

/-! ### Repetitions -/

variable {step : β → Parser (β ⊕ γ)} {result : γ → Prop} {b : β}

theorem rounds {invariant : β → Prop} (hstep : ∀ b, invariant b →
      Reads allowed none level (step b) (Sum.elim invariant result) (·.isLeft))
    (hb : invariant b) {n : Nat} (hadmits : Admits allowed tokens)
    (hweight : weight tokens < level) (hn : weight tokens ≤ n) :
    Meets allowed result (fun _ => False) tokens (rounds step n b tokens) := by
  induction n generalizing b tokens with
  | zero =>
    refine .bind hadmits (hstep b hb tokens nofun hadmits hweight) fun r taken rest hr htook hsum _ => ?_
    cases r with
    | inl =>
      have hpositive := htook rfl
      omega
    | inr => exact .pure hr And.left
  | succ n ih =>
    refine .bind hadmits (hstep b hb tokens nofun hadmits hweight) fun r taken rest hr htook hsum _ => ?_
    cases r with
    | inl c =>
      have hpositive := htook rfl
      exact (ih hr ‹_› (by omega) (by omega)).weaken (fun _ => id) fun _ => And.left
    | inr => exact .pure hr And.left

theorem repeatFrom_keeps (invariant : β → Prop) (hb : invariant b) (hstep : ∀ b, invariant b →
      Reads allowed none level (step b) (Sum.elim invariant result) (·.isLeft)) :
    Reads allowed none level (repeatFrom step b) result fun _ => False := by
  intro tokens _ hadmits hweight
  rw [repeatFrom_eq_rounds]
  exact rounds hstep hb hadmits hweight (Nat.le_refl _)

theorem repeatFrom (hstep : ∀ b, Progresses allowed level (step b)) :
    Passes allowed none level (repeatFrom step b) := by
  refine repeatFrom_keeps (fun _ => True) trivial fun b _ => (hstep b).mono (fun r _ => ?_) fun _ => id
  cases r <;> trivial

/-- In a list, each round but the last takes an item and the token behind it. -/
theorem listStep {item : Parser α} {closing : Symbol} (h : Takes allowed none level item)
    {items : List α} : Progresses allowed level (listStep item closing items) := by
  have hexpected : "',' or " ++ (TokenKind.symbol closing).text ≠ "more input" := by
    intro heq
    have hlists := congrArg String.toList heq
    simp at hlists
  refine bind (eat nofun) fun _ _ => ite (fun _ => pure trivial nofun) fun _ => ?_
  refine bind h fun _ _ => lower <| advance_bind (fun t _ _ ht => ?_) fun t hend ht => ?_
  · exact ite (fun _ => pure trivial nofun) fun _ =>
      ite (fun _ => done) fun _ => fail (ht.unexpected hexpected)
  · exact .ite_neg (by simp [hend]) (.ite_neg (by simp [hend]) (.fail (ht.unexpected hexpected)))

theorem commaSeparated {item : Parser α} {closing : Symbol} (h : Takes allowed none level item) :
    Passes allowed none level (commaSeparated item closing) :=
  repeatFrom fun _ => listStep h

end Reads

theorem parameter_takes : Takes allowed none (level + 1) parameter := by
  refine .advance_bind (fun t _ _ ht => ?_) fun t hend ht => ?_
  · exact .ite (fun _ => .done) fun _ => .fail (ht _ rfl nofun)
  · exact .ite_neg (by simp [hend]) (.fail (ht _ rfl nofun))

theorem memberNameStep_progresses {names : List String} :
    Progresses allowed level (memberNameStep names) := by
  refine .bind (.eat nofun) fun _ _ => .ite (fun _ => .pure trivial nofun) fun _ => ?_
  refine .lower <| .advance_bind (fun t _ _ ht => .ite (fun _ => ?_) fun _ => ?_) fun t hend ht => ?_
  · exact .fail_bind (ht.unexpected nofun)
  · exact .bind .nextIs fun _ _ => .ite
      (fun _ => .bind (.expect nofun nofun) fun _ _ => .done) fun _ => .done
  · exact .ite_pos (by simp [hend]) (.fail_bind (ht.unexpected nofun))

theorem enumDecl_takes (hbreak : t.kind ≠ .newline) (hend : t.kind ≠ .endOfInput) :
    Takes allowed (some t) (level + 1) enumDecl :=
  .advance_front hbreak hend <| .bind (.expectName nofun) fun _ _ => .bind (.expect nofun nofun) fun _ _ =>
    .bind (.repeatFrom fun _ => memberNameStep_progresses) fun _ _ => .done

section Chains

variable {operator? : TokenKind → Option Operator} {operand : Parser (Expr Unit)}

theorem chainStep_progresses (hend : operator? .endOfInput = none) (h : Takes allowed none level operand)
    {left : Expr Unit} : Progresses allowed level (chainStep operator? operand left) := by
  refine .lower <| .peek_bind fun token ht _ => ?_
  split
  · next operator hoperator =>
    have hkind : token.kind ≠ .endOfInput := fun h => by simp [h, hend] at hoperator
    exact .skip_bind ht hkind (.bind h fun _ _ => .done)
  · exact .pure trivial nofun

theorem chain_takes (hend : operator? .endOfInput = none) (h : Takes allowed none (level + 1) operand) :
    Takes allowed none (level + 1) (chain operator? operand) :=
  .take_bind h fun _ _ => .repeatFrom fun _ => chainStep_progresses hend h.lower

end Chains

/-! ### Phrases -/

/-- The phrases inside of the phrase at hand are read from fewer than `level` tokens. -/
structure Nested.Serves (g : Nested) (allowed : ParseError → Prop) (level : Nat) : Prop where
  expression : Takes allowed none level g.expression
  block : Takes allowed none level g.block
  branch : ∀ t : Token, t.kind = keyword .ifKw → Takes allowed (some t) level g.branch
  primary : Takes allowed none level g.primary

namespace Nested.Serves

variable {g : Nested} (h : g.Serves allowed level)

include h

theorem functionRest {name : String} {line : Nat} :
    Takes allowed none (level + 1) (g.functionRest name line) :=
  .take_bind (.expect nofun nofun) fun _ _ => .bind (.commaSeparated parameter_takes.lower) fun _ _ =>
    .bind h.block fun _ _ => .done

theorem arguments : Passes allowed none level g.arguments :=
  .commaSeparated h.expression

omit h in
theorem ne_of_startsAccess (ht : startsAccess t.kind = true) :
    t.kind ≠ .newline ∧ t.kind ≠ .endOfInput := by
  constructor <;> (intro hkind; rw [hkind] at ht; cases ht)

theorem access {container : Expr Unit} (ht : startsAccess t.kind = true) :
    Takes allowed (some t) (level + 1) (g.access container) := by
  obtain ⟨hbreak, hend⟩ := ne_of_startsAccess ht
  refine .advance_front hbreak hend (.ite (fun _ => ?_) fun _ => ?_)
  · refine .lower <| .advance_bind (fun t _ _ ht => ?_) fun t hend ht => ?_
    · exact .ite (fun _ => .done) fun _ => .fail (ht _ rfl nofun)
    · exact .ite_neg (by simp [hend]) (.fail (ht _ rfl nofun))
  · exact .bind h.expression fun _ _ => .bind (.expect nofun nofun) fun _ _ => .done

theorem objectStep {properties : List (String × Expr Unit)} :
    Progresses allowed level (g.objectStep properties) := by
  refine .bind (.eat nofun) fun _ _ => .ite (fun _ => .pure trivial nofun) fun _ => ?_
  refine .lower <| .advance_bind (fun t _ _ ht => .ite (fun _ => ?_) fun _ => ?_) fun t hend ht => ?_
  · exact .fail_bind (ht.unexpected nofun)
  · have hvalue : Passes allowed none level
        (pure (.place (.variable t.literal t.line)) : Parser (Expr Unit)) := .done
    refine .bind (.eat nofun) fun _ _ => .ite (fun _ => .bind h.expression fun _ _ => ?_) fun _ =>
      .bind hvalue fun _ _ => ?_
    all_goals refine .bind .nextIs fun _ _ => .ite (fun _ => ?_) fun _ => .done
    all_goals exact .bind (.expect nofun nofun) fun _ _ => .done
  · exact .ite_pos (by simp [hend]) (.fail_bind (ht.unexpected nofun))

theorem object {line : Nat} : Passes allowed none level (g.object line) :=
  .bind (.repeatFrom fun _ => h.objectStep) fun _ _ => .done

/-- Errors at the `default` that has been read are allowed. -/
def BlamesDefault (allowed : ParseError → Prop) (read : List (Expr Unit) × Option Token) : Prop :=
  ∀ t ∈ read.2, Blames allowed t

omit h in
theorem patternStep_end {read : List (Expr Unit) × Option Token} (hread : BlamesDefault allowed read) :
    Reads allowed none level (do
        if ← nextIs (symbol .fatArrow) then return .inr (read.1.reverse, read.2)
        let _ ← expect (symbol .comma) "',' or '=>' after match pattern"
        return .inl read)
      (Sum.elim (BlamesDefault allowed) (BlamesDefault allowed)) (·.isLeft) := by
  refine .bind .nextIs fun _ _ => .ite (fun _ => .pure hread nofun) fun _ => .lower ?_
  exact .take_bind (.expect nofun nofun) fun _ _ => .pure hread id

theorem patternStep {read : List (Expr Unit) × Option Token} (hread : BlamesDefault allowed read) :
    Reads allowed none level (g.patternStep read)
      (Sum.elim (BlamesDefault allowed) (BlamesDefault allowed)) (·.isLeft) := by
  have hpure : ∀ read, BlamesDefault allowed read →
      Reads allowed none level (pure read : Parser _) (BlamesDefault allowed) fun _ => False :=
    fun read hread => .pure hread id
  refine .peek_bind fun token ht hblames => .ite (fun hkind => .lower ?_) fun _ => .anywhere ?_
  · have hdefault : BlamesDefault allowed (read.1, some token) := by
      rintro _ ⟨⟩
      exact hblames
    refine .skip_bind ht (hkind ▸ nofun) (.bind (hpure _ hdefault) fun read hread => ?_)
    exact (patternStep_end hread).mono (fun _ => id) fun _ => False.elim
  · exact .bind h.expression fun _ _ => .bind (hpure _ hread) fun _ hread => patternStep_end hread

theorem armStep {arms : List (Arm Unit)} : Progresses allowed level (g.armStep arms) := by
  have hpatterns : Reads allowed none level (repeatFrom g.patternStep ([], none)) (BlamesDefault allowed)
      fun _ => False := .repeatFrom_keeps (BlamesDefault allowed) nofun fun _ => h.patternStep
  refine .bind (.eat nofun) fun _ _ => .ite (fun _ => .pure trivial nofun) fun _ => ?_
  refine .bind hpatterns fun read hread => .lower <| .take_bind (.expect nofun nofun) fun _ _ => ?_
  refine .bind h.block fun _ _ => .bind (.eat nofun) fun _ _ => ?_
  obtain ⟨patterns, default⟩ := read
  cases default with
  | none => exact .done
  | some token =>
    exact .ite (fun _ => .fail_bind (hread token rfl _ rfl nofun)) fun _ => .done

theorem select {line : Nat} : Passes allowed none level (g.select line) :=
  .bind h.expression fun _ _ => .bind (.expect nofun nofun) fun _ _ =>
    .bind (.repeatFrom fun _ => h.armStep) fun _ _ => .done

theorem function {line : Nat} : Passes allowed none level (g.function line) := by
  have hname : ∀ name, Passes allowed none level (pure name : Parser String) := fun _ => .done
  refine .nextIs_bind (.ite nofun fun _ => ?_) fun t hkind ht => .ite (fun _ => ?_) (absurd rfl)
  · exact .bind (hname _) fun _ _ => .bind h.functionRest.lower fun _ _ => .done
  · refine .lower <| .advance_front ht (hkind ▸ nofun) (.bind (hname _) fun _ _ => ?_)
    exact .bind h.functionRest.lower fun _ _ => .done

theorem parenthesised : Passes allowed none level g.parenthesised :=
  .bind h.expression fun _ _ => .bind (.expect nofun nofun) fun _ _ => .done

theorem memberStep {e : Expr Unit} : Progresses allowed level (g.memberStep e) :=
  .lower <| .peek_bind fun _ _ _ => .ite (fun ht => .take_bind (h.access ht) fun _ _ => .done)
    fun _ => .pure trivial nofun

theorem member : Passes allowed none level g.member :=
  .bind h.primary fun _ _ => .repeatFrom fun _ => h.memberStep

theorem construct {line : Nat} : Passes allowed none level (g.construct line) := by
  refine .peek_bind fun start _ hstart => .anywhere (.bind h.member fun e _ => ?_)
  split
  · exact .bind (.expect nofun nofun) fun _ _ => .bind h.arguments fun _ _ => .done
  · exact .fail (hstart.unexpected nofun)

theorem primaryBody : Takes allowed none (level + 1) g.primaryBody := by
  refine .advance_bind (fun token _ _ ht => ?_) fun token hend ht => ?_
  · split
    · exact .done
    · split
      · exact .done
      · exact .fail (ht.unexpected nofun)
    · exact .done
    · exact h.function
    · exact h.parenthesised
    · exact h.select
    · exact h.construct
    · exact h.object
    · exact .bind (.commaSeparated h.expression) fun _ _ => .done
    · exact .fail (ht.unexpected nofun)
  · simp only [hend]
    exact .fail (ht.unexpected nofun)

theorem postfixStep {e : Expr Unit} : Progresses allowed level (g.postfixStep e) := by
  refine .lower <| .peek_bind fun token ht _ => .ite (fun hkind => ?_) fun _ => .ite (fun hkind => ?_) ?_
  · exact .skip_bind ht (hkind ▸ nofun) (.bind h.arguments fun _ _ => .done)
  · exact .take_bind (h.access hkind) fun _ _ => .done
  · exact fun _ => .pure trivial nofun

theorem postfixed : Takes allowed none (level + 1) g.postfixed :=
  .take_bind h.primaryBody fun _ _ => .repeatFrom fun _ => h.postfixStep

theorem sum : Takes allowed none (level + 1) g.sum :=
  chain_takes rfl (chain_takes rfl h.postfixed)

theorem logic : Takes allowed none (level + 1) g.logic := by
  refine .take_bind h.sum fun left _ => .bind (chainStep_progresses rfl h.sum.lower) fun r _ => ?_
  cases r with
  | inl => exact .repeatFrom fun _ => chainStep_progresses rfl h.expression
  | inr => exact .done

theorem attempt : Takes allowed none (level + 1) g.attempt := by
  refine .peek_bind fun token ht _ => .ite (fun hkind => ?_) fun _ => .anywhere h.logic
  exact .skip_bind ht (hkind ▸ nofun) <| .bind h.block fun _ _ =>
    .bind (.expect nofun nofun) fun _ _ => .bind h.block fun _ _ => .done

theorem conditional : Takes allowed none (level + 1) g.conditional := by
  refine .take_bind h.attempt fun test _ => .peek_bind fun arrow ht hblames => ?_
  refine .ite (fun _ => .done) fun hkind => .lower ?_
  have hend : arrow.kind ≠ .endOfInput := by
    rw [Decidable.not_not.mp hkind]
    nofun
  refine .skip_bind ht hend (.ite (fun _ => ?_) fun _ => ?_)
  · exact .fail_bind (hblames _ rfl nofun)
  · refine .bind h.expression fun branches _ => ?_
    split
    · exact .done
    · exact .fail (hblames _ rfl nofun)

theorem assignment : Takes allowed none (level + 1) g.assignment := by
  refine .take_bind h.conditional fun target _ => .peek_bind fun token ht hblames => ?_
  refine .ite (fun _ => .done) fun hkind => .lower ?_
  have hend : token.kind ≠ .endOfInput := by
    rw [Decidable.not_not.mp hkind]
    nofun
  refine .skip_bind ht hend ?_
  split
  · exact .bind h.expression fun _ _ => .done
  · exact .fail (hblames _ rfl nofun)

/-! ### Statements -/

theorem variableDecl (hbreak : t.kind ≠ .newline) (hend : t.kind ≠ .endOfInput) :
    Takes allowed (some t) (level + 1) g.variableDecl := by
  refine .advance_front hbreak hend (.bind (.expect nofun nofun) fun name hname => ?_)
  refine .bind (.eat nofun) fun given _ => .ite (fun _ => .ite (fun _ => ?_) fun _ => ?_) fun _ => ?_
  · exact .bind h.expression fun _ _ => .done
  · exact .fail (hname _ rfl nofun)
  · exact .ite (fun _ => .bind h.expression fun _ _ => .done) fun _ => .done

theorem test {opening closing : String} (hopening : opening ≠ "more input")
    (hclosing : closing ≠ "more input") : Passes allowed none level (g.test opening closing) :=
  .bind (.expect nofun hopening) fun _ _ => .bind h.expression fun _ _ =>
    .bind (.expect nofun hclosing) fun _ _ => .done

theorem alternate : Passes allowed none level g.alternate := by
  refine .bind (.eat nofun) fun _ _ => .ite (fun _ => .done) fun _ => ?_
  refine .nextIs_bind (.ite nofun fun _ => ?_) fun t hkind _ => .ite (fun _ => ?_) (absurd rfl)
  · exact .bind h.block fun _ _ => .done
  · exact .bind (h.branch t hkind) fun _ _ => .done

theorem branchBody (ht : t.kind = keyword .ifKw) : Takes allowed (some t) (level + 1) g.branchBody :=
  .advance_front (ht ▸ nofun) (ht ▸ nofun) <| .bind (h.test nofun nofun) fun _ _ =>
    .bind h.block fun _ _ => .bind h.alternate fun _ _ => .done

theorem forLoop (hbreak : t.kind ≠ .newline) (hend : t.kind ≠ .endOfInput) :
    Takes allowed (some t) (level + 1) g.forLoop := by
  refine .advance_front hbreak hend <| .bind (.expect nofun nofun) fun _ _ => ?_
  refine .peek_bind fun token ht hblames => .ite (fun _ => ?_) fun hkind => ?_
  · exact .fail_bind (hblames.unexpected nofun)
  have hend : token.kind ≠ .endOfInput := by
    rintro heq
    simp [heq] at hkind
  refine .bind (h.variableDecl ht hend).lower fun _ _ => .bind (.eat nofun) fun _ _ => ?_
  refine .bind h.expression fun _ _ => .bind (.eat nofun) fun _ _ => .bind h.expression fun _ _ => ?_
  exact .bind (.expect nofun nofun) fun _ _ => .bind h.block fun _ _ => .done

theorem classMember {parts : ClassParts} : Takes allowed none (level + 1) (g.classMember parts) := by
  refine .bind (.eat nofun) fun _ _ => .take_bind (.expect nofun nofun) fun _ _ => ?_
  refine .bind .nextIs fun _ _ => .ite (fun _ => ?_) fun _ => .ite (fun _ => ?_) fun _ => ?_
  · exact .bind h.functionRest.lower fun _ _ => .ite (fun _ => .done) fun _ => .done
  · exact .bind (.expect nofun nofun) fun _ _ => .bind h.expression fun _ _ => .done
  · exact .peek_bind fun _ _ hblames => .ite (fun _ => .fail_bind (hblames.unexpected nofun)) fun _ => .done

theorem classStep {parts : ClassParts} : Progresses allowed level (g.classStep parts) :=
  .bind (.eat nofun) fun _ _ => .ite (fun _ => .pure trivial nofun) fun _ => .lower <|
    .take_bind h.classMember fun _ _ => .bind (.eat nofun) fun _ _ => .done

section Words

variable {line : Nat} (hbreak : t.kind ≠ .newline) (hend : t.kind ≠ .endOfInput)

include hbreak hend

theorem classDecl : Takes allowed (some t) (level + 1) g.classDecl :=
  .advance_front hbreak hend <| .bind (.expectName nofun) fun _ _ => .bind (.expect nofun nofun) fun _ _ =>
    .bind (.repeatFrom fun _ => h.classStep) fun _ _ => .done

theorem functionDecl : Takes allowed (some t) (level + 1) (g.functionDecl line) :=
  .skip_bind hbreak hend <| .bind (.expectName nofun) fun _ _ =>
    .bind h.functionRest.lower fun _ _ => .done

theorem whileLoop : Takes allowed (some t) (level + 1) (g.whileLoop line) :=
  .skip_bind hbreak hend <| .bind (h.test nofun nofun) fun _ _ => .bind h.block fun _ _ => .done

theorem returns : Takes allowed (some t) (level + 1) (g.returns line) :=
  .skip_bind hbreak hend <| .bind .nextIs fun _ _ => .bind .nextIs fun _ _ =>
    .ite (fun _ => .done) fun _ => .bind h.expression fun _ _ => .done

end Words

theorem bareStatement : Takes allowed none (level + 1) g.bareStatement := by
  refine .peek_bind fun token ht _ => ?_
  split
  · next hkind => exact .take_bind (h.variableDecl ht (hkind ▸ nofun)) fun _ _ => .done
  · next hkind => exact .take_bind (h.variableDecl ht (hkind ▸ nofun)) fun _ _ => .done
  · next hkind => exact h.functionDecl ht (hkind ▸ nofun)
  · next hkind => exact h.branchBody hkind
  · next hkind => exact h.forLoop ht (hkind ▸ nofun)
  · next hkind => exact h.whileLoop ht (hkind ▸ nofun)
  · next hkind => exact h.returns ht (hkind ▸ nofun)
  · next hkind => exact .skip_bind ht (hkind ▸ nofun) .done
  · next hkind => exact .skip_bind ht (hkind ▸ nofun) .done
  · next hkind => exact .skip_bind ht (hkind ▸ nofun) (.bind h.expression fun _ _ => .done)
  · next hkind => exact h.classDecl ht (hkind ▸ nofun)
  · next hkind => exact enumDecl_takes ht (hkind ▸ nofun)
  · exact .anywhere (.take_bind h.assignment fun _ _ => .done)

theorem statement : Takes allowed none (level + 1) g.statement :=
  .take_bind h.bareStatement fun _ _ => .bind (.eat nofun) fun _ _ => .done

theorem blockStep {body : List (Stmt Unit)} : Progresses allowed level (g.blockStep body) := by
  refine .bind (.eat nofun) fun _ _ => .ite (fun _ => .pure trivial nofun) fun _ => ?_
  refine .peek_bind fun token _ hblames => .ite (fun _ => ?_) fun _ => .anywhere (.lower ?_)
  · exact .fail_bind (hblames.unexpected nofun)
  · exact .take_bind h.statement fun _ _ => .done

theorem blockBody : Takes allowed none (level + 1) g.blockBody :=
  .take_bind (.expect nofun nofun) fun _ _ => .repeatFrom fun _ => h.blockStep

theorem programStep {body : List (Stmt Unit)} : Progresses allowed (level + 1) (g.programStep body) :=
  .peek_bind fun _ _ _ => .anywhere <|
    .ite (fun _ => .pure trivial nofun) fun _ => .take_bind h.statement fun _ _ => .done

theorem program : Passes allowed none (level + 1) g.program :=
  .repeatFrom fun _ => h.programStep

end Nested.Serves

theorem nested_serves (allowed : ParseError → Prop) (depth : Nat) :
    (nested depth).Serves allowed depth := by
  -- Behind the first token of a phrase, the phrases of the level below have one token less.
  induction depth with
  | zero => exact ⟨nofun, nofun, nofun, nofun⟩
  | succ depth ih => exact ⟨ih.assignment, ih.blockBody, fun _ => ih.branchBody, ih.primaryBody⟩

theorem readProgram_error {tokens : List Token} {stop : Stop} (hadmits : Admits allowed tokens)
    (h : readProgram tokens = .error stop) : ∃ e, stop = .error e ∧ allowed e := by
  have hweight : weight tokens < weight tokens + 1 + 1 := by omega
  have hmeets := (nested_serves allowed (weight tokens + 1)).program tokens nofun hadmits hweight
  rw [readProgram, ← weight, StateT.run'] at h
  rcases hrun : (nested (weight tokens + 1)).program tokens with (e | _) | r
  · rw [hrun] at h hmeets
    cases h
    exact ⟨e, rfl, hmeets⟩
  · rw [hrun] at hmeets
    exact hmeets.elim
  · rw [hrun] at h
    cases h

end ScriptLang.Grammar

namespace ScriptLang

open Grammar (Admits Reached nothingLeft)

theorem parseTokens_error {tokens : List Token} {e : ParseError} {allowed : ParseError → Prop}
    (hadmits : Admits allowed tokens) (h : parseTokens tokens = .error e) : allowed e := by
  rw [parseTokens] at h
  split at h
  · cases h
  · next hread =>
    cases h
    obtain ⟨_, ⟨⟩, hallowed⟩ := Grammar.readProgram_error hadmits hread
    exact hallowed
  · next hread =>
    obtain ⟨_, ⟨⟩, _⟩ := Grammar.readProgram_error hadmits hread

/-- The error points at a token of the list that has been reached. -/
def ParseError.PointsInto (e : ParseError) (tokens : List Token) : Prop :=
  (∃ t, Reached t tokens ∧ e.position = t.position) ∧ e ≠ nothingLeft

theorem admits_pointsInto {tokens : List Token} (hend : ∃ t ∈ tokens, t.kind = .endOfInput) :
    Admits (·.PointsInto tokens) tokens where
  blames t ht _ he hne := ⟨⟨t, ht, he⟩, hne⟩
  missing hno := by
    obtain ⟨mark, hmark, hkind⟩ := hend
    exact absurd hkind (hno mark hmark)

/-- An error points at a token that has been reached, if the tokens hold an end mark. In a text that falls
into tokens, this is one of its tokens or its end. -/
theorem parse_error_position :
    (∀ tokens e, (∃ t ∈ tokens, t.kind = .endOfInput) → parseTokens tokens = .error e →
      (∃ t, Reached t tokens ∧ e.position = t.position) ∧
        e ≠ .unexpectedEndOfInput "more input" ⟨0, 0⟩) ∧
    ∀ source tokens e, tokenize source = .ok tokens → parse source = .error e →
      ∃ words, tokens = words ++ [.endAt (.behind source.toList)] ∧
        ((∃ t ∈ words, t.kind ≠ .newline ∧ e.position = t.position) ∨
          e.position = .behind source.toList) := by
  have hpoints : ∀ tokens e, (∃ t ∈ tokens, t.kind = .endOfInput) → parseTokens tokens = .error e →
      e.PointsInto tokens := fun tokens e hend => parseTokens_error (admits_pointsInto hend)
  refine ⟨hpoints, fun source tokens e htokens h => ?_⟩
  obtain ⟨words, hwords⟩ : ∃ words, Segments [] source.toList words source.toList [] := by
    rcases exists_segments_source source with h | ⟨_, _, _, _, -, hwords, hnone⟩
    · exact h
    · cases htokens.symm.trans (hwords.tokenize_eq_error hnone)
  obtain rfl := Except.ok.inj (htokens.symm.trans hwords.tokenize_eq)
  have hend : ∃ t ∈ words ++ [Token.endAt (.behind source.toList)], t.kind = .endOfInput :=
    ⟨_, List.mem_append_right words (List.mem_singleton_self _), rfl⟩
  rw [parse, htokens] at h
  obtain ⟨⟨t, ⟨hbreak, front, back, hsplit, -⟩, he⟩, -⟩ := hpoints _ e hend h
  have ht : t ∈ words ++ [Token.endAt (.behind source.toList)] := by simp [hsplit]
  refine ⟨words, rfl, (List.mem_append.mp ht).imp (fun ht => ⟨t, ht, hbreak, he⟩) fun ht => ?_⟩
  rw [he, List.mem_singleton.mp ht]
  rfl

/-- The arguments of a call lack a comma between them. -/
theorem call_error_position :
    let source := "f(\n1 2)"
    let tokens : List Token :=
      [⟨.identifier, "f", "f", ⟨1, 1⟩⟩, ⟨.symbol .leftParen, "(", "(", ⟨1, 2⟩⟩,
        ⟨.newline, "\n", "\n", ⟨1, 3⟩⟩, ⟨.number, "1", "1", ⟨2, 1⟩⟩, ⟨.number, "2", "2", ⟨2, 3⟩⟩,
        ⟨.symbol .rightParen, ")", ")", ⟨2, 4⟩⟩, .endAt ⟨2, 5⟩]
    let e : ParseError := .unexpectedToken "',' or ')'" "number '2'" ⟨2, 3⟩
    (parseTokens tokens = .error e ∧ ∃ t, Reached t tokens ∧ e.position = t.position) ∧
      (tokenize source = .ok tokens ∧ parse source = .error e) ∧
        ∃ words, tokens = words ++ [.endAt (.behind source.toList)] ∧
          ((∃ t ∈ words, t.kind ≠ .newline ∧ e.position = t.position) ∨
            e.position = .behind source.toList) := by
  intro source tokens e
  have htokens : tokenize source = .ok tokens := by cbv
  have hparse : parseTokens tokens = .error e := by cbv
  have hsource : parse source = .error e := by rw [parse, htokens]; exact hparse
  have hend : ∃ t ∈ tokens, t.kind = .endOfInput := ⟨.endAt ⟨2, 5⟩, by simp [tokens], rfl⟩
  have hposition := parse_error_position
  exact ⟨⟨hparse, (hposition.1 tokens e hend hparse).1⟩, ⟨htokens, hsource⟩,
    hposition.2 source tokens e htokens hsource⟩

end ScriptLang
