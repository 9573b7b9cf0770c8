import ScriptLang.Grammar.Program

/-! What parsers do on tokens that begin as expected, and how repetitions come to their end. The tokens at
hand are no line breaks; those that follow may be. -/

namespace ScriptLang.Grammar

variable {α β γ : Type}

/-! ### Single tokens -/

theorem bind_of_ok {p : Parser α} {f : α → Parser β} {tokens rest : List Token} {a : α}
    (h : p tokens = .ok (a, rest)) : (p >>= f) tokens = f a rest := by
  show (p tokens >>= fun r => f r.1 r.2) = f a rest
  rw [h]
  rfl

theorem bind_eq_ok {p : Parser α} {f : α → Parser β} {tokens rest : List Token} {b : β}
    (h : (p >>= f) tokens = .ok (b, rest)) :
    ∃ a between, p tokens = .ok (a, between) ∧ f a between = .ok (b, rest) := by
  change (p tokens >>= fun r => f r.1 r.2) = .ok (b, rest) at h
  cases hp : p tokens with
  | error =>
    rw [hp] at h
    cases h
  | ok r =>
    rw [hp] at h
    exact ⟨r.1, r.2, rfl, h⟩

theorem bind_of_error {p : Parser α} {f : α → Parser β} {tokens : List Token} {stop : Stop}
    (h : p tokens = .error stop) : (p >>= f) tokens = .error stop := by
  show (p tokens >>= fun r => f r.1 r.2) = .error stop
  rw [h]
  rfl

@[simp]
theorem pure_run {a : α} {tokens : List Token} : (pure a : Parser α) tokens = .ok (a, tokens) :=
  rfl

section Tokens

variable {t : Token} {rest : List Token} {kind : TokenKind} {expected : String}

@[simp]
theorem afterBreaks_cons (h : t.kind ≠ .newline) : afterBreaks (t :: rest) = t :: rest := by
  simp [afterBreaks, h]

theorem peek_of_ne (h : t.kind ≠ .newline) : peek (t :: rest) = .ok (t, t :: rest) := by
  rw [peek, afterBreaks_cons h]

@[simp]
theorem peek_bind {f : Token → Parser α} (h : t.kind ≠ .newline) :
    (peek >>= f) (t :: rest) = f t (t :: rest) :=
  bind_of_ok (peek_of_ne h)

@[simp]
theorem skip_bind {f : Unit → Parser α} : (skip >>= f) (t :: rest) = f () rest :=
  rfl

theorem advance_of_ne (h : t.kind ≠ .newline) : advance (t :: rest) = .ok (t, rest) := by
  rw [advance, peek_bind h]
  rfl

@[simp]
theorem advance_bind {f : Token → Parser α} (h : t.kind ≠ .newline) :
    (advance >>= f) (t :: rest) = f t rest :=
  bind_of_ok (advance_of_ne h)

@[simp]
theorem nextIs_bind {f : Bool → Parser α} (h : t.kind ≠ .newline) :
    (nextIs kind >>= f) (t :: rest) = f (decide (t.kind = kind)) (t :: rest) := by
  have hnext : nextIs kind (t :: rest) = .ok (decide (t.kind = kind), t :: rest) := by
    simp [nextIs, h]
  exact bind_of_ok hnext

theorem eat_of_eq (hne : t.kind ≠ .newline) (h : t.kind = kind) :
    eat kind (t :: rest) = .ok (true, rest) := by
  rw [eat, nextIs_bind hne, decide_eq_true h]
  rfl

theorem eat_of_ne (hne : t.kind ≠ .newline) (h : t.kind ≠ kind) :
    eat kind (t :: rest) = .ok (false, t :: rest) := by
  rw [eat, nextIs_bind hne, decide_eq_false h]
  rfl

@[simp]
theorem eat_bind {f : Bool → Parser α} (hne : t.kind ≠ .newline) :
    (eat kind >>= f) (t :: rest) = if t.kind = kind then f true rest else f false (t :: rest) := by
  split
  · next h => exact bind_of_ok (eat_of_eq hne h)
  · next h => exact bind_of_ok (eat_of_ne hne h)

theorem expect_of_eq (hne : t.kind ≠ .newline) (h : t.kind = kind) :
    expect kind expected (t :: rest) = .ok (t, rest) := by
  rw [expect, peek_bind hne, if_pos h]
  rfl

theorem kind_of_expect {tokens : List Token} (h : expect kind expected tokens = .ok (t, rest)) :
    t.kind = kind := by
  obtain ⟨u, between, -, h⟩ := bind_eq_ok h
  split at h
  · next hkind =>
    cases h
    exact hkind
  · cases h

theorem expect_bind {f : Token → Parser α} (hne : t.kind ≠ .newline) (h : t.kind = kind) :
    (expect kind expected >>= f) (t :: rest) = f t rest :=
  bind_of_ok (expect_of_eq hne h)

theorem expectName_bind {f : String → Parser α} (h : t.kind = .identifier) :
    (expectName expected >>= f) (t :: rest) = f t.literal rest := by
  have hname : expectName expected (t :: rest) = .ok (t.literal, rest) := by
    rw [expectName, expect_bind (by simp [h]) h]
    rfl
  exact bind_of_ok hname

end Tokens

/-! ### Counting tokens -/

section Significant

variable {t : Token} {tokens rest : List Token}

theorem significant_cons (h : t.kind ≠ .newline) :
    significant (t :: rest) = t :: significant rest := by
  simp [significant, h]

theorem significant_break (h : t.kind = .newline) : significant (t :: rest) = significant rest := by
  simp [significant, h]

theorem significant_append : significant (tokens ++ rest) = significant tokens ++ significant rest :=
  List.filter_append tokens rest

@[simp]
theorem significant_nil : significant [] = [] :=
  rfl

theorem significant_afterBreaks (tokens : List Token) :
    significant (afterBreaks tokens) = significant tokens := by
  induction tokens with
  | nil => rfl
  | cons t rest ih =>
    by_cases h : t.kind = .newline
    · rw [afterBreaks, List.dropWhile_cons_of_pos (by simpa using h), ← afterBreaks, ih,
        significant_break h]
    · rw [afterBreaks_cons h]

theorem afterBreaks_front {tokens rest : List Token} {t : Token}
    (h : afterBreaks tokens = t :: rest) : t.kind ≠ .newline := by
  have hhead := List.head?_dropWhile_not (·.kind = .newline) tokens
  rw [← afterBreaks, h] at hhead
  simpa using hhead

/-- How many of the tokens are no line breaks. -/
def weight (tokens : List Token) : Nat :=
  (significant tokens).length

theorem weight_cons (h : t.kind ≠ .newline) : weight (t :: rest) = weight rest + 1 := by
  rw [weight, significant_cons h, List.length_cons, weight]

theorem weight_append (tokens rest : List Token) :
    weight (tokens ++ rest) = weight tokens + weight rest := by
  rw [weight, significant_append, List.length_append, weight, weight]

end Significant

/-! ### Repetitions -/

/-- What follows a round of a repetition. -/
def goOn (next : β → Parser γ) : β ⊕ γ → Parser γ
  | .inl b => next b
  | .inr result => return result

/-- A repetition with a bound on the rounds behind the first. -/
def rounds (step : β → Parser (β ⊕ γ)) : Nat → β → Parser γ
  | 0, b => step b >>= goOn fun _ => throw .exhausted
  | n + 1, b => step b >>= goOn (rounds step n)

theorem iterate_eq_rounds {step : β → Parser (β ⊕ γ)} (budget : List Token) (b : β) :
    iterate step budget b = rounds step (weight budget) b := by
  induction budget generalizing b with
  | nil => rfl
  | cons t budget ih =>
    by_cases h : t.kind = .newline
    · rw [iterate, if_pos h, ih, weight, weight, significant_break h]
    · rw [iterate, if_neg h, weight_cons h, rounds]
      congr 1
      funext r
      cases r with
      | inl next => exact ih next
      | inr => rfl

theorem repeatFrom_eq_rounds {step : β → Parser (β ⊕ γ)} {b : β} {tokens : List Token} :
    repeatFrom step b tokens = rounds step (weight tokens) b tokens :=
  congrFun (iterate_eq_rounds tokens b) tokens

theorem rounds_of_error {step : β → Parser (β ⊕ γ)} {b : β} {tokens : List Token} {stop : Stop}
    (h : step b tokens = .error stop) (n : Nat) : rounds step n b tokens = .error stop := by
  cases n with
  | zero => exact bind_of_error h
  | succ => exact bind_of_error h

theorem rounds_of_last {step : β → Parser (β ⊕ γ)} {b : β} {result : γ} {tokens rest : List Token}
    (h : step b tokens = .ok (.inr result, rest)) (n : Nat) :
    rounds step n b tokens = .ok (result, rest) := by
  cases n with
  | zero => exact bind_of_ok h
  | succ => exact bind_of_ok h

theorem rounds_last {step : β → Parser (β ⊕ γ)} {n : Nat} {b : β} {result : γ} {tokens rest : List Token}
    (h : rounds step n b tokens = .ok (result, rest)) :
    ∃ last before, step last before = .ok (.inr result, rest) := by
  induction n generalizing b tokens with
  | zero =>
    rw [rounds] at h
    obtain ⟨r, between, hstep, h⟩ := bind_eq_ok h
    cases r with
    | inl => cases h
    | inr => cases h; exact ⟨b, tokens, hstep⟩
  | succ n ih =>
    rw [rounds] at h
    obtain ⟨r, between, hstep, h⟩ := bind_eq_ok h
    cases r with
    | inl => exact ih h
    | inr => cases h; exact ⟨b, tokens, hstep⟩

/-- The repetition comes to its result in rounds that each take a token, except perhaps the last. -/
inductive Finishes (step : β → Parser (β ⊕ γ)) : β → List Token → γ → List Token → Prop
  | last {b : β} {result : γ} {tokens rest : List Token}
      (h : step b tokens = .ok (.inr result, rest)) : Finishes step b tokens result rest
  | next {b c : β} {result : γ} {tokens between rest : List Token}
      (h : step b tokens = .ok (.inl c, between)) (hshorter : weight between < weight tokens)
      (hrest : Finishes step c between result rest) : Finishes step b tokens result rest

variable {step : β → Parser (β ⊕ γ)}

theorem rounds_of_finishes {n : Nat} {b : β} {result : γ} {tokens rest : List Token}
    (h : Finishes step b tokens result rest) (hn : weight tokens ≤ n) :
    rounds step n b tokens = .ok (result, rest) := by
  induction h generalizing n with
  | last h => exact rounds_of_last h n
  | @next _ _ _ tokens between _ h hshorter _ ih =>
    obtain ⟨n, rfl⟩ : ∃ m, n = m + 1 := ⟨n - 1, by omega⟩
    have hfits : weight between ≤ n := by omega
    exact (bind_of_ok h).trans (ih hfits)

theorem Finishes.repeatFrom {b : β} {result : γ} {tokens rest : List Token}
    (h : Finishes step b tokens result rest) : repeatFrom step b tokens = .ok (result, rest) :=
  repeatFrom_eq_rounds.trans (rounds_of_finishes h (Nat.le_refl _))

end ScriptLang.Grammar

namespace ScriptLang

theorem exists_tokens_of_parse {text : String} {source : Source} (h : parse text = .ok source) :
    ∃ tokens, tokenize text = .ok tokens ∧ parseTokens tokens = .ok source := by
  rw [parse] at h
  cases htokens : tokenize text with
  | error e =>
    rw [htokens] at h
    cases h
  | ok tokens =>
    rw [htokens] at h
    exact ⟨tokens, rfl, h⟩

end ScriptLang
