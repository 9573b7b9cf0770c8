import ScriptLang.Proofs.Boundary
import ScriptLang.Proofs.Operand

/-! A phrase that reaches up to an end mark is the same phrase in front of any other token that ends it. Two
runs are side by side as at a seam, but here the second one may go on with the token behind the cut. Then the
first one stops at its mark, and from there on nothing is said of the second. -/

namespace ScriptLang.Grammar

open TokenKind (keyword symbol)

variable {α β γ : Type}

/-- The first run ends with the mark. In its place the second has a token with which no sum goes on. -/
structure Cut where
  mark : Token
  next : Token
  behind : List Token
  mark_kind : mark.kind = .endOfInput
  ends : endsSum next.kind = true

namespace Cut

variable (C : Cut)

theorem mark_ne {kind : TokenKind} (h : kind ≠ .endOfInput) : C.mark.kind ≠ kind :=
  C.mark_kind ▸ h.symm

theorem next_ne : C.next.kind ≠ .newline :=
  (endsSum_iff.mp C.ends).1

/-- Both runs are at the same place before the cut, or at the cut. -/
def Beside (tokens others : List Token) : Prop :=
  ∃ front, tokens = front ++ [C.mark] ∧ others = front ++ C.next :: C.behind

/-- The results of both runs. With a result that is `loose`, the first run may have stopped at its mark
where the second has gone on. -/
inductive Agrees (loose : α → Prop) :
    Except Stop (α × List Token) → Except Stop (α × List Token) → Prop
  | failed {stop : Stop} {r' : Except Stop (α × List Token)} : Agrees loose (.error stop) r'
  | exhausted {r : Except Stop (α × List Token)} : Agrees loose r (.error .exhausted)
  | ok {a : α} {rest others : List Token} (h : C.Beside rest others) :
    Agrees loose (.ok (a, rest)) (.ok (a, others))
  | stopped {a : α} {r' : Except Stop (α × List Token)} (ha : loose a) :
    Agrees loose (.ok (a, [C.mark])) r'

def Follows (loose : α → Prop) (p p' : Parser α) : Prop :=
  ∀ tokens others, C.Beside tokens others → C.Agrees loose (p tokens) (p' others)

/-- The second run does not go on behind the cut. -/
abbrev Strict (p p' : Parser α) : Prop :=
  C.Follows (fun _ => False) p p'

abbrev Loose (p p' : Parser α) : Prop :=
  C.Follows (fun _ => True) p p'

/-- The same for tokens of which the one at the front is known. -/
def FollowsBehind (loose : α → Prop) (t : Token) (p p' : Parser α) : Prop :=
  t.kind ≠ .newline → ∀ rest others, C.Beside rest others →
    C.Agrees loose (p (t :: rest)) (p' (t :: others))

/-- At its mark the first run fails, or it stops with a loose result. -/
def Stalls (loose : α → Prop) (p : Parser α) : Prop :=
  (∃ stop, p [C.mark] = .error stop) ∨ ∃ a, loose a ∧ p [C.mark] = .ok (a, [C.mark])

variable {C} {loose : α → Prop} {loose' : β → Prop} {tokens others : List Token}

theorem Beside.cons (t : Token) (h : C.Beside tokens others) : C.Beside (t :: tokens) (t :: others) := by
  obtain ⟨front, rfl, rfl⟩ := h
  exact ⟨t :: front, rfl, rfl⟩

theorem Beside.cases (h : C.Beside tokens others) :
    (∃ t rest rest', afterBreaks tokens = t :: rest ∧ afterBreaks others = t :: rest' ∧
      t.kind ≠ .newline ∧ C.Beside rest rest') ∨
      afterBreaks tokens = [C.mark] ∧ afterBreaks others = C.next :: C.behind := by
  obtain ⟨front, rfl, rfl⟩ := h
  induction front with
  | nil => exact .inr ⟨afterBreaks_cons (C.mark_ne nofun), afterBreaks_cons C.next_ne⟩
  | cons t front ih =>
    by_cases ht : t.kind = .newline
    · have hbreak : ∀ rest, afterBreaks (t :: rest) = afterBreaks rest :=
        fun rest => List.dropWhile_cons_of_pos (by simpa using ht)
      rw [List.cons_append, List.cons_append, hbreak, hbreak]
      exact ih
    · exact .inl ⟨t, _, _, afterBreaks_cons ht, afterBreaks_cons ht, ht, front, rfl, rfl⟩

theorem Stalls.agrees {p : Parser α} {r' : Except Stop (α × List Token)} (h : C.Stalls loose p) :
    C.Agrees loose (p [C.mark]) r' := by
  obtain ⟨stop, hstop⟩ | ⟨a, ha, hstop⟩ := h
  · rw [hstop]
    exact .failed
  · rw [hstop]
    exact .stopped ha

namespace Agrees

theorem bind {r r' : Except Stop (α × List Token)} {f f' : α → Parser β} (h : C.Agrees loose r r')
    (hf : ∀ a rest others, C.Beside rest others → C.Agrees loose' (f a rest) (f' a others))
    (hstall : ∀ a, loose a → C.Stalls loose' (f a)) :
    C.Agrees loose' (r >>= fun r => f r.1 r.2) (r' >>= fun r => f' r.1 r.2) := by
  cases h with
  | failed => exact failed
  | exhausted => exact exhausted
  | ok h => exact hf _ _ _ h
  | stopped ha => exact (hstall _ ha).agrees

end Agrees

/-! ### Rules -/

namespace Stalls

variable {p q : Parser α} {step : β → Parser (β ⊕ γ)}

theorem of_starves (h : Starves p) : C.Stalls loose p :=
  .inl (h C.mark [] C.mark_kind)

theorem pure {a : α} (ha : loose a) : C.Stalls loose (pure a) :=
  .inr ⟨a, ha, rfl⟩

theorem fail {e : ParseError} : C.Stalls loose (fail e : Parser α) :=
  .of_starves .fail

theorem fail_bind {e : ParseError} {f : α → Parser β} :
    C.Stalls loose' ((Grammar.fail e : Parser α) >>= f) :=
  .of_starves Starves.fail.bind

theorem pure_bind {a : α} {f : α → Parser β} (h : C.Stalls loose' (f a)) :
    C.Stalls loose' (Pure.pure a >>= f) :=
  h

theorem ite {c : Prop} [Decidable c] (hp : C.Stalls loose p) (hq : C.Stalls loose q) :
    C.Stalls loose (if c then p else q) := by
  split
  · exact hp
  · exact hq

theorem ite_pos {c : Prop} [Decidable c] (hc : c) (hp : C.Stalls loose p) :
    C.Stalls loose (if c then p else q) := by
  rwa [if_pos hc]

theorem ite_neg {c : Prop} [Decidable c] (hc : ¬c) (hq : C.Stalls loose q) :
    C.Stalls loose (if c then p else q) := by
  rwa [if_neg hc]

theorem peek_bind {f : Token → Parser β} (h : C.Stalls loose' (f C.mark)) :
    C.Stalls loose' (peek >>= f) := by
  rwa [Stalls, Grammar.peek_bind (C.mark_ne nofun)]

section Kinds

variable {kind : TokenKind} {expected : String} {f : Token → Parser β} {f' : Bool → Parser β}
  (hkind : kind ≠ .endOfInput)

include hkind

theorem expect_bind : C.Stalls loose' (expect kind expected >>= f) :=
  .of_starves (Starves.expect hkind).bind

theorem eat_bind (h : C.Stalls loose' (f' false)) : C.Stalls loose' (eat kind >>= f') := by
  rwa [Stalls, Grammar.eat_bind (C.mark_ne nofun), if_neg (C.mark_ne hkind)]

theorem nextIs_bind (h : C.Stalls loose' (f' false)) : C.Stalls loose' (nextIs kind >>= f') := by
  rwa [Stalls, Grammar.nextIs_bind (C.mark_ne nofun), decide_eq_false (C.mark_ne hkind)]

end Kinds

theorem rounds {again : β → Prop} {result : γ → Prop}
    (hmark : ∀ b, again b → C.Stalls (Sum.elim (fun _ => False) result) (step b)) {b : β} (hb : again b)
    (n : Nat) : C.Stalls result (rounds step n b) := by
  obtain ⟨stop, hstop⟩ | ⟨_ | last, hlast, hstep⟩ := hmark b hb
  · exact .inl ⟨stop, rounds_of_error hstop n⟩
  · exact hlast.elim
  · exact .inr ⟨last, hlast, rounds_of_last hstep n⟩

end Stalls

theorem advance_starves {f : Token → Parser β}
    (h : ∀ e, e.kind = .endOfInput → Rejects (fun _ => True) (f e)) : Starves (advance >>= f) := by
  refine .advance_bind fun e he rest => ?_
  obtain ⟨err, herr, -⟩ := h e he rest
  exact ⟨_, herr⟩

theorem rounds_starve {step : β → Parser (β ⊕ γ)} {b : β} (h : Starves (step b)) :
    Starves (repeatFrom step b) := by
  intro e rest he
  obtain ⟨stop, hstop⟩ := h e rest he
  refine ⟨stop, ?_⟩
  rw [repeatFrom_eq_rounds]
  exact rounds_of_error hstop _

namespace Follows

variable {p p' q q' : Parser α} {f f' : α → Parser β} {kind : TokenKind}

theorem pure {a : α} : C.Follows loose (pure a) (pure a) :=
  fun _ _ h => .ok h

theorem fail {e : ParseError} : C.Follows loose (fail e) p' :=
  fun _ _ _ => .failed

theorem fail_bind {e : ParseError} {q' : Parser β} :
    C.Follows loose' ((Grammar.fail e : Parser α) >>= f) q' :=
  fun _ _ _ => .failed

theorem throw : C.Follows loose (throw .exhausted) p' :=
  fun _ _ _ => .failed

theorem throw_right : C.Follows loose p (MonadExcept.throw .exhausted) :=
  fun _ _ _ => .exhausted

theorem weaken (h : C.Strict p p') : C.Follows loose p p' := by
  intro tokens others hbeside
  have hagrees := h tokens others hbeside
  generalize p tokens = r, p' others = r' at hagrees
  cases hagrees with
  | failed => exact .failed
  | exhausted => exact .exhausted
  | ok h => exact .ok h
  | stopped ha => exact ha.elim

theorem loose_bind (hp : C.Follows loose p p') (hf : ∀ a, C.Follows loose' (f a) (f' a))
    (hstall : ∀ a, loose a → C.Stalls loose' (f a)) : C.Follows loose' (p >>= f) (p' >>= f') :=
  fun tokens others h => (hp tokens others h).bind (fun a => hf a) hstall

theorem bind (hp : C.Strict p p') (hf : ∀ a, C.Follows loose' (f a) (f' a)) :
    C.Follows loose' (p >>= f) (p' >>= f') :=
  loose_bind hp hf fun _ => False.elim

theorem ite {c : Prop} [Decidable c] (hp : C.Follows loose p p') (hq : C.Follows loose q q') :
    C.Follows loose (if c then p else q) (if c then p' else q') := by
  split
  · exact hp
  · exact hq

theorem peek_bind {f f' : Token → Parser β} (hf : ∀ t, C.FollowsBehind loose' t (f t) (f' t))
    (hcut : C.Agrees loose' (f C.mark [C.mark]) (f' C.next (C.next :: C.behind))) :
    C.Follows loose' (peek >>= f) (peek >>= f') := by
  have hpeek : ∀ {tokens t rest}, afterBreaks tokens = t :: rest →
      peek tokens = .ok (t, t :: rest) := fun h => by rw [peek, h]
  intro tokens others h
  obtain ⟨t, rest, rest', hleft, hright, ht, hrest⟩ | ⟨hleft, hright⟩ := h.cases
  · rw [bind_of_ok (hpeek hleft), bind_of_ok (hpeek hright)]
    exact hf t ht _ _ hrest
  · rw [bind_of_ok (hpeek hleft), bind_of_ok (hpeek hright)]
    exact hcut

theorem peek_bind_of_stalls {f f' : Token → Parser β}
    (hf : ∀ t, C.FollowsBehind loose' t (f t) (f' t)) (hstall : C.Stalls loose' (f C.mark)) :
    C.Follows loose' (peek >>= f) (peek >>= f') :=
  peek_bind hf hstall.agrees

theorem advance_bind {f f' : Token → Parser β} (hf : ∀ t, C.Follows loose' (f t) (f' t))
    (hstarves : Starves (advance >>= f)) : C.Follows loose' (advance >>= f) (advance >>= f') := by
  obtain ⟨stop, hstop⟩ := hstarves C.mark [] C.mark_kind
  rw [Grammar.advance_bind (C.mark_ne nofun)] at hstop
  rw [advance]
  simp only [bind_assoc, pure_bind]
  refine peek_bind (fun t _ rest others h => hf t rest others h) ?_
  show C.Agrees loose' (f C.mark []) _
  rw [hstop]
  exact .failed

theorem expect {loose : Token → Prop} {expected : String} (hkind : kind ≠ .endOfInput) :
    C.Follows loose (expect kind expected) (expect kind expected) := by
  refine peek_bind (fun t _ rest others h => ?_) ?_
  · split
    · exact .ok h
    · exact .failed
  · rw [if_neg (C.mark_ne hkind)]
    exact .failed

theorem nextIs_bind {f f' : Bool → Parser β} (hkind : kind ≠ .endOfInput)
    (hf : ∀ t, C.FollowsBehind loose' t (f (t.kind = kind)) (f' (t.kind = kind)))
    (hstall : C.Stalls loose' (f false)) :
    C.Follows loose' (nextIs kind >>= f) (nextIs kind >>= f') := by
  have hlook : ∀ {tokens t rest}, afterBreaks tokens = t :: rest →
      nextIs kind tokens = .ok (decide (t.kind = kind), t :: rest) := by
    intro tokens t rest h
    rw [nextIs, h]
    rfl
  intro tokens others h
  obtain ⟨t, rest, rest', hleft, hright, ht, hrest⟩ | ⟨hleft, hright⟩ := h.cases
  · rw [bind_of_ok (hlook hleft), bind_of_ok (hlook hright)]
    exact hf t ht _ _ hrest
  · rw [bind_of_ok (hlook hleft), decide_eq_false (C.mark_ne hkind)]
    exact hstall.agrees

theorem nextIs (hkind : kind ≠ .endOfInput) : C.Follows (· = false) (nextIs kind) (nextIs kind) :=
  (nextIs_bind hkind (fun _ _ _ _ h => .ok (h.cons _)) (.pure rfl) :
    C.Follows (· = false) (Grammar.nextIs kind >>= Pure.pure) (Grammar.nextIs kind >>= Pure.pure))

theorem eat (hkind : kind ≠ .endOfInput) : C.Follows (· = false) (eat kind) (eat kind) := by
  refine nextIs_bind hkind (fun t ht rest others h => ?_) (.pure rfl)
  by_cases hfound : t.kind = kind
  · rw [decide_eq_true hfound]
    exact .ok h
  · rw [decide_eq_false hfound]
    exact .ok (h.cons t)

section Branches

variable {p p' q q' : Parser β} (hkind : kind ≠ .endOfInput)

include hkind

theorem eat_ite (hp : C.Follows loose' p p') (hq : C.Follows loose' q q') (hstall : C.Stalls loose' q) :
    C.Follows loose' (Grammar.eat kind >>= fun b => if b then p else q)
      (Grammar.eat kind >>= fun b => if b then p' else q') :=
  loose_bind (eat hkind) (fun _ => ite hp hq) fun _ h => .ite_neg (h ▸ nofun) hstall

theorem eat_ite_of_starves (hp : C.Follows loose' p p') (hstarves : Starves q)
    (hq : Starves q → C.Follows loose' q q') :
    C.Follows loose' (Grammar.eat kind >>= fun b => if b then p else q)
      (Grammar.eat kind >>= fun b => if b then p' else q') :=
  eat_ite hkind hp (hq hstarves) (.of_starves hstarves)

theorem nextIs_ite (hp : ∀ t, C.FollowsBehind loose' t p p') (hq : C.Follows loose' q q')
    (hstall : C.Stalls loose' q) :
    C.Follows loose' (Grammar.nextIs kind >>= fun b => if b then p else q)
      (Grammar.nextIs kind >>= fun b => if b then p' else q') := by
  refine nextIs_bind hkind (fun t ht rest others h => ?_) (.ite_neg nofun hstall)
  split
  · exact hp t ht rest others h
  · exact hq _ _ (h.cons t)

theorem unless_nextIs (hp : C.Follows loose' p p') (hq : C.Follows loose' q q')
    (hstall : C.Stalls loose' p) :
    C.Follows loose' (Grammar.nextIs kind >>= fun b => if !b then p else q)
      (Grammar.nextIs kind >>= fun b => if !b then p' else q') :=
  loose_bind (nextIs hkind) (fun _ => ite hp hq) fun _ h => .ite_pos (by simp [h]) hstall

end Branches

section Repetitions

variable {step step' : β → Parser (β ⊕ γ)} (again : β → Prop) {result : γ → Prop}
  (hstep : ∀ b, C.Follows (Sum.elim again result) (step b) (step' b))

include hstep

theorem round {next next' : β → Parser γ} (b : β) (hnext : ∀ c, C.Follows result (next c) (next' c))
    (hstall : ∀ c, again c → C.Stalls result (next c)) :
    C.Follows result (step b >>= goOn next) (step' b >>= goOn next') := by
  refine loose_bind (hstep b) (fun r => ?_) fun r hr => ?_
  · cases r with
    | inl c => exact hnext c
    | inr => exact pure
  · cases r with
    | inl c => exact hstall c hr
    | inr => exact .pure hr

variable (hmark : ∀ b, again b → C.Stalls (Sum.elim (fun _ => False) result) (step b))

include hmark

theorem rounds (n n' : Nat) (b : β) : C.Follows result (rounds step n b) (Grammar.rounds step' n' b) := by
  induction n generalizing n' b with
  | zero =>
    cases n' with
    | zero => exact round again hstep b (fun _ => throw) fun _ _ => .inl ⟨_, rfl⟩
    | succ => exact round again hstep b (fun _ => throw) fun _ _ => .inl ⟨_, rfl⟩
  | succ n ih =>
    have hstall : ∀ c, again c → C.Stalls result (Grammar.rounds step n c) :=
      fun c hc => .rounds hmark hc n
    cases n' with
    | zero => exact round again hstep b (fun _ => throw_right) hstall
    | succ n' => exact round again hstep b (ih n') hstall

theorem repeatFrom (b : β) : C.Follows result (repeatFrom step b) (Grammar.repeatFrom step' b) := by
  intro tokens others h
  rw [repeatFrom_eq_rounds, repeatFrom_eq_rounds]
  exact rounds again hstep hmark _ _ b tokens others h

end Repetitions

theorem repeatFrom_strict {step step' : β → Parser (β ⊕ γ)} (hstep : ∀ b, C.Strict (step b) (step' b))
    (b : β) : C.Strict (Grammar.repeatFrom step b) (Grammar.repeatFrom step' b) :=
  repeatFrom (fun _ => False) (fun b => weaken (hstep b)) (fun _ => False.elim) b

theorem commaSeparated {item item' : Parser α} {closing : Symbol} (h : C.Loose item item')
    (hstarves : Starves item) :
    C.Strict (commaSeparated item closing) (Grammar.commaSeparated item' closing) := by
  have hbehind : ∀ next : α, ∀ items : List α, Starves (do
      let token ← advance
      if token.kind = symbol closing then return .inr (next :: items).reverse
      if token.kind = symbol .comma then return .inl (next :: items)
      Grammar.fail (.unexpected token ("',' or " ++ (symbol closing).text)) :
        Parser (List α ⊕ List α)) :=
    fun _ _ => advance_starves fun e he =>
      .ite_neg (he ▸ nofun) (.ite_neg (he ▸ nofun) (.fail trivial))
  refine repeatFrom_strict (fun items => ?_) []
  refine eat_ite nofun pure (loose_bind h (fun next => ?_) fun next _ => ?_) (.of_starves hstarves.bind)
  · exact advance_bind (fun token => ite pure (ite pure fail)) (hbehind next items)
  · exact .of_starves (hbehind next items)

end Follows

namespace FollowsBehind

variable {t : Token} {p p' q q' : Parser α}

theorem of_follows (h : C.Follows loose p p') : C.FollowsBehind loose t p p' :=
  fun _ _ _ hbeside => h _ _ (hbeside.cons t)

theorem ite {c : Prop} [Decidable c] (hp : C.FollowsBehind loose t p p')
    (hq : C.FollowsBehind loose t q q') :
    C.FollowsBehind loose t (if c then p else q) (if c then p' else q') := by
  split
  · exact hp
  · exact hq

theorem skip_bind {f f' : Unit → Parser β} (hf : C.Follows loose' (f ()) (f' ())) :
    C.FollowsBehind loose' t (skip >>= f) (skip >>= f') :=
  fun _ rest others h => hf rest others h

theorem advance_bind {f f' : Token → Parser β} (hf : C.Follows loose' (f t) (f' t)) :
    C.FollowsBehind loose' t (advance >>= f) (advance >>= f') := by
  intro ht rest others h
  rw [Grammar.advance_bind ht, Grammar.advance_bind ht]
  exact hf rest others h

theorem loose_bind {f f' : α → Parser β} (hp : C.FollowsBehind loose t p p')
    (hf : ∀ a, C.Follows loose' (f a) (f' a)) (hstall : ∀ a, loose a → C.Stalls loose' (f a)) :
    C.FollowsBehind loose' t (p >>= f) (p' >>= f') :=
  fun ht rest others h => (hp ht rest others h).bind (fun a => hf a) hstall

theorem bind {f f' : α → Parser β} (hp : C.FollowsBehind (fun _ => False) t p p')
    (hf : ∀ a, C.Follows loose' (f a) (f' a)) : C.FollowsBehind loose' t (p >>= f) (p' >>= f') :=
  loose_bind hp hf fun _ => False.elim

end FollowsBehind

end Cut

end ScriptLang.Grammar
