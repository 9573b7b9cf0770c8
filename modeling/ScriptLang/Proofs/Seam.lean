import ScriptLang.Proofs.Reading
import ScriptLang.Proofs.Relabelling

/-! Two runs of a parser side by side. Their tokens are alike up to a seam, but for the numbers of their
lines, and differ from there on. No parser looks beyond the next token, none takes an end mark, and where
an end mark is next the only other ways to go on are to stop and to take one semicolon behind a statement.
So both runs read the same up to the seam. The tokens before it are no line breaks. -/

namespace ScriptLang.Grammar

open TokenKind (keyword symbol)
open Lined (mapLine mapLine_reverse)

variable {α β γ : Type}

/-! ### Seams -/

/-- The token is neither a line break nor an end mark. -/
def IsWord (t : Token) : Prop :=
  t.kind ≠ .newline ∧ t.kind ≠ .endOfInput

/-- The token begins nothing and continues nothing, except that a semicolon may follow a statement. -/
def IsStop (t : Token) : Prop :=
  t.kind = .endOfInput ∨ t.kind = symbol .semicolon

/-- Tokens of the kind stand inside of phrases. -/
abbrev IsInner (kind : TokenKind) : Prop :=
  kind ≠ .endOfInput ∧ kind ≠ symbol .semicolon

theorem IsStop.ne_of_isInner {t : Token} {kind : TokenKind} (ht : IsStop t) (h : IsInner kind) :
    t.kind ≠ kind := by
  rcases ht with ht | ht
  · exact ht ▸ h.1.symm
  · exact ht ▸ h.2.symm

theorem IsStop.ne_newline {t : Token} (ht : IsStop t) : t.kind ≠ .newline :=
  ht.ne_of_isInner ⟨nofun, nofun⟩

/-- How the tokens go on from the seam in either run. The runs agree in their errors too if the first
tokens behind the seam are the same mark. -/
inductive Joint (f : Nat → Nat) : Prop → List Token → List Token → Prop
  | mark {e : Token} {left right : List Token} (he : e.kind = .endOfInput) :
    Joint f True (e :: left) (e.mapLine f :: right)
  | stop {e s : Token} {left right : List Token} (he : e.kind = .endOfInput) (hs : IsStop s) :
    Joint f False (e :: left) (s :: right)
  | semicolon {s e : Token} {left right : List Token} (hs : s.kind = symbol .semicolon)
      (he : e.kind = .endOfInput) : Joint f False (s :: e :: left) (s.mapLine f :: right)

structure Seam where
  line : Nat → Nat
  exact : Prop
  left : List Token
  right : List Token
  joint : Joint line exact left right

namespace Seam

variable (S : Seam)

/-- Both runs are at the same place before the seam, or at the seam. -/
def Before (tokens others : List Token) : Prop :=
  ∃ front : List Token, (∀ t ∈ front, IsWord t) ∧ tokens = front ++ S.left ∧
    others = front.map (Token.mapLine S.line) ++ S.right

/-- The first run is at its end mark, and the second is behind the semicolon at the seam. -/
def Past (tokens others : List Token) : Prop :=
  ¬S.exact ∧ (∃ e rest, tokens = e :: rest ∧ e.kind = .endOfInput) ∧
    ∃ s, s.kind = symbol .semicolon ∧ S.right = s :: others

variable {S} {tokens others : List Token}

/-- Either the next tokens are the same, or the first run is at its end mark. -/
theorem Before.cases (h : S.Before tokens others) :
    (∃ t rest rest', tokens = t :: rest ∧ others = t.mapLine S.line :: rest' ∧ t.kind ≠ .newline) ∨
      (¬S.exact ∧ tokens = S.left ∧ others = S.right ∧ ∃ e s rest rest',
        S.left = e :: rest ∧ S.right = s :: rest' ∧ e.kind = .endOfInput ∧ IsStop s) := by
  obtain ⟨front, hfront, rfl, rfl⟩ := h
  cases front with
  | cons t front =>
    exact .inl ⟨t, front ++ S.left, _, rfl, rfl, (hfront t List.mem_cons_self).1⟩
  | nil =>
    obtain ⟨line, exact, left, right, joint⟩ := S
    cases joint with
    | mark he => exact .inl ⟨_, _, _, rfl, rfl, he ▸ nofun⟩
    | stop he hs => exact .inr ⟨id, rfl, rfl, _, _, _, _, rfl, rfl, he, hs⟩
    | semicolon hs he => exact .inl ⟨_, _, _, rfl, rfl, hs ▸ nofun⟩

/-- A word that is next is taken on both sides. At the seam it can only be a semicolon. -/
theorem Before.tail {t t' : Token} {rest rest' : List Token} (h : S.Before (t :: rest) (t' :: rest'))
    (ht : t.kind ≠ .endOfInput) :
    S.Before rest rest' ∨ t.kind = symbol .semicolon ∧ S.Past rest rest' := by
  obtain ⟨front, hfront, htokens, hothers⟩ := h
  cases front with
  | cons u front =>
    obtain ⟨rfl, rfl⟩ := List.cons.inj htokens
    obtain ⟨-, rfl⟩ := List.cons.inj hothers
    exact .inl ⟨front, fun u hu => hfront u (List.mem_cons_of_mem _ hu), rfl, rfl⟩
  | nil =>
    obtain ⟨line, exact, left, right, joint⟩ := S
    cases joint with
    | mark he => exact absurd ((List.cons.inj htokens).1 ▸ he) ht
    | stop he hs => exact absurd ((List.cons.inj htokens).1 ▸ he) ht
    | @semicolon s e left right hs he =>
      obtain ⟨rfl, rfl⟩ := List.cons.inj htokens
      obtain ⟨rfl, rfl⟩ := List.cons.inj hothers
      exact .inr ⟨hs, id, ⟨e, left, rfl, he⟩, t.mapLine line, hs, rfl⟩

end Seam

/-! ### Runs side by side -/

section Relations

variable [Lined α] (S : Seam) (loose : α → Prop)

/-- The results of both runs. Behind a result that is `loose`, the second run may have taken a semicolon at
the seam. -/
inductive Agrees : Except Stop (α × List Token) → Except Stop (α × List Token) → Prop
  | exhausted_left {r' : Except Stop (α × List Token)} : Agrees (.error .exhausted) r'
  | exhausted_right {r : Except Stop (α × List Token)} : Agrees r (.error .exhausted)
  | error {e : ParseError} {r' : Except Stop (α × List Token)}
      (h : S.exact → r' = .error (.error (e.mapLine S.line))) : Agrees (.error (.error e)) r'
  | ok {a : α} {rest others : List Token} (h : S.Before rest others) :
    Agrees (.ok (a, rest)) (.ok (mapLine S.line a, others))
  | past {a : α} {rest others : List Token} (ha : loose a) (h : S.Past rest others) :
    Agrees (.ok (a, rest)) (.ok (mapLine S.line a, others))

def FollowsTo (p p' : Parser α) : Prop :=
  ∀ tokens others, S.Before tokens others → Agrees S loose (p tokens) (p' others)

/-- The second parser does with its tokens as the first one does. -/
abbrev Follows (p p' : Parser α) : Prop :=
  FollowsTo S (fun _ => False) p p'

/-- The same for tokens of which the one at the front is known. -/
def FollowsBehind (t : Token) (p p' : Parser α) : Prop :=
  t.kind ≠ .newline → ∀ rest others, S.Before (t :: rest) (t.mapLine S.line :: others) →
    Agrees S loose (p (t :: rest)) (p' (t.mapLine S.line :: others))

/-- The same where the first run is at its end mark and the second need not be. -/
def AgreesAtEnd (p p' : Parser α) : Prop :=
  ¬S.exact → (∃ e rest, S.left = e :: rest ∧ e.kind = .endOfInput) →
    S.Before S.left S.right → Agrees S loose (p S.left) (p' S.right)

/-- The same where the second run has taken a semicolon at the seam. -/
def FollowsPast (p p' : Parser α) : Prop :=
  ∀ tokens others, S.Past tokens others → Agrees S loose (p tokens) (p' others)

end Relations

/-- Both parsers fail at once, with the same error. -/
def FailsAlike (S : Seam) (p p' : Parser α) : Prop :=
  ∃ e : ParseError, ∀ tokens others, p tokens = .error (.error e) ∧
    p' others = .error (.error (e.mapLine S.line))

namespace FailsAlike

variable {S : Seam} {f f' : α → Parser β} {t : Token}

theorem fail {e e' : ParseError} (h : e' = e.mapLine S.line) :
    FailsAlike S (fail e : Parser α) (fail e') :=
  ⟨e, fun _ _ => ⟨rfl, h ▸ rfl⟩⟩

theorem unexpected {expected : String} :
    FailsAlike S (Grammar.fail (.unexpected t expected) : Parser α)
      (Grammar.fail (.unexpected (t.mapLine S.line) expected)) :=
  fail (ParseError.unexpected_mapLine ..)

theorem ite_pos {c : Prop} [Decidable c] {p p' q q' : Parser α} (hc : c) (hp : FailsAlike S p p') :
    FailsAlike S (if c then p else q) (if c then p' else q') := by
  rwa [if_pos hc, if_pos hc]

theorem ite_neg {c : Prop} [Decidable c] {p p' q q' : Parser α} (hc : ¬c) (hq : FailsAlike S q q') :
    FailsAlike S (if c then p else q) (if c then p' else q') := by
  rwa [if_neg hc, if_neg hc]

theorem bind {p p' : Parser α} (h : FailsAlike S p p') : FailsAlike S (p >>= f) (p' >>= f') := by
  obtain ⟨e, he⟩ := h
  exact ⟨e, fun tokens others => ⟨bind_of_error (he tokens others).1, bind_of_error (he tokens others).2⟩⟩

end FailsAlike

/-- The parser fails at an end mark. -/
def Starves (p : Parser α) : Prop :=
  ∀ e rest, e.kind = .endOfInput → ∃ stop, p (e :: rest) = .error stop

namespace Starves

variable {p : Parser α} {f : α → Parser β}

theorem bind (hp : Starves p) : Starves (p >>= f) := by
  intro e rest he
  obtain ⟨stop, hstop⟩ := hp e rest he
  exact ⟨stop, bind_of_error hstop⟩

theorem fail {e : ParseError} : Starves (fail e : Parser α) :=
  fun _ _ _ => ⟨_, rfl⟩

theorem throw {stop : Stop} : Starves (throw stop : Parser α) :=
  fun _ _ _ => ⟨_, rfl⟩

theorem peek_bind {f : Token → Parser β} (hf : ∀ e, e.kind = .endOfInput → Starves (f e)) :
    Starves (peek >>= f) := by
  intro e rest he
  rw [Grammar.peek_bind (he ▸ nofun)]
  exact hf e he e rest he

theorem advance_bind {f : Token → Parser β}
    (hf : ∀ e, e.kind = .endOfInput → ∀ rest, ∃ stop, f e rest = .error stop) :
    Starves (advance >>= f) := by
  intro e rest he
  rw [Grammar.advance_bind (he ▸ nofun)]
  exact hf e he rest

theorem nextIs_bind {kind : TokenKind} {f : Bool → Parser β} (hkind : kind ≠ .endOfInput)
    (hf : Starves (f false)) : Starves (nextIs kind >>= f) := by
  intro e rest he
  rw [Grammar.nextIs_bind (he ▸ nofun), he, decide_eq_false hkind.symm]
  exact hf e rest he

theorem eat_bind {kind : TokenKind} {f : Bool → Parser β} (hkind : kind ≠ .endOfInput)
    (hf : Starves (f false)) : Starves (eat kind >>= f) := by
  intro e rest he
  rw [Grammar.eat_bind (he ▸ nofun), he, if_neg hkind.symm]
  exact hf e rest he

theorem expect {kind : TokenKind} {expected : String} (hkind : kind ≠ .endOfInput) :
    Starves (expect kind expected) :=
  peek_bind fun e he => by
    rw [he, if_neg hkind.symm]
    exact fail

end Starves

/-! ### Rules -/

variable [Lined α] [Lined β] [Lined γ] {S : Seam} {loose : α → Prop} {loose' : β → Prop}

namespace Agrees

theorem bind {r r' : Except Stop (α × List Token)} {f f' : α → Parser β} (h : Agrees S loose r r')
    (hf : ∀ a rest others, S.Before rest others →
      Agrees S loose' (f a rest) (f' (mapLine S.line a) others))
    (hpast : ∀ a rest others, loose a → S.Past rest others →
      Agrees S loose' (f a rest) (f' (mapLine S.line a) others)) :
    Agrees S loose' (r >>= fun r => f r.1 r.2) (r' >>= fun r => f' r.1 r.2) := by
  cases h with
  | exhausted_left => exact exhausted_left
  | exhausted_right => exact exhausted_right
  | error h => exact error fun hexact => by rw [h hexact]; rfl
  | ok h => exact hf _ _ _ h
  | past ha h => exact hpast _ _ _ ha h

theorem of_error {r r' : Except Stop (α × List Token)} (hexact : ¬S.exact)
    (h : ∃ stop, r = .error stop) : Agrees S loose r r' := by
  obtain ⟨_ | _, rfl⟩ := h
  · exact error fun h => absurd h hexact
  · exact exhausted_left

end Agrees

namespace AgreesAtEnd

variable {p p' q q' : Parser α}

theorem of_follows (h : FollowsTo S loose p p') : AgreesAtEnd S loose p p' :=
  fun _ _ hbefore => h _ _ hbefore

theorem of_starves (h : Starves p) : AgreesAtEnd S loose p p' := by
  rintro hexact ⟨e, rest, hleft, he⟩ -
  rw [hleft]
  exact .of_error hexact (h e rest he)

theorem ite_neg {c c' : Prop} [Decidable c] [Decidable c'] (hc : ¬c) (hc' : ¬c')
    (hq : AgreesAtEnd S loose q q') : AgreesAtEnd S loose (if c then p else q) (if c' then p' else q') := by
  rwa [if_neg hc, if_neg hc']

end AgreesAtEnd

namespace FollowsPast

variable {p p' : Parser α}

theorem of_starves (h : Starves p) : FollowsPast S loose p p' := by
  rintro _ others ⟨hexact, ⟨e, rest, rfl, he⟩, -⟩
  exact .of_error hexact (h e rest he)

theorem pure {a a' : α} (h : mapLine S.line a = a') (ha : loose a) :
    FollowsPast S loose (pure a) (pure a') := by
  intro tokens others hpast
  subst h
  exact .past ha hpast

end FollowsPast

theorem FailsAlike.follows {p p' : Parser α} (h : FailsAlike S p p') : FollowsTo S loose p p' := by
  obtain ⟨e, he⟩ := h
  intro tokens others _
  rw [(he tokens others).1, (he tokens others).2]
  exact .error fun _ => rfl

namespace FollowsTo

variable {p p' q q' : Parser α} {f f' : α → Parser β}

theorem pure {a a' : α} (h : mapLine S.line a = a') : FollowsTo S loose (pure a) (pure a') := by
  intro tokens others hbefore
  subst h
  exact .ok hbefore

theorem throw : FollowsTo S loose (throw .exhausted : Parser α) p' :=
  fun _ _ _ => .exhausted_left

theorem throw_right : FollowsTo S loose p (MonadExcept.throw .exhausted : Parser α) :=
  fun _ _ _ => .exhausted_right

theorem weaken (h : Follows S p p') : FollowsTo S loose p p' := by
  intro tokens others hbefore
  have := h tokens others hbefore
  generalize p tokens = r, p' others = r' at this
  cases this with
  | exhausted_left => exact .exhausted_left
  | exhausted_right => exact .exhausted_right
  | error h => exact .error h
  | ok h => exact .ok h
  | past ha => exact ha.elim

theorem bind (hp : Follows S p p') (hf : ∀ a, FollowsTo S loose' (f a) (f' (mapLine S.line a))) :
    FollowsTo S loose' (p >>= f) (p' >>= f') :=
  fun tokens others h => (hp tokens others h).bind (fun a => hf a) fun _ _ _ => False.elim

theorem loose_bind (hp : FollowsTo S loose p p')
    (hf : ∀ a, FollowsTo S loose' (f a) (f' (mapLine S.line a)))
    (hpast : ∀ a, loose a → FollowsPast S loose' (f a) (f' (mapLine S.line a))) :
    FollowsTo S loose' (p >>= f) (p' >>= f') :=
  fun tokens others h => (hp tokens others h).bind (fun a => hf a) fun a _ _ ha => hpast a ha _ _

theorem ite {c : Prop} [Decidable c] (hp : FollowsTo S loose p p') (hq : FollowsTo S loose q q') :
    FollowsTo S loose (if c then p else q) (if c then p' else q') := by
  split
  · exact hp
  · exact hq

theorem peek_bind {f f' : Token → Parser β}
    (hf : ∀ t, FollowsBehind S loose' t (f t) (f' (t.mapLine S.line)))
    (hend : ∀ e s, e.kind = .endOfInput → IsStop s → AgreesAtEnd S loose' (f e) (f' s)) :
    FollowsTo S loose' (peek >>= f) (peek >>= f') := by
  intro tokens others hbefore
  obtain ⟨t, rest, rest', rfl, rfl, ht⟩ |
    ⟨hexact, rfl, rfl, e, s, rest, rest', hleft, hright, he, hs⟩ := hbefore.cases
  · rw [Grammar.peek_bind ht, Grammar.peek_bind (t := t.mapLine S.line) ht]
    exact hf t ht rest rest' hbefore
  · have hagrees := hend e s he hs hexact ⟨e, rest, hleft, he⟩ hbefore
    rw [hleft, hright] at hagrees ⊢
    rwa [Grammar.peek_bind (he ▸ nofun), Grammar.peek_bind hs.ne_newline]

theorem nextIs_bind {kind : TokenKind} {f f' : Bool → Parser β}
    (hkind : IsInner kind)
    (hfalse : FollowsTo S loose' (f false) (f' false))
    (htrue : ∀ t, t.kind = kind → FollowsBehind S loose' t (f true) (f' true)) :
    FollowsTo S loose' (nextIs kind >>= f) (nextIs kind >>= f') := by
  intro tokens others hbefore
  obtain ⟨t, rest, rest', rfl, rfl, ht⟩ |
    ⟨-, rfl, rfl, e, s, rest, rest', hleft, hright, he, hs⟩ := hbefore.cases
  · rw [Grammar.nextIs_bind ht, Grammar.nextIs_bind (t := t.mapLine S.line) ht, Token.kind_mapLine]
    by_cases h : t.kind = kind
    · rw [decide_eq_true h]
      exact htrue t h ht rest rest' hbefore
    · rw [decide_eq_false h]
      exact hfalse _ _ hbefore
  · have hagrees := hfalse _ _ hbefore
    rw [hleft, hright] at hagrees ⊢
    rwa [Grammar.nextIs_bind (he ▸ nofun), Grammar.nextIs_bind hs.ne_newline, he,
      decide_eq_false hkind.1.symm, decide_eq_false (hs.ne_of_isInner hkind)]

theorem nextIs {kind : TokenKind} (hkind : IsInner kind) :
    Follows S (nextIs kind) (nextIs kind) := by
  have h : Follows S (Grammar.nextIs kind >>= Pure.pure) (Grammar.nextIs kind >>= Pure.pure) :=
    nextIs_bind hkind (pure rfl) fun _ _ _ _ _ hbefore => .ok hbefore
  exact h

/-- A look for a semicolon misses the one at the seam in the first run. -/
theorem nextIs_semicolon_bind {f f' : Bool → Parser β} (hf : ∀ b, FollowsTo S loose' (f b) (f' b))
    (hend : Starves (f false)) :
    FollowsTo S loose' (Grammar.nextIs (symbol .semicolon) >>= f)
      (Grammar.nextIs (symbol .semicolon) >>= f') := by
  intro tokens others hbefore
  obtain ⟨t, rest, rest', rfl, rfl, ht⟩ |
    ⟨hexact, rfl, rfl, e, s, rest, rest', hleft, hright, he, hs⟩ := hbefore.cases
  · rw [Grammar.nextIs_bind ht, Grammar.nextIs_bind (t := t.mapLine S.line) ht]
    exact hf _ _ _ hbefore
  · have hmisses : Starves (Grammar.nextIs (symbol .semicolon) >>= f) := .nextIs_bind nofun hend
    rw [hleft]
    exact .of_error hexact (hmisses e rest he)

theorem advance_bind {f f' : Token → Parser β}
    (hf : ∀ t, FollowsTo S loose' (f t) (f' (t.mapLine S.line)))
    (hstop : ∀ t, IsStop t → FailsAlike S (f t) (f' (t.mapLine S.line))) :
    FollowsTo S loose' (advance >>= f) (advance >>= f') := by
  intro tokens others hbefore
  obtain ⟨t, rest, rest', rfl, rfl, ht⟩ |
    ⟨hexact, rfl, rfl, e, s, rest, rest', hleft, hright, he, hs⟩ := hbefore.cases
  · rw [Grammar.advance_bind ht, Grammar.advance_bind (t := t.mapLine S.line) ht]
    by_cases hkind : IsStop t
    · obtain ⟨err, herr⟩ := hstop t hkind
      rw [(herr rest rest').1, (herr rest rest').2]
      exact .error fun _ => rfl
    · refine hf t _ _ ?_
      exact (hbefore.tail fun h => hkind (.inl h)).resolve_right fun h => hkind (.inr h.1)
  · rw [hleft, Grammar.advance_bind (he ▸ nofun)]
    obtain ⟨err, herr⟩ := hstop e (.inl he)
    exact .of_error hexact ⟨_, (herr rest rest').1⟩

theorem expect {kind : TokenKind} {expected : String}
    (hkind : IsInner kind) :
    Follows S (expect kind expected) (expect kind expected) := by
  intro tokens others hbefore
  obtain ⟨t, rest, rest', rfl, rfl, ht⟩ |
    ⟨hexact, rfl, rfl, e, s, rest, rest', hleft, hright, he, hs⟩ := hbefore.cases
  · by_cases h : t.kind = kind
    · rw [expect_of_eq ht h, expect_of_eq (t := t.mapLine S.line) ht h]
      refine .ok ((hbefore.tail (h ▸ hkind.1)).resolve_right fun hpast => ?_)
      exact hkind.2 (h.symm.trans hpast.1)
    · rw [Grammar.expect, Grammar.peek_bind ht, Grammar.peek_bind (t := t.mapLine S.line) ht,
        Token.kind_mapLine, if_neg h, if_neg h]
      exact FailsAlike.unexpected.follows _ _ hbefore
  · rw [hleft]
    exact .of_error hexact (Starves.expect hkind.1 e rest he)

end FollowsTo

namespace FollowsBehind

variable {t : Token} {p p' q q' : Parser α}

theorem of_follows (h : FollowsTo S loose p p') : FollowsBehind S loose t p p' :=
  fun _ _ _ hbefore => h _ _ hbefore

theorem ite {c : Prop} [Decidable c] (hp : c → FollowsBehind S loose t p p')
    (hq : ¬c → FollowsBehind S loose t q q') :
    FollowsBehind S loose t (if c then p else q) (if c then p' else q') := by
  split
  · next hc => exact hp hc
  · next hc => exact hq hc

theorem skip_bind {f f' : Unit → Parser β} (ht : IsInner t.kind)
    (hf : FollowsTo S loose' (f ()) (f' ())) :
    FollowsBehind S loose' t (skip >>= f) (skip >>= f') :=
  fun _ _ _ hbefore => hf _ _ ((hbefore.tail ht.1).resolve_right fun hpast => ht.2 hpast.1)

theorem advance_bind {f f' : Token → Parser β}
    (ht : IsInner t.kind)
    (hf : FollowsTo S loose' (f t) (f' (t.mapLine S.line))) :
    FollowsBehind S loose' t (advance >>= f) (advance >>= f') := by
  intro hbreak rest others hbefore
  rw [Grammar.advance_bind hbreak, Grammar.advance_bind (t := t.mapLine S.line) hbreak]
  exact hf _ _ ((hbefore.tail ht.1).resolve_right fun hpast => ht.2 hpast.1)

theorem bind {f f' : α → Parser β} (hp : FollowsBehind S (fun _ => False) t p p')
    (hf : ∀ a, FollowsTo S loose' (f a) (f' (mapLine S.line a))) :
    FollowsBehind S loose' t (p >>= f) (p' >>= f') :=
  fun ht _ _ h => (hp ht _ _ h).bind (fun a => hf a) fun _ _ _ => False.elim

end FollowsBehind

namespace FollowsTo

theorem eat {kind : TokenKind} (hkind : IsInner kind) :
    Follows S (eat kind) (eat kind) := by
  refine nextIs_bind hkind (pure rfl) fun t ht => ?_
  exact .skip_bind (ht ▸ hkind) (pure rfl)

/-- A semicolon behind a statement may be taken at the seam. -/
theorem eat_semicolon_bind {q q' : Parser β} (hq : FollowsTo S loose' q q')
    (hpast : FollowsPast S loose' q q') :
    FollowsTo S loose' (Grammar.eat (symbol .semicolon) >>= fun _ => q)
      (Grammar.eat (symbol .semicolon) >>= fun _ => q') := by
  intro tokens others hbefore
  obtain ⟨t, rest, rest', rfl, rfl, ht⟩ |
    ⟨hexact, rfl, rfl, e, s, rest, rest', hleft, hright, he, hs⟩ := hbefore.cases
  · rw [Grammar.eat_bind ht, Grammar.eat_bind (t := t.mapLine S.line) ht, Token.kind_mapLine]
    split
    · next hkind =>
      obtain hbefore | ⟨-, hafter⟩ := hbefore.tail (hkind ▸ nofun)
      · exact hq _ _ hbefore
      · exact hpast _ _ hafter
    · exact hq _ _ hbefore
  · have hagrees := hq _ _ hbefore
    rw [hleft, hright] at hagrees ⊢
    rw [Grammar.eat_bind (he ▸ nofun), he, if_neg nofun, Grammar.eat_bind hs.ne_newline]
    split
    · next hkind => exact hpast _ _ ⟨hexact, ⟨e, rest, rfl, he⟩, s, hkind, hright⟩
    · exact hagrees

section Repetitions

variable {step step' : β → Parser (β ⊕ γ)} (again : Prop)
  (hstep : ∀ b, FollowsTo S (fun r => r.isLeft = true ∧ again) (step b) (step' (mapLine S.line b)))
  (hstarves : again → ∀ b, Starves (step b))

include hstep

theorem round {next next' : β → Parser γ} (b : β)
    (hnext : ∀ c, Follows S (next c) (next' (mapLine S.line c)))
    (hpast : again → ∀ c, Starves (next c)) :
    Follows S (step b >>= goOn next) (step' (mapLine S.line b) >>= goOn next') := by
  refine loose_bind (hstep b) (fun r => ?_) fun r hr => ?_
  · cases r with
    | inl c => exact hnext c
    | inr result => exact pure rfl
  · cases r with
    | inl c => exact .of_starves (hpast hr.2 c)
    | inr => cases hr.1

include hstarves

theorem rounds (n n' : Nat) (b : β) :
    Follows S (Grammar.rounds step n b) (Grammar.rounds step' n' (mapLine S.line b)) := by
  induction n generalizing n' b with
  | zero =>
    cases n' with
    | zero => exact round again hstep b (fun _ => throw) fun _ _ => .throw
    | succ => exact round again hstep b (fun _ => throw) fun _ _ => .throw
  | succ n ih =>
    have hstarves : again → ∀ c, Starves (Grammar.rounds step n c) := by
      intro h c e rest he
      obtain ⟨stop, hstop⟩ := hstarves h c e rest he
      exact ⟨stop, rounds_of_error hstop n⟩
    cases n' with
    | zero => exact round again hstep b (fun _ _ _ _ => .exhausted_right) hstarves
    | succ n' => exact round again hstep b (ih n') hstarves

theorem repeatFrom (b : β) :
    Follows S (repeatFrom step b) (repeatFrom step' (mapLine S.line b)) := by
  intro tokens others h
  rw [repeatFrom_eq_rounds, repeatFrom_eq_rounds]
  exact rounds again hstep hstarves _ _ b tokens others h

end Repetitions

theorem repeatFrom_strict {step step' : β → Parser (β ⊕ γ)}
    (hstep : ∀ b, Follows S (step b) (step' (mapLine S.line b))) (b : β) :
    Follows S (Grammar.repeatFrom step b) (Grammar.repeatFrom step' (mapLine S.line b)) :=
  repeatFrom False (fun b => weaken (hstep b)) nofun b

theorem commaSeparated {item item' : Parser α} {closing : Symbol} (h : Follows S item item')
    (hclosing : closing ≠ .semicolon) :
    Follows S (commaSeparated item closing) (commaSeparated item' closing) := by
  have hkind : IsInner (symbol closing) := ⟨nofun, fun h => hclosing (TokenKind.symbol.inj h)⟩
  refine repeatFrom_strict (fun items => ?_) []
  refine bind (eat hkind) fun _ => ite ?_ (bind h fun next => advance_bind (fun token => ?_) ?_)
  · exact pure (congrArg Sum.inr (mapLine_reverse items))
  · refine ite ?_ (ite (pure rfl) FailsAlike.unexpected.follows)
    exact pure (congrArg Sum.inr (mapLine_reverse (next :: items)))
  · intro token hstop
    refine .ite_neg (hstop.ne_of_isInner hkind) (.ite_neg (hstop.ne_of_isInner ⟨nofun, nofun⟩) ?_)
    exact .unexpected

end FollowsTo

end ScriptLang.Grammar
