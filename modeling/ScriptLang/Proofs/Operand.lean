import ScriptLang.Proofs.Reading
import ScriptLang.Proofs.Spelling

/-! Operands in parentheses. Each level of the grammar takes one and goes no further if the token behind
it is one that ends an expression. -/

namespace ScriptLang.Grammar

open TokenKind (keyword symbol)
open Token (mark word)
open Spelling

/-! ### Spelled tokens

The kinds are rewritten as propositions and not by definition (`(rfl)`), because the lemmas on reading
ask about them in side conditions. -/

section Tokens

variable {α : Type} {s : Symbol} {k : Keyword} {x expected : String} {line : Nat}
  {rest : List Token}

@[simp]
theorem mark_kind : (mark s line).kind = symbol s :=
  (rfl)

@[simp]
theorem mark_line : (mark s line).line = line :=
  rfl

@[simp]
theorem word_kind : (word k line).kind = keyword k :=
  (rfl)

@[simp]
theorem word_line : (word k line).line = line :=
  rfl

@[simp]
theorem name_kind : (Token.name x line).kind = .identifier :=
  (rfl)

@[simp]
theorem name_line : (Token.name x line).line = line :=
  rfl

@[simp]
theorem name_literal : (Token.name x line).literal = x :=
  rfl

@[simp]
theorem number_kind {value : Float} : (Token.number value line).kind = .number :=
  (rfl)

@[simp]
theorem number_line {value : Float} : (Token.number value line).line = line :=
  rfl

@[simp]
theorem text_kind : (Token.text x line).kind = .string :=
  (rfl)

@[simp]
theorem text_line : (Token.text x line).line = line :=
  rfl

@[simp]
theorem text_literal : (Token.text x line).literal = x :=
  rfl

@[simp]
theorem expect_mark_bind {f : Token → Parser α} :
    (expect (symbol s) expected >>= f) (mark s line :: rest) = f (mark s line) rest :=
  expect_bind nofun rfl

@[simp]
theorem expect_word_bind {f : Token → Parser α} :
    (expect (keyword k) expected >>= f) (word k line :: rest) = f (word k line) rest :=
  expect_bind nofun rfl

@[simp]
theorem expect_name_bind {f : Token → Parser α} :
    (expect .identifier expected >>= f) (Token.name x line :: rest) = f (Token.name x line) rest :=
  expect_bind nofun rfl

@[simp]
theorem weight_mark : weight (mark s line :: rest) = weight rest + 1 :=
  weight_cons nofun

@[simp]
theorem weight_word : weight (word k line :: rest) = weight rest + 1 :=
  weight_cons nofun

@[simp]
theorem weight_name : weight (Token.name x line :: rest) = weight rest + 1 :=
  weight_cons nofun

@[simp]
theorem expectName_bind_name {f : String → Parser α} :
    (expectName expected >>= f) (Token.name x line :: rest) = f x rest :=
  expectName_bind rfl

variable {tokens : List Token} {kind : TokenKind}

@[simp]
theorem length_enclosed : (enclosed line tokens).length = tokens.length + 2 := by
  simp [enclosed]

@[simp]
theorem length_braced : (braced tokens).length = tokens.length + 2 := by
  simp [braced]

@[simp]
theorem peek_enclosed_bind {f : Token → Parser α} :
    (peek >>= f) (enclosed line tokens ++ rest) =
      f (mark .leftParen line) (enclosed line tokens ++ rest) :=
  peek_bind (show (mark .leftParen line).kind ≠ .newline from nofun)

@[simp]
theorem nextIs_enclosed_bind {f : Bool → Parser α} :
    (nextIs kind >>= f) (enclosed line tokens ++ rest) =
      f (decide (symbol .leftParen = kind)) (enclosed line tokens ++ rest) :=
  nextIs_bind (show (mark .leftParen line).kind ≠ .newline from nofun)

@[simp]
theorem eat_enclosed_bind {f : Bool → Parser α} (h : symbol .leftParen ≠ kind) :
    (eat kind >>= f) (enclosed line tokens ++ rest) = f false (enclosed line tokens ++ rest) := by
  have hstay : eat kind (enclosed line tokens ++ rest) = .ok (false, enclosed line tokens ++ rest) :=
    eat_of_ne (show (mark .leftParen line).kind ≠ .newline from nofun) h
  exact bind_of_ok hstay

end Tokens

/-! ### Tokens that end an expression -/

/-- Nothing up to the level of sums goes on with a token of this kind, nor passes over it. -/
def endsSum (kind : TokenKind) : Bool :=
  kind ≠ .newline && kind ≠ symbol .leftParen && !Nested.startsAccess kind &&
    (Nested.productOperator? kind).isNone && (Nested.sumOperator? kind).isNone

/-- No expression goes on with a token of this kind, except for an assignment. -/
def endsTarget (kind : TokenKind) : Bool :=
  endsSum kind && (Nested.logicOperator? kind).isNone && kind ≠ symbol .arrow

def endsExpression (kind : TokenKind) : Bool :=
  endsTarget kind && kind ≠ symbol .equals

theorem endsSum_iff {kind : TokenKind} :
    endsSum kind = true ↔ kind ≠ .newline ∧ kind ≠ symbol .leftParen ∧
      Nested.startsAccess kind = false ∧ Nested.productOperator? kind = none ∧
      Nested.sumOperator? kind = none := by
  simp [endsSum, and_assoc]

theorem endsTarget_iff {kind : TokenKind} :
    endsTarget kind = true ↔
      endsSum kind = true ∧ Nested.logicOperator? kind = none ∧ kind ≠ symbol .arrow := by
  simp [endsTarget, and_assoc]

theorem endsExpression_iff {kind : TokenKind} :
    endsExpression kind = true ↔ endsTarget kind = true ∧ kind ≠ symbol .equals := by
  simp [endsExpression]

theorem endsTarget_ne {kind : TokenKind} (h : endsTarget kind = true) : kind ≠ .newline :=
  (endsSum_iff.mp (endsTarget_iff.mp h).1).1

theorem endsExpression_ne {kind : TokenKind} (h : endsExpression kind = true) :
    kind ≠ .newline :=
  endsTarget_ne (endsExpression_iff.mp h).1

/-! ### From primaries to assignments -/

section Levels

variable {g : Nested} {tokens rest : List Token} {t : Token} {e : Expr Unit}

theorem postfixStep_of_ends (hne : t.kind ≠ .newline) (hcall : t.kind ≠ symbol .leftParen)
    (haccess : Nested.startsAccess t.kind = false) :
    g.postfixStep e (t :: rest) = .ok (.inr e, t :: rest) := by
  rw [Nested.postfixStep, peek_bind hne]
  simp only [hcall, haccess, if_false, Bool.false_eq_true]
  rfl

theorem postfixed_of_primary (h : g.primaryBody tokens = .ok (e, t :: rest))
    (hne : t.kind ≠ .newline) (hcall : t.kind ≠ symbol .leftParen)
    (haccess : Nested.startsAccess t.kind = false) : g.postfixed tokens = .ok (e, t :: rest) := by
  rw [Nested.postfixed, bind_of_ok h]
  exact Finishes.repeatFrom (.last (postfixStep_of_ends hne hcall haccess))

theorem postfixed_of_step {first : Expr Unit} {between : List Token}
    (h : g.primaryBody tokens = .ok (first, between))
    (hstep : g.postfixStep first between = .ok (.inl e, t :: rest))
    (hshorter : weight (t :: rest) < weight between) (hne : t.kind ≠ .newline)
    (hcall : t.kind ≠ symbol .leftParen) (haccess : Nested.startsAccess t.kind = false) :
    g.postfixed tokens = .ok (e, t :: rest) := by
  rw [Nested.postfixed, bind_of_ok h]
  exact Finishes.repeatFrom (.next hstep hshorter (.last (postfixStep_of_ends hne hcall haccess)))

variable {operator? : TokenKind → Option Operator} {operand : Parser (Expr Unit)}

theorem chainStep_of_none (hne : t.kind ≠ .newline) (h : operator? t.kind = none) :
    chainStep operator? operand e (t :: rest) = .ok (.inr e, t :: rest) := by
  rw [chainStep, peek_bind hne, h]
  rfl

theorem chainStep_of_some {operator : Operator} {right : Expr Unit} {between : List Token}
    (hne : t.kind ≠ .newline) (h : operator? t.kind = some operator)
    (hright : operand rest = .ok (right, between)) :
    chainStep operator? operand e (t :: rest) =
      .ok (.inl (.binary operator e right t.line), between) := by
  rw [chainStep, peek_bind hne, h]
  simp only [skip_bind, bind_of_ok hright]
  rfl

theorem chain_of_operand (h : operand tokens = .ok (e, t :: rest)) (hne : t.kind ≠ .newline)
    (ht : operator? t.kind = none) : chain operator? operand tokens = .ok (e, t :: rest) := by
  rw [chain, bind_of_ok h]
  exact Finishes.repeatFrom (.last (chainStep_of_none hne ht))

theorem chain_of_pair {operator : Operator} {left right : Expr Unit} {t' : Token}
    {between : List Token} (hleft : operand tokens = .ok (left, t' :: between))
    (hne' : t'.kind ≠ .newline) (hoperator : operator? t'.kind = some operator)
    (hright : operand between = .ok (right, t :: rest)) (hne : t.kind ≠ .newline)
    (ht : operator? t.kind = none) (hshorter : weight (t :: rest) < weight (t' :: between)) :
    chain operator? operand tokens = .ok (.binary operator left right t'.line, t :: rest) := by
  rw [chain, bind_of_ok hleft]
  exact Finishes.repeatFrom
    (.next (chainStep_of_some hne' hoperator hright) hshorter (.last (chainStep_of_none hne ht)))

theorem sum_of_postfixed (h : g.postfixed tokens = .ok (e, t :: rest))
    (ht : endsSum t.kind = true) : g.sum tokens = .ok (e, t :: rest) := by
  obtain ⟨hne, -, -, hproduct, hsum⟩ := endsSum_iff.mp ht
  exact chain_of_operand (chain_of_operand h hne hproduct) hne hsum

theorem logic_of_sum (h : g.sum tokens = .ok (e, t :: rest)) (hne : t.kind ≠ .newline)
    (ht : Nested.logicOperator? t.kind = none) : g.logic tokens = .ok (e, t :: rest) := by
  rw [Nested.logic, bind_of_ok h, bind_of_ok (chainStep_of_none hne ht)]
  rfl

/-- The token is looked at, and it is not the word of a `try`. -/
def beginsLogic (kind : TokenKind) : Prop :=
  kind ≠ .newline ∧ kind ≠ keyword .tryKw

theorem attempt_of_logic {first : Token} (h : g.logic (first :: tokens) = .ok (e, rest))
    (hfirst : beginsLogic first.kind) : g.attempt (first :: tokens) = .ok (e, rest) := by
  rw [Nested.attempt, peek_bind hfirst.1, if_neg hfirst.2]
  exact h

theorem conditional_of_attempt (h : g.attempt tokens = .ok (e, t :: rest)) (hne : t.kind ≠ .newline)
    (ht : t.kind ≠ symbol .arrow) : g.conditional tokens = .ok (e, t :: rest) := by
  rw [Nested.conditional, bind_of_ok h, peek_bind hne, if_pos ht]
  rfl

theorem assignment_of_conditional (h : g.conditional tokens = .ok (e, t :: rest))
    (hne : t.kind ≠ .newline) (ht : t.kind ≠ symbol .equals) :
    g.assignment tokens = .ok (e, t :: rest) := by
  rw [Nested.assignment, bind_of_ok h, peek_bind hne, if_pos ht]
  rfl

theorem conditional_of_logic {first : Token} (h : g.logic (first :: tokens) = .ok (e, t :: rest))
    (hfirst : beginsLogic first.kind) (hne : t.kind ≠ .newline) (ht : t.kind ≠ symbol .arrow) :
    g.conditional (first :: tokens) = .ok (e, t :: rest) :=
  conditional_of_attempt (attempt_of_logic h hfirst) hne ht

theorem conditional_of_postfixed {first : Token}
    (h : g.postfixed (first :: tokens) = .ok (e, t :: rest))
    (hfirst : beginsLogic first.kind) (ht : endsTarget t.kind = true) :
    g.conditional (first :: tokens) = .ok (e, t :: rest) := by
  obtain ⟨hsum, hlogic, harrow⟩ := endsTarget_iff.mp ht
  have hne := (endsSum_iff.mp hsum).1
  exact conditional_of_logic (logic_of_sum (sum_of_postfixed h hsum) hne hlogic) hfirst hne harrow

theorem assignment_of_postfixed {first : Token}
    (h : g.postfixed (first :: tokens) = .ok (e, t :: rest))
    (hfirst : beginsLogic first.kind) (ht : endsExpression t.kind = true) :
    g.assignment (first :: tokens) = .ok (e, t :: rest) := by
  obtain ⟨htarget, hequals⟩ := endsExpression_iff.mp ht
  have hne := endsTarget_ne htarget
  exact assignment_of_conditional (conditional_of_postfixed h hfirst htarget) hne hequals

end Levels

/-! ### Expressions in parentheses -/

/-- The tokens are read as the expression if phrases may nest as deep as there are tokens. -/
def Spells (tokens : List Token) (e : Expr Unit) : Prop :=
  ∀ depth, tokens.length ≤ depth → ∀ t rest, endsExpression t.kind = true →
    (nested depth).assignment (tokens ++ t :: rest) = .ok (e, t :: rest)

namespace Spells

variable {tokens : List Token} {e : Expr Unit} {depth line : Nat}

theorem primary (h : Spells tokens e) (hdepth : tokens.length < depth) (rest : List Token) :
    (nested depth).primaryBody (enclosed line tokens ++ rest) = .ok (e, rest) := by
  obtain ⟨depth, rfl⟩ : ∃ inner, depth = inner + 1 := ⟨depth - 1, by omega⟩
  have hread : (nested (depth + 1)).expression (tokens ++ mark .rightParen 1 :: rest) =
      .ok (e, mark .rightParen 1 :: rest) :=
    h depth (by omega) _ _ rfl
  have hinside : (nested (depth + 1)).parenthesised (tokens ++ mark .rightParen 1 :: rest) =
      .ok (e, rest) := by
    rw [Nested.parenthesised, bind_of_ok hread, expect_mark_bind]
    rfl
  simp only [enclosed, List.cons_append, List.append_assoc, List.nil_append]
  rw [Nested.primaryBody, advance_bind (show (mark .leftParen line).kind ≠ .newline from nofun)]
  exact hinside

theorem postfixed (h : Spells tokens e) (hdepth : tokens.length < depth) {t : Token}
    (rest : List Token) (hne : t.kind ≠ .newline) (hcall : t.kind ≠ symbol .leftParen)
    (haccess : Nested.startsAccess t.kind = false) :
    (nested depth).postfixed (enclosed line tokens ++ t :: rest) = .ok (e, t :: rest) :=
  postfixed_of_primary (h.primary hdepth _) hne hcall haccess

theorem conditional (h : Spells tokens e) (hdepth : tokens.length < depth) {t : Token}
    (rest : List Token) (ht : endsTarget t.kind = true) :
    (nested depth).conditional (enclosed line tokens ++ t :: rest) = .ok (e, t :: rest) := by
  obtain ⟨hne, hcall, haccess, -⟩ := endsSum_iff.mp (endsTarget_iff.mp ht).1
  have hfirst : beginsLogic (mark .leftParen line).kind := ⟨nofun, nofun⟩
  exact conditional_of_postfixed (h.postfixed hdepth rest hne hcall haccess) hfirst ht

theorem assignment (h : Spells tokens e) (hdepth : tokens.length < depth) {t : Token}
    (rest : List Token) (ht : endsExpression t.kind = true) :
    (nested depth).assignment (enclosed line tokens ++ t :: rest) = .ok (e, t :: rest) := by
  obtain ⟨htarget, hequals⟩ := endsExpression_iff.mp ht
  have hne := endsTarget_ne htarget
  exact assignment_of_conditional (h.conditional hdepth rest htarget) hne hequals

theorem expression (h : Spells tokens e) (hdepth : tokens.length + 1 < depth) {t : Token}
    (rest : List Token) (ht : endsExpression t.kind = true) :
    (nested depth).expression (enclosed line tokens ++ t :: rest) = .ok (e, t :: rest) := by
  obtain ⟨depth, rfl⟩ : ∃ inner, depth = inner + 1 := ⟨depth - 1, by omega⟩
  exact h.assignment (by omega) rest ht

end Spells

end ScriptLang.Grammar
