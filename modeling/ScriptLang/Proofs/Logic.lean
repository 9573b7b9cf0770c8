import ScriptLang.Proofs.Context

/-! Chains of logical operators. Only the first operator joins two sums. Each further one takes a whole
expression, which reads the rest of the chain in its turn. So a chain is cut into pairs from the left, and
what comes behind a chain belongs to the last of them. -/

namespace ScriptLang.Grammar

open TokenKind (keyword symbol)
open Token (mark)

/-- Tokens that are a sum by themselves. -/
structure Summand where
  tokens : List Token
  value : Expr Unit
  isSum : IsSum tokens value

/-- A logical operator in a chain and the operand behind it. -/
structure Clause where
  token : Token
  operator : Operator
  operand : Summand
  operator_eq : Nested.logicOperator? token.kind = some operator

theorem endsSum_of_logicOperator {kind : TokenKind} {operator : Operator}
    (h : Nested.logicOperator? kind = some operator) : endsSum kind = true := by
  rw [Nested.logicOperator?.eq_def] at h
  split at h
  · rfl
  · rfl
  · cases h

namespace Clause

variable {c : Clause} {clauses : List Clause} {behind : List Token}

theorem ends : endsSum c.token.kind = true :=
  endsSum_of_logicOperator c.operator_eq

theorem ne_newline : c.token.kind ≠ .newline :=
  (endsSum_iff.mp c.ends).1

/-- The tokens of the clauses with what is behind them. -/
def spell (clauses : List Clause) (behind : List Token) : List Token :=
  clauses.foldr (fun c rest => c.token :: (c.operand.tokens ++ rest)) behind

@[simp]
theorem spell_nil : spell [] behind = behind :=
  rfl

@[simp]
theorem spell_cons :
    spell (c :: clauses) behind = c.token :: (c.operand.tokens ++ spell clauses behind) :=
  rfl

theorem weight_le_spell (clauses : List Clause) (behind : List Token) :
    weight behind ≤ weight (spell clauses behind) := by
  induction clauses with
  | nil => exact Nat.le_refl _
  | cons c clauses ih =>
    rw [spell_cons, weight_cons c.ne_newline, weight_append]
    omega

/-- `left` and the operand of the clause as one expression. -/
def join (left : Expr Unit) (c : Clause) : Expr Unit :=
  .binary c.operator left c.operand.value c.token.line

/-- Two operands are a pair. From the third on, the operands are a chain of their own to the right of it. -/
def tree : Summand → List Clause → Expr Unit
  | first, [] => first.value
  | first, [c] => c.join first.value
  | first, c :: d :: clauses =>
    .binary d.operator (c.join first.value) (tree d.operand clauses) d.token.line

/-- The last pair of the chain, or its last operand if there is no other to pair it with. -/
def lastGroup : Summand → List Clause → Expr Unit
  | first, [] => first.value
  | first, [c] => c.join first.value
  | _, _ :: d :: clauses => lastGroup d.operand clauses

/-- The tree of the chain with `last` for its last group. -/
def around : Summand → List Clause → Expr Unit → Expr Unit
  | _, [], last => last
  | _, [_], last => last
  | first, c :: d :: clauses, last =>
    .binary d.operator (c.join first.value) (around d.operand clauses last) d.token.line

theorem around_lastGroup (first : Summand) (clauses : List Clause) :
    around first clauses (lastGroup first clauses) = tree first clauses := by
  induction first, clauses using tree.induct with
  | case1 => rfl
  | case2 => rfl
  | case3 first c d clauses ih => rw [around, lastGroup, tree, ih]

/-- Of an even number of operands the last two are a pair. -/
theorem isTernaryTest_lastGroup (first : Summand) (clauses : List Clause)
    (h : clauses.length % 2 = 1) : isTernaryTest (lastGroup first clauses) = true := by
  induction first, clauses using tree.induct with
  | case1 => cases h
  | case2 => rfl
  | case3 first c d clauses ih =>
    rw [List.length_cons, List.length_cons] at h
    exact ih (by omega)

end Clause

/-! ### One pair -/

section Pair

variable {g : Nested} {tokens rest : List Token} {t : Token} {stop : Stop} {e : Expr Unit}

theorem bind_afterBreaks {α β : Type} {p : Parser α} {f : α → Parser β}
    (h : p (afterBreaks tokens) = p tokens) : (p >>= f) (afterBreaks tokens) = (p >>= f) tokens := by
  show (p (afterBreaks tokens) >>= fun r => f r.1 r.2) = (p tokens >>= fun r => f r.1 r.2)
  rw [h]

theorem sum_afterBreaks : g.sum (afterBreaks tokens) = g.sum tokens := by
  have hpeek : peek (afterBreaks tokens) = peek tokens := by
    have htwice : afterBreaks (afterBreaks tokens) = afterBreaks tokens := List.dropWhile_idempotent ..
    rw [peek, peek, htwice]
  have hprimary : g.primaryBody (afterBreaks tokens) = g.primaryBody tokens :=
    bind_afterBreaks (bind_afterBreaks hpeek)
  exact bind_afterBreaks (bind_afterBreaks (bind_afterBreaks hprimary))

theorem ne_tryKw_of_sum {r : Expr Unit × List Token} (ht : t.kind ≠ .newline)
    (h : g.sum (t :: rest) = .ok r) : t.kind ≠ keyword .tryKw := by
  intro htry
  have hprimary : g.primaryBody (t :: rest) = .error (.error (.unexpected t "an expression")) := by
    rw [Nested.primaryBody, advance_bind ht, htry]
    rfl
  cases (bind_of_error (bind_of_error (bind_of_error hprimary))).symm.trans h

/-- No sum begins with the word of a `try`. -/
theorem attempt_eq_logic {r : Expr Unit × List Token} (h : g.sum tokens = .ok r) :
    g.attempt tokens = g.logic tokens := by
  have hlogic : g.logic (afterBreaks tokens) = g.logic tokens := bind_afterBreaks sum_afterBreaks
  rw [← sum_afterBreaks] at h
  cases hnext : afterBreaks tokens with
  | nil =>
    rw [hnext] at h
    cases h
  | cons t rest =>
    have ht := afterBreaks_front hnext
    have hpeek : peek tokens = .ok (t, t :: rest) := by rw [peek, hnext]
    rw [hnext] at h hlogic
    rw [Nested.attempt, bind_of_ok hpeek, if_neg (ne_tryKw_of_sum ht h)]
    exact hlogic

variable {c : Clause}
  (hfirst : g.sum tokens = .ok (e, c.token :: (c.operand.tokens ++ t :: rest)))
  (hsecond : g.sum (c.operand.tokens ++ t :: rest) = .ok (c.operand.value, t :: rest))

include hfirst hsecond

theorem logic_of_pair : g.logic tokens =
    repeatFrom (chainStep Nested.logicOperator? g.expression) (c.join e) (t :: rest) := by
  rw [Nested.logic, bind_of_ok hfirst,
    bind_of_ok (chainStep_of_some c.ne_newline c.operator_eq hsecond)]
  rfl

theorem logic_of_last_pair (ht : t.kind ≠ .newline) (hnone : Nested.logicOperator? t.kind = none) :
    g.logic tokens = .ok (c.join e, t :: rest) := by
  rw [logic_of_pair hfirst hsecond]
  exact Finishes.repeatFrom (.last (chainStep_of_none ht hnone))

end Pair

theorem assignment_of_more {g : Nested} {c d : Clause} {tokens between rest : List Token} {t : Token}
    {e : Expr Unit} {right : Except Stop (Expr Unit)}
    (hfirst : g.sum tokens = .ok (e, c.token :: (c.operand.tokens ++ d.token :: between)))
    (hsecond : g.sum (c.operand.tokens ++ d.token :: between) = .ok (c.operand.value, d.token :: between))
    (hright : g.expression between = right.map (·, t :: rest)) (ht : endsExpression t.kind = true)
    (hshorter : weight (t :: rest) ≤ weight between) :
    g.assignment tokens =
      (right.map (.binary d.operator (c.join e) · d.token.line)).map (·, t :: rest) := by
  have hattempt := (attempt_eq_logic hfirst).trans (logic_of_pair hfirst hsecond)
  cases right with
  -- The chain ends where the expression behind its second operator does, with an error or a value.
  | error stop =>
    have hstep : chainStep Nested.logicOperator? g.expression (c.join e) (d.token :: between) =
        .error stop := by
      rw [chainStep, peek_bind d.ne_newline, d.operator_eq]
      simp only [skip_bind]
      exact bind_of_error hright
    rw [repeatFrom_eq_rounds, rounds_of_error hstep] at hattempt
    exact bind_of_error (bind_of_error hattempt)
  | ok right =>
    obtain ⟨htarget, hequals⟩ := endsExpression_iff.mp ht
    obtain ⟨-, hlogic, harrow⟩ := endsTarget_iff.mp htarget
    have hne := endsTarget_ne htarget
    have hweight : weight (t :: rest) < weight (d.token :: between) := by
      rw [weight_cons d.ne_newline]
      omega
    have hchain : repeatFrom (chainStep Nested.logicOperator? g.expression) (c.join e)
        (d.token :: between) = .ok (.binary d.operator (c.join e) right d.token.line, t :: rest) :=
      Finishes.repeatFrom <| .next (chainStep_of_some d.ne_newline d.operator_eq hright) hweight
        (.last (chainStep_of_none hne hlogic))
    exact assignment_of_conditional (conditional_of_attempt (hattempt.trans hchain) hne harrow) hne
      hequals

/-! ### Whole chains -/

/-- Behind the last group of a chain stands what makes the rest of an expression of it, up to a token that
ends expressions. -/
structure Closing (behind : List Token) (finish : Expr Unit → Except Stop (Expr Unit)) (t : Token)
    (rest : List Token) : Prop where
  begins : ∃ u after, behind = u :: after ∧ endsSum u.kind = true ∧
    Nested.logicOperator? u.kind = none
  ends : endsExpression t.kind = true
  shorter : weight (t :: rest) ≤ weight behind
  close : ∀ depth front group, weight (front ++ behind) ≤ depth →
    (nested depth).attempt (front ++ behind) = .ok (group, behind) →
      (nested depth).assignment (front ++ behind) = (finish group).map (·, t :: rest)

open Clause (spell lastGroup around)

/-- Only the last group is closed, and the groups before it go around it. -/
theorem Closing.assignment {behind rest : List Token} {finish : Expr Unit → Except Stop (Expr Unit)}
    {t : Token} (h : Closing behind finish t rest) (first : Summand) (clauses : List Clause) (depth : Nat)
    (hdepth : weight (first.tokens ++ spell clauses behind) ≤ depth) :
    (nested depth).assignment (first.tokens ++ spell clauses behind) =
      ((finish (lastGroup first clauses)).map (around first clauses)).map (·, t :: rest) := by
  obtain ⟨u, after, rfl, hu, hlogic⟩ := h.begins
  have hne := (endsSum_iff.mp hu).1
  -- The groups are those of `Clause.tree`: one operand, a pair, or a pair with more behind its operator.
  induction first, clauses using Clause.tree.induct generalizing depth with
  | case1 first =>
    have hfirst := first.isSum.sum hu hdepth
    have hattempt := (attempt_eq_logic hfirst).trans (logic_of_sum hfirst hne hlogic)
    rw [Clause.spell_nil, h.close depth _ _ hdepth hattempt, lastGroup]
    cases finish first.value <;> rfl
  | case2 first c =>
    rw [Clause.spell_cons, Clause.spell_nil] at hdepth ⊢
    have hfirst := first.isSum.sum c.ends hdepth
    have hweight := hdepth
    rw [weight_append, weight_cons c.ne_newline] at hweight
    have hsecond : (nested depth).sum (c.operand.tokens ++ u :: after) =
        .ok (c.operand.value, u :: after) := c.operand.isSum.sum hu (by omega)
    have hattempt := (attempt_eq_logic hfirst).trans (logic_of_last_pair hfirst hsecond hne hlogic)
    rw [← List.cons_append, ← List.append_assoc] at hdepth hattempt ⊢
    rw [h.close depth _ _ hdepth hattempt, lastGroup]
    cases finish (c.join first.value) <;> rfl
  | case3 first c d clauses ih =>
    rw [Clause.spell_cons, Clause.spell_cons] at hdepth ⊢
    have hfirst := first.isSum.sum c.ends hdepth
    rw [weight_append, weight_cons c.ne_newline] at hdepth
    have hsecond : (nested depth).sum
        (c.operand.tokens ++ d.token :: (d.operand.tokens ++ spell clauses (u :: after))) =
        .ok (c.operand.value, d.token :: (d.operand.tokens ++ spell clauses (u :: after))) :=
      c.operand.isSum.sum d.ends (by omega)
    rw [weight_append, weight_cons d.ne_newline] at hdepth
    obtain ⟨inner, rfl⟩ : ∃ inner, depth = inner + 1 := ⟨depth - 1, by omega⟩
    have hshorter : weight (t :: rest) ≤ weight (d.operand.tokens ++ spell clauses (u :: after)) := by
      have hspell := Clause.weight_le_spell clauses (u :: after)
      have hbehind := h.shorter
      rw [weight_append]
      omega
    rw [assignment_of_more hfirst hsecond (ih inner (by omega)) h.ends hshorter, lastGroup]
    cases finish (lastGroup d.operand clauses) <;> rfl

/-! ### Trees and ternaries -/

variable {rest : List Token} {t : Token} {depth : Nat}

theorem closing_of_ends (ht : endsExpression t.kind = true) : Closing (t :: rest) .ok t rest := by
  obtain ⟨htarget, hequals⟩ := endsExpression_iff.mp ht
  obtain ⟨hsum, hlogic, harrow⟩ := endsTarget_iff.mp htarget
  have hne := endsTarget_ne htarget
  refine ⟨⟨t, rest, rfl, hsum, hlogic⟩, ht, Nat.le_refl _, fun depth front group _ hattempt => ?_⟩
  exact assignment_of_conditional (conditional_of_attempt hattempt hne harrow) hne hequals

/-- A chain of sums with logical operators is read as its tree. -/
theorem assignment_eq_tree (first : Summand) (clauses : List Clause) (ht : endsExpression t.kind = true)
    (hdepth : weight (first.tokens ++ spell clauses (t :: rest)) ≤ depth) :
    (nested depth).assignment (first.tokens ++ spell clauses (t :: rest)) =
      .ok (Clause.tree first clauses, t :: rest) := by
  rw [(closing_of_ends ht).assignment first clauses depth hdepth, ← Clause.around_lastGroup]
  rfl

/-- The name by itself. -/
def Summand.variable (x : String) (line : Nat) : Summand :=
  ⟨[.name x line], .place (.variable x line), 0, .endAt ⟨line, 1⟩, rfl, rfl⟩

/-- The words `a && b | c && d`, in which each operator but the second joins a pair. -/
theorem assignment_eq_tree_names :
    endsExpression (Token.endAt ⟨1, 17⟩).kind = true ∧
      (nested 8).assignment
          [.name "a" 1, mark .andAnd 1, .name "b" 1, mark .bar 1, .name "c" 1, mark .andAnd 1,
            .name "d" 1, .endAt ⟨1, 17⟩] =
        .ok (.binary .or
          (.binary .and (.place (.variable "a" 1)) (.place (.variable "b" 1)) 1)
          (.binary .and (.place (.variable "c" 1)) (.place (.variable "d" 1)) 1) 1,
          [.endAt ⟨1, 17⟩]) :=
  let andB : Clause := ⟨mark .andAnd 1, .and, .variable "b" 1, rfl⟩
  let orC : Clause := ⟨mark .bar 1, .or, .variable "c" 1, rfl⟩
  let andD : Clause := ⟨mark .andAnd 1, .and, .variable "d" 1, rfl⟩
  ⟨rfl, assignment_eq_tree (.variable "a" 1) [andB, orC, andD] rfl (by decide)⟩

/-- The branches behind an arrow make a ternary of the group before it, if that can be a test. -/
def chosen (arrow : Token) (x y : Summand) (test : Expr Unit) : Except Stop (Expr Unit) :=
  if isTernaryTest test then .ok (ternary test x.value y.value arrow.line)
  else .error (.error (.invalidTernaryTest arrow.position))

section Arrow

variable {arrow : Token} {x : Summand} {bar : Clause} (harrow : arrow.kind = symbol .arrow)
  (hbar : bar.operator = .or) (ht : endsExpression t.kind = true)

include harrow

theorem arrow_ne : arrow.kind ≠ .newline := by
  intro h
  cases harrow.symm.trans h

theorem conditional_of_arrow {g : Nested} {tokens between after : List Token}
    {test left right : Expr Unit} {line : Nat} (htest : g.attempt tokens = .ok (test, arrow :: between))
    (hbranches : g.expression between = .ok (.binary .or left right line, after)) :
    g.conditional tokens =
      if isTernaryTest test then .ok (ternary test left right arrow.line, after)
      else .error (.error (.invalidTernaryTest arrow.position)) := by
  rw [Nested.conditional, bind_of_ok htest, peek_bind (arrow_ne harrow), if_neg (not_not.mpr harrow)]
  cases isTernaryTest test with
  | false => rfl
  | true =>
    rw [skip_bind]
    exact bind_of_ok hbranches

include hbar ht

theorem closing_of_arrow :
    Closing (arrow :: (x.tokens ++ spell [bar] (t :: rest))) (chosen arrow x bar.operand) t rest := by
  have hne := arrow_ne harrow
  refine ⟨⟨_, _, rfl, harrow ▸ rfl, harrow ▸ rfl⟩, ht, ?_, fun depth front test hdepth htest => ?_⟩
  · have hspell := Clause.weight_le_spell [bar] (t :: rest)
    rw [weight_cons hne, weight_append]
    omega
  · rw [weight_append, weight_cons hne] at hdepth
    obtain ⟨inner, rfl⟩ : ∃ inner, depth = inner + 1 := ⟨depth - 1, by omega⟩
    have hbranches : (nested (inner + 1)).expression (x.tokens ++ spell [bar] (t :: rest)) =
        .ok (.binary bar.operator x.value bar.operand.value bar.token.line, t :: rest) :=
      (closing_of_ends ht).assignment x [bar] inner (by omega)
    rw [hbar] at hbranches
    have hconditional := conditional_of_arrow harrow htest hbranches
    rw [chosen]
    cases hcan : isTernaryTest test with
    | false =>
      rw [hcan] at hconditional
      exact bind_of_error hconditional
    | true =>
      rw [hcan] at hconditional
      obtain ⟨htarget, hequals⟩ := endsExpression_iff.mp ht
      exact assignment_of_conditional hconditional (endsTarget_ne htarget) hequals

/-- Behind a chain, the branches are those of its last group. The tree of the whole chain is the one with that
group as it is, and the group can be a test at least if it is a pair. -/
theorem assignment_eq_ternary (first : Summand) (clauses : List Clause)
    (hdepth : weight (first.tokens ++
      spell clauses (arrow :: (x.tokens ++ spell [bar] (t :: rest)))) ≤ depth) :
    (nested depth).assignment (first.tokens ++
        spell clauses (arrow :: (x.tokens ++ spell [bar] (t :: rest)))) =
      (if isTernaryTest (lastGroup first clauses) then
        .ok (around first clauses
          (ternary (lastGroup first clauses) x.value bar.operand.value arrow.line), t :: rest)
      else .error (.error (.invalidTernaryTest arrow.position))) ∧
    around first clauses (lastGroup first clauses) = Clause.tree first clauses ∧
    (clauses.length % 2 = 1 → isTernaryTest (lastGroup first clauses) = true) := by
  refine ⟨?_, Clause.around_lastGroup first clauses, Clause.isTernaryTest_lastGroup first clauses⟩
  rw [(closing_of_arrow harrow hbar ht).assignment first clauses depth hdepth, chosen]
  cases isTernaryTest (lastGroup first clauses) <;> rfl

end Arrow

/-- The words `a && b && c -> x | y`, in which `c` is a group of its own. -/
theorem assignment_eq_ternary_names :
    (nested 10).assignment
        [.name "a" 1, mark .andAnd 1, .name "b" 1, mark .andAnd 1, .name "c" 1, mark .arrow 1,
          .name "x" 1, mark .bar 1, .name "y" 1, .endAt ⟨1, 22⟩] =
      .ok (.binary .and
        (.binary .and (.place (.variable "a" 1)) (.place (.variable "b" 1)) 1)
        (ternary (.place (.variable "c" 1)) (.place (.variable "x" 1)) (.place (.variable "y" 1)) 1) 1,
        [.endAt ⟨1, 22⟩]) :=
  let andB : Clause := ⟨mark .andAnd 1, .and, .variable "b" 1, rfl⟩
  let andC : Clause := ⟨mark .andAnd 1, .and, .variable "c" 1, rfl⟩
  let orY : Clause := ⟨mark .bar 1, .or, .variable "y" 1, rfl⟩
  have harrow : (mark .arrow 1).kind = symbol .arrow := rfl
  have hbar : orY.operator = .or := rfl
  have hend : endsExpression (Token.endAt ⟨1, 22⟩).kind = true := rfl
  have hdepth : weight ([.name "a" 1] ++ spell [andB, andC]
      (mark .arrow 1 :: ((Summand.variable "x" 1).tokens ++ spell [orY] [.endAt ⟨1, 22⟩]))) ≤ 10 := by
    decide
  (assignment_eq_ternary harrow hbar hend (.variable "a" 1) [andB, andC] hdepth).1

/-- The words `a && b && c` are a chain, but with `-> x | y` behind them only `c` is the test. -/
theorem arrow_behind_three_names :
    let chain (behind : List Token) : List Token :=
      .name "a" 1 :: mark .andAnd 1 :: .name "b" 1 :: mark .andAnd 1 :: .name "c" 1 :: behind
    let branches : List Token := [mark .arrow 1, .name "x" 1, mark .bar 1, .name "y" 1]
    ∃ whole : Expr Unit,
      (nested 10).assignment (chain [.endAt ⟨1, 22⟩]) = .ok (whole, [.endAt ⟨1, 22⟩]) ∧
      (nested 10).assignment (chain (branches ++ [.endAt ⟨1, 22⟩])) ≠
        .ok (ternary whole (.place (.variable "x" 1)) (.place (.variable "y" 1)) 1,
          [.endAt ⟨1, 22⟩]) := by
  refine ⟨_, rfl, ?_⟩
  intro h
  cases h

end ScriptLang.Grammar
