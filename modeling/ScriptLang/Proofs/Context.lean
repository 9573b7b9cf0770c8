import ScriptLang.Proofs.Cut

/-! The phrases of the language do not depend on what stands behind them, as long as it is no part of them. In
particular a sum is the same in front of any token that ends it, and it is read with any number of levels that
is large enough. -/

namespace ScriptLang.Grammar

open TokenKind (keyword symbol)

variable {C : Cut}

theorem parameter_starves : Starves parameter :=
  Cut.advance_starves fun _ he => .ite_neg (he ▸ nofun) (.fail trivial)

theorem parameter_beside : C.Strict parameter parameter :=
  .advance_bind (fun _ => .ite .pure .fail) parameter_starves

theorem memberNameStep_beside {names : List String} :
    C.Strict (memberNameStep names) (memberNameStep names) := by
  refine .eat_ite_of_starves nofun .pure (Cut.advance_starves fun e he => ?_) fun hstarves => ?_
  · exact .ite_pos (by simp [he]) (.fail_bind trivial)
  · refine .advance_bind (fun member => .ite .fail_bind ?_) hstarves
    exact .unless_nextIs nofun (.bind (.expect nofun) fun _ => .pure) .pure (.expect_bind nofun)

theorem enumDecl_beside {loose : Stmt Unit → Prop} {t : Token} :
    C.FollowsBehind loose t enumDecl enumDecl :=
  .advance_bind <| .bind (.bind (.expect nofun) fun _ => .pure) fun _ => .bind (.expect nofun) fun _ =>
    .bind (.repeatFrom_strict (fun _ => memberNameStep_beside) []) fun _ => .pure

section Chains

variable {operator? : TokenKind → Option Operator} {operand operand' : Parser (Expr Unit)}
  {again loose : Prop} (hmark : operator? .endOfInput = none)

include hmark

/-- With an operator behind the cut, the second run takes it where the first one is done. -/
theorem chainStep_beside (hnext : operator? C.next.kind = none ∨ loose)
    (h : C.Follows (fun _ => again) operand operand') {left : Expr Unit} :
    C.Follows (Sum.elim (fun _ => again) fun _ => loose) (chainStep operator? operand left)
      (chainStep operator? operand' left) := by
  refine .peek_bind (fun token => ?_) ?_
  · cases operator? token.kind with
    | none => exact .of_follows .pure
    | some => exact .skip_bind (.loose_bind h (fun _ => .pure) fun _ ha => .pure ha)
  · rw [C.mark_kind, hmark]
    obtain hnone | hloose := hnext
    · rw [hnone]
      exact .ok ⟨[], rfl, rfl⟩
    · exact .stopped hloose

theorem chainStep_stalls (hloose : loose) (left : Expr Unit) :
    C.Stalls (Sum.elim (fun _ => False) fun _ => loose) (chainStep operator? operand left) :=
  .inr ⟨.inr left, hloose, chainStep_of_none (C.mark_ne nofun) (by rw [C.mark_kind, hmark])⟩

theorem chain_beside (hnext : operator? C.next.kind = none) (h : C.Strict operand operand') :
    C.Strict (chain operator? operand) (chain operator? operand') :=
  .bind h fun left => .repeatFrom (fun _ => False) (fun _ => chainStep_beside hmark (.inl hnext) h)
    (fun _ => False.elim) left

end Chains

theorem Nested.functionRest_starves {g : Nested} {name : String} {line : Nat} :
    Starves (g.functionRest name line) :=
  .bind (.expect nofun)

theorem Nested.blockBody_starves {g : Nested} : Starves g.blockBody :=
  .bind (.expect nofun)

/-- The phrases inside of the phrase at hand are the same up to the cut. -/
structure Nested.Continues (C : Cut) (g g' : Nested) : Prop where
  expression : C.Loose g.expression g'.expression
  block : C.Strict g.block g'.block
  branch : ∀ t, C.FollowsBehind (fun _ => True) t g.branch g'.branch
  primary : C.Strict g.primary g'.primary
  expression_starves : Starves g.expression
  block_starves : Starves g.block
  primary_starves : Starves g.primary

namespace Nested.Continues

variable {g g' : Nested} (h : g.Continues C g')

include h

theorem functionRest {name : String} {line : Nat} :
    C.Strict (g.functionRest name line) (g'.functionRest name line) :=
  .bind (.expect nofun) fun _ =>
    .bind (.commaSeparated (.weaken parameter_beside) parameter_starves) fun _ =>
      .bind h.block fun _ => .pure

theorem arguments : C.Strict g.arguments g'.arguments :=
  .commaSeparated h.expression h.expression_starves

theorem access {t : Token} {container : Expr Unit} :
    C.FollowsBehind (fun _ => False) t (g.access container) (g'.access container) := by
  refine .advance_bind (.ite (.advance_bind (fun _ => .ite .pure .fail) ?_) ?_)
  · exact Cut.advance_starves fun _ he => .ite_neg (he ▸ nofun) (.fail trivial)
  · exact .loose_bind h.expression (fun _ => .bind (.expect nofun) fun _ => .pure)
      fun _ _ => .expect_bind nofun

theorem objectStep {properties : List (String × Expr Unit)} :
    C.Strict (g.objectStep properties) (g'.objectStep properties) := by
  refine .eat_ite_of_starves nofun .pure (Cut.advance_starves fun e he => ?_) fun hstarves => ?_
  · exact .ite_pos (by simp [he]) (.fail_bind trivial)
  refine .advance_bind (fun key => .ite .fail_bind ?_) hstarves
  refine .eat_ite nofun (.loose_bind h.expression (fun _ => ?_) fun _ _ => ?_) (.bind .pure fun _ => ?_) ?_
  · exact .unless_nextIs nofun (.bind (.expect nofun) fun _ => .pure) .pure (.expect_bind nofun)
  · exact .nextIs_bind nofun (.ite_pos rfl (.expect_bind nofun))
  · exact .unless_nextIs nofun (.bind (.expect nofun) fun _ => .pure) .pure (.expect_bind nofun)
  · exact .pure_bind (.nextIs_bind nofun (.ite_pos rfl (.expect_bind nofun)))

theorem object {line : Nat} : C.Strict (g.object line) (g'.object line) :=
  .bind (.repeatFrom_strict (fun _ => h.objectStep) []) fun _ => .pure

theorem patternStep {read : List (Expr Unit) × Option Token} :
    C.Strict (g.patternStep read) (g'.patternStep read) := by
  refine .peek_bind_of_stalls (fun token => .ite (.skip_bind (.bind .pure fun _ => ?_)) ?_) ?_
  · exact .nextIs_ite nofun (fun _ => .of_follows .pure) (.bind (.expect nofun) fun _ => .pure)
      (.expect_bind nofun)
  · refine .of_follows (.loose_bind h.expression (fun _ => .bind .pure fun _ => ?_) fun _ _ => ?_)
    · exact .nextIs_ite nofun (fun _ => .of_follows .pure) (.bind (.expect nofun) fun _ => .pure)
        (.expect_bind nofun)
    · exact .pure_bind (.nextIs_bind nofun (.ite_neg nofun (.expect_bind nofun)))
  · exact .ite_neg (C.mark_ne nofun) (.of_starves h.expression_starves.bind)

theorem patternStep_starves {read : List (Expr Unit) × Option Token} : Starves (g.patternStep read) := by
  refine .peek_bind fun e he => ?_
  rw [if_neg (he ▸ nofun)]
  exact h.expression_starves.bind

theorem armStep_starves {arms : List (Arm Unit)} : Starves (g.armStep arms) :=
  .eat_bind nofun (Cut.rounds_starve h.patternStep_starves).bind

theorem armStep {arms : List (Arm Unit)} :
    C.Follows (Sum.elim (fun _ => True) fun _ => False) (g.armStep arms) (g'.armStep arms) := by
  refine .eat_ite nofun .pure ?_ (.of_starves (Cut.rounds_starve h.patternStep_starves).bind)
  refine .bind (.repeatFrom_strict (fun _ => h.patternStep) _) fun read => ?_
  refine .bind (.expect nofun) fun _ => .bind h.block fun body => .loose_bind (.eat nofun) ?_ ?_
  · obtain ⟨patterns, _ | token⟩ := read
    · exact fun _ => .pure
    · exact fun _ => .ite .fail_bind .pure
  · obtain ⟨patterns, _ | token⟩ := read
    · exact fun _ _ => .pure trivial
    · exact fun _ _ => .ite .fail_bind (.pure trivial)

theorem select {line : Nat} : C.Strict (g.select line) (g'.select line) := by
  refine .loose_bind h.expression (fun _ => .bind (.expect nofun) fun _ => ?_) fun _ _ => ?_
  · exact .bind (.repeatFrom (fun _ => True) (fun _ => h.armStep)
      (fun _ _ => .of_starves h.armStep_starves) []) fun _ => .pure
  · exact .expect_bind nofun

theorem function {line : Nat} : C.Strict (g.function line) (g'.function line) := by
  refine .nextIs_ite nofun (fun t => .advance_bind (.bind .pure fun _ => ?_)) (.bind .pure fun _ => ?_) ?_
  · exact .bind h.functionRest fun _ => .pure
  · exact .bind h.functionRest fun _ => .pure
  · exact .pure_bind (.of_starves functionRest_starves.bind)

theorem parenthesised : C.Strict g.parenthesised g'.parenthesised :=
  .loose_bind h.expression (fun _ => .bind (.expect nofun) fun _ => .pure)
    fun _ _ => .expect_bind nofun

theorem memberStep {e : Expr Unit} :
    C.Follows (Sum.elim (fun _ => False) fun _ => True) (g.memberStep e) (g'.memberStep e) := by
  refine .peek_bind_of_stalls (fun t => .ite ?_ (.of_follows .pure)) ?_
  · exact .bind h.access fun _ => .pure
  · exact .ite_neg (IsStop.not_startsAccess (.inl C.mark_kind)) (.pure trivial)

theorem member : C.Loose g.member g'.member :=
  .bind h.primary fun e =>
    .repeatFrom (fun _ => False) (fun _ => h.memberStep) (fun _ => False.elim) e

theorem construct {line : Nat} : C.Strict (g.construct line) (g'.construct line) := by
  refine .peek_bind_of_stalls (fun start => .of_follows (.loose_bind h.member ?_ ?_)) ?_
  · intro e
    split
    · exact .bind (.expect nofun) fun _ => .bind h.arguments fun _ => .pure
    · exact .fail
  · intro e _
    split
    · exact .expect_bind nofun
    · exact .fail
  · exact .of_starves h.primary_starves.bind.bind

theorem primaryBody : C.Strict g.primaryBody g'.primaryBody := by
  refine .advance_bind (fun token => ?_) primaryBody_starves
  split
  · exact .pure
  · split
    · exact .pure
    · exact .fail
  · exact .pure
  · exact h.function
  · exact h.parenthesised
  · exact h.select
  · exact h.construct
  · exact h.object
  · exact .bind (.commaSeparated h.expression h.expression_starves) fun _ => .pure
  · exact .fail

theorem postfixStep {e : Expr Unit} : C.Strict (g.postfixStep e) (g'.postfixStep e) := by
  obtain ⟨-, hcall, haccess, -⟩ := endsSum_iff.mp C.ends
  have hmark : C.mark.kind ≠ symbol .leftParen := C.mark_ne nofun
  refine .peek_bind (fun t => .ite (.skip_bind (.bind h.arguments fun _ => .pure)) (.ite ?_ ?_)) ?_
  · exact .bind h.access fun _ => .pure
  · exact .of_follows .pure
  · rw [if_neg hmark, if_neg (IsStop.not_startsAccess (.inl C.mark_kind)), if_neg hcall,
      if_neg (by simp [haccess])]
    exact .ok ⟨[], rfl, rfl⟩

theorem postfixed : C.Strict g.postfixed g'.postfixed :=
  .bind h.primaryBody fun e => .repeatFrom_strict (fun _ => h.postfixStep) e

theorem sum : C.Strict g.sum g'.sum :=
  have ⟨_, _, _, hproduct, hsum⟩ := endsSum_iff.mp C.ends
  chain_beside rfl hsum (chain_beside rfl hproduct h.postfixed)

theorem logic : C.Loose g.logic g'.logic := by
  refine .bind h.sum fun left => .loose_bind (chainStep_beside rfl (.inr trivial) h.sum) ?_ ?_
  · rintro (pair | single)
    · exact .repeatFrom (fun _ => True) (fun _ => chainStep_beside rfl (.inr trivial) h.expression)
        (fun _ _ => chainStep_stalls rfl trivial _) pair
    · exact .pure
  · rintro (_ | single) hr
    · exact hr.elim
    · exact .pure trivial

theorem attempt : C.Loose g.attempt g'.attempt := by
  refine .peek_bind_of_stalls (fun token => .ite (.skip_bind ?_) (.of_follows h.logic)) ?_
  · exact .bind h.block fun _ => .bind (.expect nofun) fun _ => .bind h.block fun _ => .pure
  · exact .ite_neg (C.mark_ne nofun) (.of_starves sum_starves.bind)

theorem conditional : C.Loose g.conditional g'.conditional := by
  refine .loose_bind h.attempt (fun test => .peek_bind_of_stalls (fun arrow => ?_) ?_) fun test _ => ?_
  · refine .ite (.of_follows .pure) (.skip_bind (.ite .fail_bind ?_))
    refine .loose_bind h.expression (fun branches => ?_) fun branches _ => ?_
    · split
      · exact .pure
      · exact .fail
    · split
      · exact .pure trivial
      · exact .fail
  · exact .ite_pos (C.mark_ne nofun) (.pure trivial)
  · exact .peek_bind (.ite_pos (C.mark_ne nofun) (.pure trivial))

theorem assignment : C.Loose g.assignment g'.assignment := by
  refine .loose_bind h.conditional (fun target => .peek_bind_of_stalls (fun token => ?_) ?_) ?_
  · refine .ite (.of_follows .pure) (.skip_bind ?_)
    split
    · exact .loose_bind h.expression (fun _ => .pure) fun _ _ => .pure trivial
    · exact .fail
  · exact .ite_pos (C.mark_ne nofun) (.pure trivial)
  · exact fun _ _ => .peek_bind (.ite_pos (C.mark_ne nofun) (.pure trivial))

/-! ### Statements -/

theorem variableDecl {t : Token} :
    C.FollowsBehind (fun _ => True) t g.variableDecl g'.variableDecl := by
  refine .advance_bind (.bind (.expect nofun) fun name => .loose_bind (.eat nofun) ?_ ?_)
  · refine fun given => .ite (.ite ?_ .fail) (.ite ?_ .pure)
    · exact .loose_bind h.expression (fun _ => .pure) fun _ _ => .pure trivial
    · exact .loose_bind h.expression (fun _ => .pure) fun _ _ => .pure trivial
  · rintro _ rfl
    exact .ite (.ite_neg nofun .fail) (.ite_neg nofun (.pure trivial))

theorem test {opening closing : String} : C.Strict (g.test opening closing) (g'.test opening closing) :=
  .bind (.expect nofun) fun _ => .loose_bind h.expression
    (fun _ => .bind (.expect nofun) fun _ => .pure) fun _ _ => .expect_bind nofun

theorem alternate : C.Loose g.alternate g'.alternate := by
  refine .loose_bind (.eat nofun) (fun _ => .ite .pure (.nextIs_ite nofun (fun t => ?_) ?_ ?_)) ?_
  · exact .loose_bind (h.branch t) (fun _ => .pure) fun _ _ => .pure trivial
  · exact .bind h.block fun _ => .pure
  · exact .of_starves h.block_starves.bind
  · rintro _ rfl
    exact .ite_pos rfl (.pure trivial)

theorem branchBody {t : Token} : C.FollowsBehind (fun _ => True) t g.branchBody g'.branchBody := by
  refine .advance_bind (.bind h.test fun _ => .bind h.block fun _ => ?_)
  exact .loose_bind h.alternate (fun _ => .pure) fun _ _ => .pure trivial

theorem classMember {parts : ClassParts} : C.Loose (g.classMember parts) (g'.classMember parts) := by
  refine .loose_bind (.eat nofun) (fun isStatic => .bind (.expect nofun) fun name => ?_) fun _ _ => ?_
  · refine .nextIs_ite nofun (fun _ => .of_follows ?_) (.ite (.bind (.expect nofun) fun _ => ?_) ?_) ?_
    · exact .bind h.functionRest fun _ => .ite .pure .pure
    · exact .loose_bind h.expression (fun _ => .pure) fun _ _ => .pure trivial
    · exact .peek_bind_of_stalls (fun _ => .of_follows (.ite .fail_bind .pure))
        (.ite_neg (C.mark_ne nofun) (.pure trivial))
    · exact .ite (.expect_bind nofun) (.peek_bind (.ite_neg (C.mark_ne nofun) (.pure trivial)))
  · exact .expect_bind nofun

theorem classStep {parts : ClassParts} :
    C.Follows (Sum.elim (fun _ => True) fun _ => False) (g.classStep parts) (g'.classStep parts) := by
  refine .eat_ite_of_starves nofun .pure (.bind (.eat_bind nofun (.bind (.expect nofun)))) fun _ => ?_
  refine .loose_bind h.classMember (fun parts => ?_) fun _ _ => .eat_bind nofun (.pure trivial)
  exact .loose_bind (.eat nofun) (fun _ => .pure) fun _ _ => .pure trivial

section Behind

variable {loose : Stmt Unit → Prop} {t : Token} {line : Nat}

theorem forLoop : C.FollowsBehind loose t g.forLoop g'.forLoop := by
  refine .advance_bind (.bind (.expect nofun) fun _ => .peek_bind_of_stalls (fun token => ?_) ?_)
  · refine .ite (.of_follows .fail_bind) (.loose_bind h.variableDecl (fun _ => ?_) fun _ _ => ?_)
    · refine .loose_bind (.eat nofun) (fun _ => .loose_bind h.expression (fun _ => ?_) ?_) fun _ _ => ?_
      · refine .loose_bind (.eat nofun) (fun _ => .loose_bind h.expression (fun _ => ?_) ?_) fun _ _ => ?_
        · exact .bind (.expect nofun) fun _ => .bind h.block fun _ => .pure
        · exact fun _ _ => .expect_bind nofun
        · exact .of_starves h.expression_starves.bind
      · exact fun _ _ => .eat_bind nofun (.of_starves h.expression_starves.bind)
      · exact .of_starves h.expression_starves.bind
    · exact .eat_bind nofun (.of_starves h.expression_starves.bind)
  · exact .ite_pos (by simp [C.mark_kind]) .fail_bind

theorem classDecl : C.FollowsBehind loose t g.classDecl g'.classDecl :=
  .advance_bind <| .bind (.bind (.expect nofun) fun _ => .pure) fun _ => .bind (.expect nofun) fun _ =>
    .bind (.repeatFrom (fun _ => True) (fun _ => h.classStep)
      (fun _ _ => .of_starves classStep_starves) _) fun _ => .pure

theorem functionDecl : C.FollowsBehind loose t (g.functionDecl line) (g'.functionDecl line) :=
  .skip_bind <| .bind (.bind (.expect nofun) fun _ => .pure) fun _ =>
    .bind h.functionRest fun _ => .pure

theorem whileLoop : C.FollowsBehind loose t (g.whileLoop line) (g'.whileLoop line) :=
  .skip_bind <| .bind h.test fun _ => .bind h.block fun _ => .pure

theorem returns : C.FollowsBehind (fun _ => True) t (g.returns line) (g'.returns line) := by
  refine .skip_bind (.loose_bind (.nextIs nofun) (fun _ => .loose_bind (.nextIs nofun) ?_ ?_) ?_)
  · exact fun _ => .ite .pure (.loose_bind h.expression (fun _ => .pure) fun _ _ => .pure trivial)
  · exact fun _ _ => .ite (.pure trivial) (.of_starves h.expression_starves.bind)
  · rintro _ rfl
    exact .nextIs_bind nofun (.ite_neg nofun (.of_starves h.expression_starves.bind))

end Behind

theorem bareStatement : C.Loose g.bareStatement g'.bareStatement := by
  refine .peek_bind_of_stalls (fun token => ?_) ?_
  · split
    · exact .loose_bind h.variableDecl (fun _ => .pure) fun _ _ => .pure trivial
    · exact .loose_bind h.variableDecl (fun _ => .pure) fun _ _ => .pure trivial
    · exact h.functionDecl
    · exact h.branchBody
    · exact h.forLoop
    · exact h.whileLoop
    · exact h.returns
    · exact .skip_bind .pure
    · exact .skip_bind .pure
    · exact .skip_bind (.loose_bind h.expression (fun _ => .pure) fun _ _ => .pure trivial)
    · exact h.classDecl
    · exact enumDecl_beside
    · exact .of_follows (.loose_bind h.assignment (fun _ => .pure) fun _ _ => .pure trivial)
  · simp only [C.mark_kind]
    exact .of_starves assignment_starves.bind

theorem statement : C.Loose g.statement g'.statement := by
  refine .loose_bind h.bareStatement (fun _ => ?_) fun _ _ => .eat_bind nofun (.pure trivial)
  exact .loose_bind (.eat nofun) (fun _ => .pure) fun _ _ => .pure trivial

theorem blockStep {body : List (Stmt Unit)} :
    C.Follows (Sum.elim (fun _ => True) fun _ => False) (g.blockStep body) (g'.blockStep body) := by
  refine .eat_ite nofun .pure (.peek_bind_of_stalls (fun token => .of_follows (.ite ?_ ?_)) ?_) ?_
  · exact .fail_bind
  · exact .loose_bind h.statement (fun _ => .pure) fun _ _ => .pure trivial
  · exact .ite_pos C.mark_kind .fail_bind
  · exact .peek_bind (.ite_pos C.mark_kind .fail_bind)

theorem blockBody : C.Strict g.blockBody g'.blockBody :=
  .bind (.expect nofun) fun _ => .repeatFrom (fun _ => True) (fun _ => h.blockStep)
    (fun _ _ => .of_starves blockStep_starves) []

end Nested.Continues

theorem nested_block_starves (depth : Nat) : Starves (nested depth).block := by
  cases depth with
  | zero => exact .throw
  | succ => exact Nested.blockBody_starves

theorem nested_continues (C : Cut) (depth depth' : Nat) : (nested depth).Continues C (nested depth') := by
  -- The levels may be more in one run than in the other, as in `nested_tracks`.
  induction depth generalizing depth' with
  | zero => exact ⟨.throw, .throw, fun _ => .of_follows .throw, .throw, .throw, .throw, .throw⟩
  | succ depth ih =>
    obtain ⟨hexpression, hprimary⟩ := nested_starves (depth + 1)
    have hblock := nested_block_starves (depth + 1)
    cases depth' with
    | zero =>
      exact ⟨.throw_right, .throw_right, fun _ => .of_follows .throw_right, .throw_right, hexpression,
        hblock, hprimary⟩
    | succ depth' =>
      have h := ih depth'
      exact ⟨h.assignment, h.blockBody, fun _ => h.branchBody, h.primaryBody, hexpression, hblock,
        hprimary⟩

/-! ### Sums -/

/-- By themselves, in front of an end mark, the tokens are read as the sum. -/
def IsSum (tokens : List Token) (e : Expr Unit) : Prop :=
  ∃ depth mark, mark.kind = .endOfInput ∧ (nested depth).sum (tokens ++ [mark]) = .ok (e, [mark])

theorem not_exhausted_of_takes {α : Type} {p : Parser α} {tokens : List Token} {level : Nat}
    (h : Takes (fun _ => True) none level p) (hlevel : weight tokens < level) :
    p tokens ≠ .error .exhausted := by
  have hmeets := h tokens nofun .any hlevel
  intro hexhausted
  rw [hexhausted] at hmeets
  exact hmeets

theorem IsSum.sum {tokens rest : List Token} {e : Expr Unit} {t : Token} {depth : Nat}
    (h : IsSum tokens e) (ht : endsSum t.kind = true) (hdepth : weight (tokens ++ t :: rest) ≤ depth) :
    (nested depth).sum (tokens ++ t :: rest) = .ok (e, t :: rest) := by
  obtain ⟨depth', mark, hmark, hsum⟩ := h
  let C : Cut := ⟨mark, t, rest, hmark, ht⟩
  have hagrees := (nested_continues C depth' depth).sum _ _ ⟨tokens, rfl, rfl⟩
  have hserves := (nested_serves (fun _ => True) depth).sum
  have hread := not_exhausted_of_takes hserves (Nat.lt_succ_of_le hdepth)
  rw [hsum] at hagrees
  generalize hr : (nested depth).sum (tokens ++ C.next :: C.behind) = r at hagrees
  cases hagrees with
  | exhausted => exact absurd hr hread
  | ok hbeside =>
    obtain ⟨front, hfront, rfl⟩ := hbeside
    obtain rfl : front = [] := List.append_left_eq_self.mp hfront.symm
    rfl
  | stopped ha => exact ha.elim

end ScriptLang.Grammar
