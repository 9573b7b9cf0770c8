import ScriptLang.Proofs.Charge
import ScriptLang.Proofs.Seam

/-! Reading makes nothing of the charge of the tokens: the charge of the tree and of the tokens that are
left is no more than that of the tokens at the start. So no two functions are read from one token. -/

namespace ScriptLang

open Charged (charge)
open TokenKind (keyword symbol)

variable {α β γ : Type} {n : Nat}

namespace Grammar

variable {k : Nat} {p q : Parser α}

section Rules

variable [Charged α] [Charged β] [Charged γ]

/-- Reading makes no more of the charge of the tokens than `k`. -/
def Conserves (n k : Nat) (p : Parser α) : Prop :=
  ∀ tokens a rest, p tokens = .ok (a, rest) → charge n a + charge n rest ≤ k + charge n tokens

/-- The same from where the token is next. -/
def ConservesBehind (n k : Nat) (t : Token) (p : Parser α) : Prop :=
  ∀ tokens a rest, p (t :: tokens) = .ok (a, rest) →
    charge n a + charge n rest ≤ k + charge n (t :: tokens)

namespace Conserves

theorem pure {a : α} (h : charge n a ≤ k) : Conserves n k (Pure.pure a) := by
  rintro tokens _ _ ⟨⟩
  exact Nat.add_le_add_right h _

theorem throw {stop : Stop} : Conserves n k (MonadExcept.throw stop : Parser α) :=
  fun _ _ _ => nofun

theorem fail {e : ParseError} : Conserves n k (Grammar.fail e : Parser α) :=
  throw

theorem mono {j : Nat} (h : Conserves n j p) (hj : j ≤ k) : Conserves n k p :=
  fun tokens a rest hp => Nat.le_trans (h tokens a rest hp) (Nat.add_le_add_right hj _)

/-- Of what there is, the first parser makes use of `j`, and the other of the rest and of what was read. -/
theorem bind_of_le {i j : Nat} {f : α → Parser β} (hk : i + j ≤ k) (hp : Conserves n j p)
    (hf : ∀ a, Conserves n (i + charge n a) (f a)) : Conserves n k (p >>= f) := by
  intro tokens b rest h
  obtain ⟨a, between, ha, hb⟩ := bind_eq_ok h
  have hfirst := hp tokens a between ha
  have hsecond := hf a between b rest hb
  omega

theorem bind {f : α → Parser β} (hp : Conserves n 0 p) (hf : ∀ a, Conserves n (k + charge n a) (f a)) :
    Conserves n k (p >>= f) :=
  bind_of_le (Nat.le_refl k) hp hf

theorem ite {c : Prop} [Decidable c] (hp : Conserves n k p) (hq : Conserves n k q) :
    Conserves n k (if c then p else q) := by
  split
  · exact hp
  · exact hq

/-! ### Single tokens -/

theorem afterBreaks_le (tokens : List Token) : charge n (afterBreaks tokens) ≤ charge n tokens := by
  induction tokens with
  | nil => exact Nat.le_refl _
  | cons t tokens ih =>
    rw [afterBreaks, List.dropWhile_cons]
    split
    · exact Nat.le_trans ih (Nat.le_add_left _ _)
    · exact Nat.le_refl _

theorem peek_bind {f : Token → Parser α} (hf : ∀ t, ConservesBehind n k t (f t)) :
    Conserves n k (peek >>= f) := by
  intro tokens a rest h
  obtain ⟨t, between, ht, ha⟩ := bind_eq_ok h
  have hdropped := afterBreaks_le (n := n) tokens
  unfold peek at ht
  split at ht
  · cases ht
  · next u others hbreaks =>
    cases ht
    rw [hbreaks] at hdropped
    have hbehind := hf t others a rest ha
    omega

theorem nextIs {kind : TokenKind} : Conserves n 0 (nextIs kind) := by
  rintro tokens _ _ ⟨⟩
  rw [charge_bool]
  exact Nat.add_le_add_left (afterBreaks_le tokens) 0

theorem skip : Conserves n 0 skip := by
  rintro tokens _ _ ⟨⟩
  cases tokens with
  | nil => exact Nat.le_refl _
  | cons t tokens => exact Nat.add_le_add_left (Nat.le_add_left _ _) 0

end Conserves

namespace ConservesBehind

variable {t : Token}

theorem of_conserves (h : Conserves n k p) : ConservesBehind n k t p :=
  fun _ _ _ hp => h _ _ _ hp

theorem ite {c : Prop} [Decidable c] (hp : c → ConservesBehind n k t p)
    (hq : ¬c → ConservesBehind n k t q) : ConservesBehind n k t (if c then p else q) := by
  split
  · next hc => exact hp hc
  · next hc => exact hq hc

theorem skip_bind {f : Unit → Parser α} (hf : Conserves n (k + charge n t) (f ())) :
    ConservesBehind n k t (skip >>= f) := by
  intro tokens a rest h
  have hrest := hf tokens a rest h
  rw [charge_cons]
  omega

end ConservesBehind

namespace Conserves

theorem advance : Conserves n 0 advance :=
  peek_bind fun _ => .skip_bind (pure (Nat.le_add_left _ _))

theorem eat {kind : TokenKind} : Conserves n 0 (eat kind) :=
  nextIs.bind fun _ => ite (skip.bind fun _ => pure (Nat.zero_le _)) (pure (Nat.zero_le _))

theorem expect {kind : TokenKind} {expected : String} : Conserves n 0 (expect kind expected) :=
  peek_bind fun _ => .ite (fun _ => .skip_bind (pure (Nat.le_add_left _ _))) fun _ => .of_conserves fail

theorem expect_bind {kind : TokenKind} {expected : String} {f : Token → Parser α}
    (hf : ∀ t, t.kind = kind → Conserves n (k + charge n t) (f t)) :
    Conserves n k (Grammar.expect kind expected >>= f) := by
  intro tokens a rest h
  obtain ⟨t, between, ht, ha⟩ := bind_eq_ok h
  have hfirst := expect (n := n) tokens t between ht
  have hsecond := hf t (kind_of_expect ht) between a rest ha
  omega

theorem expectName {expected : String} : Conserves n 0 (expectName expected) :=
  expect.bind fun _ => pure (Nat.zero_le _)

/-! ### Repetitions -/

variable {step : β → Parser (β ⊕ γ)} (hstep : ∀ b, Conserves n (charge n b) (step b))

include hstep

theorem rounds (rest : Nat) (b : β) : Conserves n (charge n b) (rounds step rest b) := by
  have hround : ∀ (b : β) (next : β → Parser γ), (∀ c, Conserves n (charge n c) (next c)) →
      Conserves n (charge n b) (step b >>= goOn next) := by
    intro b next hnext
    refine bind_of_le (i := 0) (Nat.le_of_eq (Nat.zero_add _)) (hstep b) fun r => ?_
    cases r with
    | inl c => exact (hnext c).mono (Nat.le_add_left _ _)
    | inr result => exact pure (Nat.le_add_left _ _)
  induction rest generalizing b with
  | zero => exact hround b _ fun _ => throw
  | succ rest ih => exact hround b _ ih

theorem repeatFrom (b : β) : Conserves n (charge n b) (repeatFrom step b) := by
  intro tokens result rest h
  rw [repeatFrom_eq_rounds] at h
  exact rounds hstep _ b tokens result rest h

omit hstep

theorem listStep {item : Parser α} {closing : Symbol} (hitem : Conserves n 0 item) (items : List α) :
    Conserves n (charge n items) (listStep item closing items) := by
  refine eat.bind fun _ => ite (pure ?_) (hitem.bind fun next => advance.bind fun token => ?_)
  · simp
  · refine ite (pure ?_) (ite (pure ?_) fail)
    · simp
    · simp
      omega

theorem commaSeparated {item : Parser α} {closing : Symbol} (hitem : Conserves n 0 item) :
    Conserves n 0 (commaSeparated item closing) :=
  repeatFrom (listStep hitem) []

end Conserves

end Rules

/-! ### Phrases -/

instance : Charged Nested.ClassParts where
  charge n parts :=
    charge n parts.staticFields + (charge n parts.methods + charge n parts.staticMethods)

theorem charge_parts {parts : Nested.ClassParts} :
    charge n parts =
      charge n parts.staticFields + (charge n parts.methods + charge n parts.staticMethods) :=
  rfl

theorem parameter_conserves : Conserves n 0 parameter :=
  .bind .advance fun _ => .ite (.pure (Nat.zero_le _)) .fail

theorem memberNameStep_conserves (names : List String) :
    Conserves n (charge n names) (memberNameStep names) := by
  refine .bind .eat fun _ => .ite (.pure (by simp)) (.bind .advance fun member => .ite .fail ?_)
  refine .bind .nextIs fun _ => .ite (.bind .expect fun _ => ?_) ?_
  · exact .pure (by simp +arith)
  · exact .pure (by simp +arith)

theorem enumDecl_conserves : Conserves n 0 enumDecl :=
  .bind .advance fun _ => .bind .expectName fun _ => .bind .expect fun _ =>
    .bind (.repeatFrom memberNameStep_conserves []) fun _ => .pure (by simp)

section Chains

variable {operator? : TokenKind → Option Operator} {operand : Parser (Expr Unit)}
  (h : Conserves n 0 operand)

include h

theorem chainStep_conserves (left : Expr Unit) :
    Conserves n (charge n left) (chainStep operator? operand left) := by
  refine .peek_bind fun token => ?_
  split
  · exact .skip_bind (.bind h fun _ => .pure (by simp +arith))
  · exact .of_conserves (.pure (by simp))

theorem chain_conserves : Conserves n 0 (chain operator? operand) :=
  .bind h fun left => (Conserves.repeatFrom (chainStep_conserves h) left).mono (by omega)

end Chains

/-- What is read inside of a phrase is read so. -/
structure Nested.Conserving (n : Nat) (g : Nested) : Prop where
  expression : Conserves n 0 g.expression
  block : Conserves n 0 g.block
  branch : Conserves n 0 g.branch
  primary : Conserves n 0 g.primary

namespace Nested.Conserving

variable {g : Nested} {line : Nat} (h : g.Conserving n)

include h

/-- A function is read at the expense of the token that it is introduced by. -/
theorem functionRest {name : String} :
    Conserves n (if line = n then 1 else 0) (g.functionRest name line) := by
  refine .bind .expect fun _ => .bind (.commaSeparated parameter_conserves) fun parameters =>
    .bind h.block fun body => .pure ?_
  rw [charge_functionDecl]
  omega

theorem arguments : Conserves n 0 g.arguments :=
  .commaSeparated h.expression

theorem access (container : Expr Unit) : Conserves n (charge n container) (g.access container) :=
  .bind .advance fun _ => .ite (.bind .advance fun _ => .ite (.pure (by simp +arith)) .fail)
    (.bind h.expression fun _ => .bind .expect fun _ => .pure (by simp +arith))

theorem objectStep (properties : List (String × Expr Unit)) :
    Conserves n (charge n properties) (g.objectStep properties) := by
  refine .bind .eat fun _ => .ite (.pure (by simp)) (.bind .advance fun key => .ite .fail ?_)
  refine .bind .eat fun _ => .ite (.bind h.expression fun value => ?_)
    (.bind (.pure (Nat.zero_le _)) fun value => ?_)
  · refine .bind .nextIs fun _ => .ite ?_ (.pure (by simp +arith))
    exact .bind .expect fun _ => .pure (by simp +arith)
  · refine .bind .nextIs fun _ => .ite ?_ (.pure (by simp +arith))
    exact .bind .expect fun _ => .pure (by simp +arith)

theorem object : Conserves n 0 (g.object line) :=
  .bind (.repeatFrom h.objectStep []) fun properties => .pure (by simp)

theorem patternStep (read : List (Expr Unit) × Option Token) :
    Conserves n (charge n read) (g.patternStep read) := by
  let rest (read : List (Expr Unit) × Option Token) : Parser ((List (Expr Unit) × Option Token) ⊕
      (List (Expr Unit) × Option Token)) := do
    if ← nextIs (symbol .fatArrow) then return .inr (read.1.reverse, read.2)
    let _ ← expect (symbol .comma) "',' or '=>' after match pattern"
    return .inl read
  have hrest : ∀ read k, charge n read ≤ k → Conserves n k (rest read) := by
    rintro ⟨patterns, default⟩ k hk
    rw [charge_pair] at hk
    refine .bind .nextIs fun _ => .ite (.pure ?_) (.bind .expect fun _ => .pure ?_)
    · simpa using hk
    · simp
      omega
  obtain ⟨patterns, default⟩ := read
  refine .peek_bind fun token => .ite (fun _ => .skip_bind (hrest _ _ ?_)) fun _ => ?_
  · simp +arith
  · exact .of_conserves (.bind h.expression fun pattern => hrest _ _ (by simp +arith))

theorem armStep (arms : List (Arm Unit)) : Conserves n (charge n arms) (g.armStep arms) := by
  refine .bind .eat fun _ => .ite (.pure (by simp)) ?_
  refine .bind (.repeatFrom h.patternStep ([], none)) fun read => .bind .expect fun _ => ?_
  refine .bind h.block fun body => .bind .eat fun _ => ?_
  obtain ⟨patterns, _ | token⟩ := read
  · exact .pure (by simp +arith)
  · exact .ite .fail (.pure (by simp +arith))

theorem select : Conserves n 0 (g.select line) :=
  .bind h.expression fun _ => .bind .expect fun _ =>
    .bind (.repeatFrom h.armStep []) fun _ => .pure (by simp +arith)

theorem function : Conserves n (if line = n then 1 else 0) (g.function line) := by
  have hrest : ∀ name k, (if line = n then 1 else 0) ≤ k →
      Conserves n k (g.functionRest name line >>= fun f => pure (Expr.function f)) :=
    fun name k hk => .bind_of_le (i := 0) (by omega) h.functionRest fun f => .pure (by simp)
  refine .bind .nextIs fun _ => .ite (.bind .advance fun _ => .bind (.pure (Nat.zero_le _)) fun name => ?_)
    (.bind (.pure (Nat.zero_le _)) fun name => ?_)
  · exact hrest name _ (by omega)
  · exact hrest name _ (by omega)

theorem parenthesised : Conserves n 0 g.parenthesised :=
  .bind h.expression fun _ => .bind .expect fun _ => .pure (by simp +arith)

theorem memberStep (e : Expr Unit) : Conserves n (charge n e) (g.memberStep e) := by
  refine .peek_bind fun token => .of_conserves (.ite ?_ (.pure (by simp)))
  exact .bind_of_le (i := 0) (by omega) (h.access e) fun _ => .pure (by simp)

theorem member : Conserves n 0 g.member :=
  .bind h.primary fun e => (Conserves.repeatFrom h.memberStep e).mono (by omega)

theorem construct : Conserves n 0 (g.construct line) := by
  refine .peek_bind fun start => .of_conserves (.bind h.member fun e => ?_)
  cases e with
  | place target => exact .bind .expect fun _ => .bind h.arguments fun _ => .pure (by simp +arith)
  | _ => exact .fail

theorem primaryBody : Conserves n 0 g.primaryBody := by
  refine .bind .advance fun token => ?_
  dsimp only
  split
  · exact .pure (by simp)
  · split
    · exact .pure (by simp)
    · exact .fail
  · exact .pure (by simp)
  · next hkind =>
    refine h.function.mono ?_
    rw [charge_token (.inl hkind)]
    omega
  · exact h.parenthesised.mono (by omega)
  · exact h.select.mono (by omega)
  · exact h.construct.mono (by omega)
  · exact h.object.mono (by omega)
  · exact .bind (.commaSeparated h.expression) fun _ => .pure (by simp)
  · exact .fail

theorem postfixStep (e : Expr Unit) : Conserves n (charge n e) (g.postfixStep e) := by
  refine .peek_bind fun token => .ite (fun _ => ?_) fun _ => .of_conserves (.ite ?_ (.pure (by simp)))
  · exact .skip_bind (.bind h.arguments fun _ => .pure (by simp +arith))
  · exact .bind_of_le (i := 0) (by omega) (h.access e) fun _ => .pure (by simp)

theorem postfixed : Conserves n 0 g.postfixed :=
  .bind h.primaryBody fun e => (Conserves.repeatFrom h.postfixStep e).mono (by omega)

theorem sum : Conserves n 0 g.sum :=
  chain_conserves (chain_conserves h.postfixed)

theorem logic : Conserves n 0 g.logic := by
  refine .bind h.sum fun left => .bind_of_le (i := 0) (by omega) (chainStep_conserves h.sum left) fun r => ?_
  cases r with
  | inl pair => exact (Conserves.repeatFrom (chainStep_conserves h.expression) pair).mono (by simp)
  | inr => exact .pure (by simp)

theorem attempt : Conserves n 0 g.attempt := by
  refine .peek_bind fun token => .ite (fun _ => .skip_bind ?_) fun _ => .of_conserves h.logic
  exact .bind h.block fun _ => .bind .expect fun _ => .bind h.block fun _ => .pure (by simp +arith)

/-- The function in a ternary is read at the expense of the `->`. -/
theorem conditional : Conserves n 0 g.conditional := by
  refine .bind h.attempt fun test => .peek_bind fun arrow => .ite (fun _ => ?_) fun hkind => ?_
  · exact .of_conserves (.pure (by simp))
  · have harrow : charge n arrow = if arrow.line = n then 1 else 0 :=
      charge_token (.inr (.inr (Decidable.not_not.mp hkind)))
    refine .skip_bind (.ite .fail (.bind h.expression fun branches => ?_))
    cases branches with
    | binary operator left right line =>
      cases operator with
      | or => exact .pure (by simp +arith [ternary, harrow])
      | _ => exact .fail
    | _ => exact .fail

theorem assignment : Conserves n 0 g.assignment := by
  refine .bind h.conditional fun target => .peek_bind fun token => .ite (fun _ => ?_) fun _ => ?_
  · exact .of_conserves (.pure (by simp))
  · refine .skip_bind ?_
    cases target with
    | place => exact .bind h.expression fun _ => .pure (by simp +arith)
    | _ => exact .fail

/-! ### Statements -/

theorem variableDecl : Conserves n 0 g.variableDecl := by
  refine .bind .advance fun word => .bind .expect fun name => .bind .eat fun given => ?_
  refine .ite (.ite (.bind h.expression fun _ => ?_) .fail) (.ite (.bind h.expression fun _ => ?_) ?_)
  · exact .pure (by simp +arith)
  · exact .pure (by simp +arith)
  · exact .pure (by simp)

theorem test {opening closing : String} : Conserves n 0 (g.test opening closing) :=
  .bind .expect fun _ => .bind h.expression fun _ => .bind .expect fun _ => .pure (by simp +arith)

theorem alternate : Conserves n 0 g.alternate := by
  refine .bind .eat fun _ => .ite (.pure (by simp)) (.bind .nextIs fun _ => .ite ?_ ?_)
  · exact .bind h.branch fun _ => .pure (by simp)
  · exact .bind h.block fun _ => .pure (by simp)

theorem branchBody : Conserves n 0 g.branchBody :=
  .bind .advance fun _ => .bind h.test fun _ => .bind h.block fun _ => .bind h.alternate fun _ =>
    .pure (by simp +arith)

theorem forLoop : Conserves n 0 g.forLoop := by
  refine .bind .advance fun word => .bind .expect fun _ => .peek_bind fun token => .of_conserves ?_
  refine .ite .fail (.bind h.variableDecl fun start => .bind .eat fun _ => ?_)
  refine .bind h.expression fun test => .bind .eat fun _ => .bind h.expression fun update => ?_
  exact .bind .expect fun _ => .bind h.block fun body => .pure (by simp +arith)

/-- A method is read at the expense of its name. -/
theorem classMember (parts : ClassParts) : Conserves n (charge n parts) (g.classMember parts) := by
  refine .bind .eat fun isStatic => .expect_bind fun name hkind => ?_
  have hname : charge n name = if name.line = n then 1 else 0 := charge_token (.inr (.inl hkind))
  refine .bind .nextIs fun _ => .ite ?_ (.ite ?_ ?_)
  · refine .bind_of_le (i := charge n parts) ?_ h.functionRest fun method => ?_
    · rw [← hname]
      omega
    · exact .ite (.pure (by simp +arith [charge_parts])) (.pure (by simp +arith [charge_parts]))
  · exact .bind .expect fun _ => .bind h.expression fun value => .pure (by simp +arith [charge_parts])
  · exact .peek_bind fun token => .of_conserves (.ite .fail (.pure (by simp [charge_parts])))

theorem classStep (parts : ClassParts) : Conserves n (charge n parts) (g.classStep parts) := by
  refine .bind .eat fun _ => .ite (.pure (by simp)) ?_
  exact .bind_of_le (i := 0) (by simp) (h.classMember parts) fun _ => .bind .eat fun _ => .pure (by simp)

theorem classDecl : Conserves n 0 g.classDecl := by
  refine .bind .advance fun word => .bind .expectName fun name => .bind .expect fun _ => ?_
  refine .bind (.repeatFrom h.classStep ⟨[], [], [], []⟩) fun parts => .pure ?_
  simp [ClassParts.finish, charge_parts]

theorem functionDecl {token : Token} (hkind : token.kind = keyword .fnKw) :
    ConservesBehind n 0 token (g.functionDecl token.line) := by
  refine .skip_bind (.bind .expectName fun name => ?_)
  refine .bind_of_le (i := 0) ?_ h.functionRest fun f => .pure (by simp)
  rw [charge_token (.inl hkind)]
  omega

theorem whileLoop {token : Token} : ConservesBehind n 0 token (g.whileLoop line) :=
  .skip_bind (.bind h.test fun _ => .bind h.block fun _ => .pure (by simp +arith))

theorem returns {token : Token} : ConservesBehind n 0 token (g.returns line) := by
  refine .skip_bind (.bind .nextIs fun _ => .bind .nextIs fun _ => .ite (.pure (by simp)) ?_)
  exact .bind h.expression fun _ => .pure (by simp)

theorem bareStatement : Conserves n 0 g.bareStatement := by
  refine .peek_bind fun token => ?_
  dsimp only
  split
  · exact .of_conserves (.bind h.variableDecl fun _ => .pure (by simp))
  · exact .of_conserves (.bind h.variableDecl fun _ => .pure (by simp))
  · next hkind => exact h.functionDecl hkind
  · exact .of_conserves h.branchBody
  · exact .of_conserves h.forLoop
  · exact h.whileLoop
  · exact h.returns
  · exact .skip_bind (.pure (by simp))
  · exact .skip_bind (.pure (by simp))
  · exact .skip_bind (.bind h.expression fun _ => .pure (by simp))
  · exact .of_conserves h.classDecl
  · exact .of_conserves enumDecl_conserves
  · exact .of_conserves (.bind h.assignment fun _ => .pure (by simp))

theorem statement : Conserves n 0 g.statement :=
  .bind h.bareStatement fun _ => .bind .eat fun _ => .pure (by simp)

theorem blockStep (body : List (Stmt Unit)) : Conserves n (charge n body) (g.blockStep body) := by
  refine .bind .eat fun _ => .ite (.pure (by simp)) (.peek_bind fun token => .of_conserves ?_)
  exact .ite .fail (.bind h.statement fun _ => .pure (by simp +arith))

theorem blockBody : Conserves n 0 g.blockBody :=
  .bind .expect fun _ => (Conserves.repeatFrom h.blockStep []).mono (by simp)

theorem programStep (body : List (Stmt Unit)) : Conserves n (charge n body) (g.programStep body) := by
  refine .peek_bind fun token => .of_conserves (.ite (.pure (by simp)) ?_)
  exact .bind h.statement fun _ => .pure (by simp +arith)

theorem program : Conserves n 0 g.program :=
  .repeatFrom h.programStep []

end Nested.Conserving

theorem nested_conserving (n depth : Nat) : (nested depth).Conserving n := by
  -- Each phrase reads only phrases of the level below.
  induction depth with
  | zero => exact ⟨.throw, .throw, .throw, .throw⟩
  | succ depth ih => exact ⟨ih.assignment, ih.blockBody, ih.branchBody, ih.primaryBody⟩

/-- There are no more functions on a line than tokens that introduce one. -/
theorem charge_le_of_parseTokens {tokens : List Token} {source : Source}
    (h : parseTokens tokens = .ok source) : charge n source ≤ charge n tokens := by
  have hprogram := (nested_conserving n ((significant tokens).length + 1)).program tokens
  rw [parseTokens, readProgram, StateT.run'] at h
  cases hrun : (nested ((significant tokens).length + 1)).program tokens with
  | error stop =>
    rw [hrun] at h
    cases stop <;> cases h
  | ok r =>
    rw [hrun] at h
    cases h
    have hle := hprogram r.1 r.2 hrun
    show charge n r.1 ≤ charge n tokens
    omega

end Grammar

end ScriptLang
