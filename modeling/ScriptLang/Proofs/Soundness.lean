import ScriptLang.Proofs.Reading
import ScriptLang.Proofs.WellFormed

/-! Whatever is read is well-formed. What a parser yields is derived along its definition. -/

namespace ScriptLang.Grammar

open TokenKind (keyword symbol)

variable {α β γ : Type}

/-- Every result of the parser is good. -/
def Yields (p : Parser α) (good : α → Prop) : Prop :=
  ∀ tokens a rest, p tokens = .ok (a, rest) → good a

namespace Yields

variable {p q : Parser α} {good : α → Prop}

theorem pure {a : α} (h : good a) : Yields (pure a) good := by
  intro tokens b rest hb
  cases hb
  exact h

theorem fail {e : ParseError} : Yields (fail e) good :=
  nofun

theorem throw {stop : Stop} : Yields (throw stop) good :=
  nofun

theorem bind {f : α → Parser β} {result : β → Prop} (hp : Yields p good)
    (hf : ∀ a, good a → Yields (f a) result) : Yields (p >>= f) result := by
  intro tokens b rest h
  obtain ⟨a, between, hread, h⟩ := bind_eq_ok h
  exact hf a (hp tokens a between hread) between b rest h

theorem any_bind {f : α → Parser β} {result : β → Prop} (hf : ∀ a, Yields (f a) result) :
    Yields (p >>= f) result :=
  have hp : Yields p fun _ => True := fun _ _ _ _ => trivial
  hp.bind fun a _ => hf a

theorem ite {c : Prop} [Decidable c] (hp : c → Yields p good) (hq : ¬c → Yields q good) :
    Yields (if c then p else q) good := by
  split
  · next hc => exact hp hc
  · next hc => exact hq hc

theorem mono {weaker : α → Prop} (h : Yields p good) (hgood : ∀ a, good a → weaker a) :
    Yields p weaker :=
  fun tokens a rest hread => hgood a (h tokens a rest hread)

section Repetitions

variable {step : β → Parser (β ⊕ γ)} {invariant : β → Prop} {result : γ → Prop} {b : β}
  (hstep : ∀ b, invariant b → Yields (step b) (Sum.elim invariant result))

include hstep

/-- A repetition keeps an invariant until it gives its result. -/
theorem rounds (hb : invariant b) (n : Nat) : Yields (rounds step n b) result := by
  induction n generalizing b with
  | zero =>
    refine bind (hstep b hb) fun r hr => ?_
    cases r with
    | inl => exact throw
    | inr => exact pure hr
  | succ n ih =>
    refine bind (hstep b hb) fun r hr => ?_
    cases r with
    | inl => exact ih hr
    | inr => exact pure hr

end Repetitions

theorem repeatFrom {step : β → Parser (β ⊕ γ)} {result : γ → Prop} {b : β}
    (invariant : β → Prop) (hb : invariant b) (hstep : ∀ b, invariant b → Yields (step b) (Sum.elim invariant result)) :
    Yields (repeatFrom step b) result := by
  intro tokens c rest h
  rw [repeatFrom_eq_rounds] at h
  exact rounds hstep hb _ tokens c rest h

theorem commaSeparated {closing : Symbol} (h : Yields p good) :
    Yields (commaSeparated p closing) fun as => ∀ a ∈ as, good a := by
  refine repeatFrom (fun as => ∀ a ∈ as, good a) nofun fun as has => ?_
  have hreverse : ∀ a ∈ as.reverse, good a := fun a ha => has a (List.mem_reverse.mp ha)
  refine any_bind fun closed => ite (fun _ => pure hreverse) fun _ => bind h fun a ha => ?_
  have hcons : ∀ a' ∈ a :: as, good a' := List.forall_mem_cons.mpr ⟨ha, has⟩
  have hresult : ∀ a' ∈ (a :: as).reverse, good a' := fun a' h' => hcons a' (List.mem_reverse.mp h')
  exact any_bind fun t => ite (fun _ => pure hresult) fun _ => ite (fun _ => pure hcons) fun _ => fail

end Yields

/-- The phrases inside of the phrase at hand are well-formed. -/
structure Nested.Sound (g : Nested) : Prop where
  expression : Yields g.expression Expr.WellFormed
  block : Yields g.block WellFormed.Stmts
  branch : Yields g.branch Stmt.WellFormed
  primary : Yields g.primary Expr.WellFormed

namespace Nested.Sound

variable {g : Nested} (h : g.Sound)

include h

/-! ### Primary expressions -/

theorem functionRest {name : String} {line : Nat} :
    Yields (g.functionRest name line) FunctionDecl.WellFormed :=
  .any_bind fun _ => .any_bind fun _ => h.block.bind fun _ hbody => .pure hbody

theorem arguments : Yields g.arguments WellFormed.Exprs :=
  h.expression.commaSeparated.mono fun _ => WellFormed.exprs_iff.mpr

theorem access {container : Expr Unit} (hcontainer : container.WellFormed) :
    Yields (g.access container) Expr.WellFormed := by
  refine .any_bind fun operator => .ite (fun _ => ?_) fun _ => ?_
  · exact .any_bind fun name => .ite (fun _ => .pure hcontainer) fun _ => .fail
  · exact h.expression.bind fun key hkey => .any_bind fun _ => .pure ⟨hcontainer, hkey⟩

omit h in
theorem objectStep_end {properties : List (String × Expr Unit)}
    (hproperties : ∀ p ∈ properties, p.2.WellFormed) :
    Yields (do
        if !(← nextIs (symbol .rightBrace)) then
          let _ ← expect (symbol .comma) "',' or '\x7d' after property"
        return .inl properties)
      (Sum.elim (fun ps => ∀ p ∈ ps, p.2.WellFormed)
        fun ps : List (String × Expr Unit) => WellFormed.Fields ps) :=
  .any_bind fun _ =>
    .ite (fun _ => .any_bind fun _ => .pure hproperties) fun _ => .pure hproperties

theorem objectStep {properties : List (String × Expr Unit)}
    (hproperties : ∀ p ∈ properties, p.2.WellFormed) :
    Yields (g.objectStep properties)
      (Sum.elim (fun ps => ∀ p ∈ ps, p.2.WellFormed) WellFormed.Fields) := by
  refine .any_bind fun closed => .ite (fun _ => .pure ?_) fun _ => .any_bind fun key => ?_
  · exact WellFormed.fields_iff.mpr (by simpa using hproperties)
  refine .ite (fun _ => .fail) fun _ => .any_bind fun colon => ?_
  have hend : ∀ value : Expr Unit, value.WellFormed →
      ∀ p ∈ (key.literal, value) :: properties, p.2.WellFormed :=
    fun value hvalue => List.forall_mem_cons.mpr ⟨hvalue, hproperties⟩
  have hshort : Expr.WellFormed (.place (.variable key.literal key.line) : Expr Unit) := trivial
  refine .ite (fun _ => ?_) fun _ => ?_
  · exact h.expression.bind fun value hvalue => objectStep_end (hend value hvalue)
  · exact .bind (.pure hshort) fun value hvalue => objectStep_end (hend value hvalue)

theorem object {line : Nat} : Yields (g.object line) Expr.WellFormed :=
  .bind (.repeatFrom _ nofun fun _ => h.objectStep) fun _ hproperties => .pure hproperties

/-- The patterns are well-formed, and there is one of them or a `default`. -/
def SoundPatterns (read : List (Expr Unit) × Option Token) : Prop :=
  (read.1 ≠ [] ∨ read.2.isSome) ∧ ∀ e ∈ read.1, e.WellFormed

omit h in
theorem patternStep_end {read : List (Expr Unit) × Option Token} (hread : SoundPatterns read) :
    Yields (do
        if ← nextIs (symbol .fatArrow) then return .inr (read.1.reverse, read.2)
        let _ ← expect (symbol .comma) "',' or '=>' after match pattern"
        return .inl read)
      (Sum.elim (fun r : List (Expr Unit) × Option Token => ∀ e ∈ r.1, e.WellFormed)
        SoundPatterns) := by
  refine .any_bind fun _ => .ite (fun _ => .pure ?_) fun _ => .any_bind fun _ => .pure hread.2
  exact ⟨hread.1.imp_left (by simp), by simpa using hread.2⟩

theorem patternStep {read : List (Expr Unit) × Option Token} (hread : ∀ e ∈ read.1, e.WellFormed) :
    Yields (g.patternStep read)
      (Sum.elim (fun r => ∀ e ∈ r.1, e.WellFormed) SoundPatterns) := by
  refine .any_bind fun token => .ite (fun _ => ?_) fun _ => ?_
  · exact .any_bind fun _ => .bind (.pure ⟨.inr rfl, hread⟩) fun _ => patternStep_end
  · refine h.expression.bind fun e he => .bind (.pure ⟨.inl ?_, ?_⟩) fun _ => patternStep_end
    · exact List.cons_ne_nil _ _
    · exact List.forall_mem_cons.mpr ⟨he, hread⟩

/-- The arms are well-formed, and at most one of them is the default. -/
def SoundArms (arms : List (Arm Unit)) : Prop :=
  WellFormed.Arms arms ∧ arms.Pairwise Arm.OneDefault

omit h in
theorem soundArms_reverse {arms : List (Arm Unit)} (harms : SoundArms arms) :
    SoundArms arms.reverse := by
  refine ⟨WellFormed.arms_iff.mpr ?_, List.pairwise_reverse.mpr (harms.2.imp Or.symm)⟩
  exact fun arm harm => WellFormed.arms_iff.mp harms.1 arm (List.mem_reverse.mp harm)

theorem armStep {arms : List (Arm Unit)} (harms : SoundArms arms) :
    Yields (g.armStep arms) (Sum.elim SoundArms SoundArms) := by
  refine .any_bind fun closed => .ite (fun _ => .pure (soundArms_reverse harms)) fun _ => ?_
  refine .bind (.repeatFrom _ nofun fun _ => h.patternStep) fun read hread => .any_bind fun _ => ?_
  refine h.block.bind fun body hbody => .any_bind fun _ => ?_
  obtain ⟨patterns, default⟩ := read
  have hpatterns : WellFormed.Exprs patterns := WellFormed.exprs_iff.mpr hread.2
  cases default with
  | none =>
    have hfirst : patterns ≠ [] := hread.1.resolve_right (by simp)
    refine .pure ⟨⟨.inl hfirst, hpatterns, hbody, harms.1⟩, List.pairwise_cons.mpr ⟨?_, harms.2⟩⟩
    exact fun _ _ => .inl rfl
  | some token =>
    refine .ite (fun _ => .bind .fail fun _ (hfalse : False) => hfalse.elim) fun hany => .pure ?_
    refine ⟨⟨.inr rfl, hpatterns, hbody, harms.1⟩, List.pairwise_cons.mpr ⟨?_, harms.2⟩⟩
    intro arm harm
    have hother : ¬arm.isDefault = true := fun hdefault =>
      hany (List.any_eq_true.mpr ⟨arm, harm, hdefault⟩)
    exact .inr (Bool.eq_false_iff.mpr hother)

theorem select {line : Nat} : Yields (g.select line) Expr.WellFormed := by
  refine h.expression.bind fun scrutinee hscrutinee => .any_bind fun _ => ?_
  have harms : Yields (repeatFrom g.armStep []) SoundArms :=
    .repeatFrom SoundArms ⟨trivial, .nil⟩ fun _ => h.armStep
  exact harms.bind fun arms harms => .pure ⟨hscrutinee, harms.1, harms.2⟩

theorem function {line : Nat} : Yields (g.function line) Expr.WellFormed := by
  refine .any_bind fun named => .ite (fun _ => .any_bind fun _ => .any_bind fun _ => ?_)
    fun _ => .any_bind fun _ => ?_
  all_goals exact h.functionRest.bind fun f hf => .pure hf

theorem parenthesised : Yields g.parenthesised Expr.WellFormed :=
  h.expression.bind fun _ he => .any_bind fun _ => .pure he

theorem memberStep {e : Expr Unit} (he : e.WellFormed) :
    Yields (g.memberStep e) (Sum.elim Expr.WellFormed Expr.WellFormed) :=
  .any_bind fun _ => .ite (fun _ => (h.access he).bind fun _ haccess => .pure haccess) fun _ => .pure he

theorem member : Yields g.member Expr.WellFormed :=
  h.primary.bind fun _ he => .repeatFrom _ he fun _ => h.memberStep

theorem construct {line : Nat} : Yields (g.construct line) Expr.WellFormed := by
  refine .any_bind fun start => h.member.bind fun e he => ?_
  split
  · exact .any_bind fun _ => h.arguments.bind fun _ harguments => .pure ⟨he, harguments⟩
  · exact .fail

theorem primaryBody : Yields g.primaryBody Expr.WellFormed := by
  refine .any_bind fun token => ?_
  split
  · exact .pure trivial
  · split
    · exact .pure trivial
    · exact .fail
  · exact .pure trivial
  · exact h.function
  · exact h.parenthesised
  · exact h.select
  · exact h.construct
  · exact h.object
  · exact h.expression.commaSeparated.bind fun _ he => .pure (WellFormed.exprs_iff.mpr he)
  · exact .fail

/-! ### From postfixes to assignments -/

theorem postfixStep {e : Expr Unit} (he : e.WellFormed) :
    Yields (g.postfixStep e) (Sum.elim Expr.WellFormed Expr.WellFormed) := by
  refine .any_bind fun token => .ite (fun _ => .any_bind fun _ => ?_) fun _ => .ite (fun _ => ?_) fun _ => ?_
  · exact h.arguments.bind fun _ harguments => .pure ⟨he, harguments⟩
  · exact (h.access he).bind fun _ haccess => .pure haccess
  · exact .pure he

theorem postfixed : Yields g.postfixed Expr.WellFormed :=
  h.primaryBody.bind fun _ he => .repeatFrom _ he fun _ => h.postfixStep

section Chains

variable {operator? : TokenKind → Option Operator} {operand : Parser (Expr Unit)}

omit h in
theorem chainStep (hoperand : Yields operand Expr.WellFormed) {left : Expr Unit}
    (hleft : left.WellFormed) :
    Yields (chainStep operator? operand left) (Sum.elim Expr.WellFormed Expr.WellFormed) := by
  refine .any_bind fun token => ?_
  split
  · exact .any_bind fun _ => hoperand.bind fun _ hright => .pure ⟨hleft, hright⟩
  · exact .pure hleft

omit h in
theorem chain (hoperand : Yields operand Expr.WellFormed) :
    Yields (chain operator? operand) Expr.WellFormed :=
  hoperand.bind fun _ hleft => .repeatFrom _ hleft fun _ => chainStep hoperand

end Chains

theorem sum : Yields g.sum Expr.WellFormed :=
  chain (chain h.postfixed)

theorem logic : Yields g.logic Expr.WellFormed := by
  refine h.sum.bind fun left hleft => .bind (chainStep h.sum hleft) fun r hr => ?_
  cases r with
  | inl pair => exact .repeatFrom _ hr fun _ => chainStep h.expression
  | inr single => exact .pure hr

theorem attempt : Yields g.attempt Expr.WellFormed := by
  refine .any_bind fun token => .ite (fun _ => .any_bind fun _ => ?_) fun _ => h.logic
  exact h.block.bind fun _ hbody => .any_bind fun _ => h.block.bind fun _ hhandler =>
    .pure ⟨hbody, hhandler⟩

omit h in
theorem ternary_wellFormed {test left right : Expr Unit} {line : Nat} (htest : test.WellFormed)
    (hleft : left.WellFormed) (hright : right.WellFormed) :
    (ternary test left right line).WellFormed :=
  ⟨⟨⟨htest, ⟨hleft, trivial⟩, ⟨hright, trivial⟩⟩, trivial⟩, trivial⟩

theorem conditional : Yields g.conditional Expr.WellFormed := by
  refine h.attempt.bind fun test htest => .any_bind fun arrow => ?_
  refine .ite (fun _ => .pure htest) fun _ => .any_bind fun _ => .ite (fun _ => ?_) fun _ => ?_
  · exact .bind .fail fun _ (hfalse : False) => hfalse.elim
  · refine h.expression.bind fun branches hbranches => ?_
    split
    · exact .pure (ternary_wellFormed htest hbranches.1 hbranches.2)
    · exact .fail

theorem assignment : Yields g.assignment Expr.WellFormed := by
  refine h.conditional.bind fun target htarget => .any_bind fun token => ?_
  refine .ite (fun _ => .pure htarget) fun _ => .any_bind fun _ => ?_
  split
  · exact h.expression.bind fun _ hvalue => .pure ⟨htarget, hvalue⟩
  · exact .fail

/-! ### Statements -/

theorem variableDecl : Yields g.variableDecl VariableDecl.WellFormed := by
  refine .any_bind fun word => .any_bind fun name => .any_bind fun given => .ite (fun _ => ?_) fun _ => ?_
  · exact .ite (fun _ => h.expression.bind fun _ hvalue => .pure hvalue) fun _ => .fail
  · exact .ite (fun _ => h.expression.bind fun _ hvalue => .pure hvalue) fun _ => .pure trivial

theorem test {opening closing : String} : Yields (g.test opening closing) Expr.WellFormed :=
  .any_bind fun _ => h.expression.bind fun _ he => .any_bind fun _ => .pure he

theorem alternate : Yields g.alternate fun ss => ∀ body ∈ ss, WellFormed.Stmts body := by
  refine .any_bind fun _ => .ite (fun _ => .pure nofun) fun _ => .any_bind fun _ => ?_
  refine .ite (fun _ => ?_) fun _ => ?_
  · exact h.branch.bind fun s hs => .pure (by rintro _ ⟨⟩; exact ⟨hs, trivial⟩)
  · exact h.block.bind fun body hbody => .pure (by rintro _ ⟨⟩; exact hbody)

theorem branchBody : Yields g.branchBody Stmt.WellFormed := by
  refine .any_bind fun word => h.test.bind fun test htest => h.block.bind fun body hbody => ?_
  refine h.alternate.bind fun alternate halternate => .pure ?_
  cases alternate with
  | none => exact ⟨htest, hbody⟩
  | some alternate => exact ⟨htest, hbody, halternate alternate rfl⟩

theorem forLoop : Yields g.forLoop Stmt.WellFormed := by
  refine .any_bind fun word => .any_bind fun _ => .any_bind fun token => .ite (fun _ => ?_) fun _ => ?_
  · exact .bind .fail fun _ (hfalse : False) => hfalse.elim
  · refine h.variableDecl.bind fun start hstart => .any_bind fun _ => ?_
    refine h.expression.bind fun test htest => .any_bind fun _ => ?_
    refine h.expression.bind fun update hupdate => .any_bind fun _ => ?_
    exact h.block.bind fun body hbody => .pure ⟨hstart, htest, hupdate, hbody⟩

/-! ### Classes -/

structure SoundParts (parts : ClassParts) : Prop where
  staticFields : ∀ p ∈ parts.staticFields, p.2.WellFormed
  methods : ∀ f ∈ parts.methods, f.WellFormed
  staticMethods : ∀ f ∈ parts.staticMethods, f.WellFormed

omit h in
theorem SoundParts.finish {parts : ClassParts} (hparts : SoundParts parts) {name : String}
    {line : Nat} : (parts.finish name line).WellFormed := by
  refine ⟨WellFormed.fields_iff.mpr ?_, WellFormed.functions_iff.mpr ?_,
    WellFormed.functions_iff.mpr ?_⟩
  · exact fun p hp => hparts.staticFields p (List.mem_reverse.mp hp)
  · exact fun f hf => hparts.methods f (List.mem_reverse.mp hf)
  · exact fun f hf => hparts.staticMethods f (List.mem_reverse.mp hf)

theorem classMember {parts : ClassParts} (hparts : SoundParts parts) :
    Yields (g.classMember parts) SoundParts := by
  refine .any_bind fun isStatic => .any_bind fun name => .any_bind fun _ => ?_
  refine .ite (fun _ => ?_) fun _ => .ite (fun _ => ?_) fun _ => ?_
  · refine h.functionRest.bind fun method hmethod => .ite (fun _ => .pure ?_) fun _ => .pure ?_
    · exact { hparts with staticMethods := List.forall_mem_cons.mpr ⟨hmethod, hparts.staticMethods⟩ }
    · exact { hparts with methods := List.forall_mem_cons.mpr ⟨hmethod, hparts.methods⟩ }
  · refine .any_bind fun _ => h.expression.bind fun value hvalue => .pure ?_
    exact { hparts with staticFields := List.forall_mem_cons.mpr ⟨hvalue, hparts.staticFields⟩ }
  · refine .any_bind fun token => .ite (fun _ => ?_) fun _ => .pure { hparts with }
    exact .bind .fail fun _ (hfalse : False) => hfalse.elim

theorem classStep {parts : ClassParts} (hparts : SoundParts parts) :
    Yields (g.classStep parts) (Sum.elim SoundParts SoundParts) :=
  .any_bind fun _ => .ite (fun _ => .pure hparts) fun _ =>
    (h.classMember hparts).bind fun _ hparts => .any_bind fun _ => .pure hparts

theorem classDecl : Yields g.classDecl Stmt.WellFormed := by
  refine .any_bind fun word => .any_bind fun name => .any_bind fun _ => ?_
  have hparts : Yields (Grammar.repeatFrom g.classStep ⟨[], [], [], []⟩) SoundParts :=
    .repeatFrom SoundParts ⟨nofun, nofun, nofun⟩ fun _ => h.classStep
  refine hparts.bind fun parts hparts => .pure ?_
  exact (hparts.finish : (parts.finish name word.line).WellFormed)

theorem functionDecl {line : Nat} : Yields (g.functionDecl line) Stmt.WellFormed :=
  .any_bind fun _ => .any_bind fun _ => h.functionRest.bind fun _ hf => .pure hf

theorem whileLoop {line : Nat} : Yields (g.whileLoop line) Stmt.WellFormed :=
  .any_bind fun _ => h.test.bind fun _ htest => h.block.bind fun _ hbody => .pure ⟨htest, hbody⟩

theorem returns {line : Nat} : Yields (g.returns line) Stmt.WellFormed := by
  refine .any_bind fun _ => .any_bind fun _ => .any_bind fun _ => .ite (fun _ => .pure trivial) fun _ => ?_
  exact h.expression.bind fun _ hvalue => .pure hvalue

theorem bareStatement : Yields g.bareStatement Stmt.WellFormed := by
  refine .any_bind fun token => ?_
  split
  · exact h.variableDecl.bind fun _ hd => .pure hd
  · exact h.variableDecl.bind fun _ hd => .pure hd
  · exact h.functionDecl
  · exact h.branchBody
  · exact h.forLoop
  · exact h.whileLoop
  · exact h.returns
  · exact .any_bind fun _ => .pure trivial
  · exact .any_bind fun _ => .pure trivial
  · exact .any_bind fun _ => h.expression.bind fun _ hvalue => .pure hvalue
  · exact h.classDecl
  · exact .any_bind fun _ => .any_bind fun _ => .any_bind fun _ => .any_bind fun _ => .pure trivial
  · exact h.assignment.bind fun _ he => .pure he

theorem statement : Yields g.statement Stmt.WellFormed :=
  h.bareStatement.bind fun _ hs => .any_bind fun _ => .pure hs

omit h in
theorem reverse_wellFormed {body : List (Stmt Unit)} (hbody : ∀ s ∈ body, s.WellFormed) :
    WellFormed.Stmts body.reverse :=
  WellFormed.stmts_iff.mpr fun s hs => hbody s (List.mem_reverse.mp hs)

theorem blockStep {body : List (Stmt Unit)} (hbody : ∀ s ∈ body, s.WellFormed) :
    Yields (g.blockStep body) (Sum.elim (fun ss => ∀ s ∈ ss, s.WellFormed) WellFormed.Stmts) := by
  refine .any_bind fun _ => .ite (fun _ => .pure (reverse_wellFormed hbody)) fun _ => ?_
  refine .any_bind fun token => .ite (fun _ => .bind .fail fun _ (hfalse : False) => hfalse.elim) ?_
  exact fun _ => h.statement.bind fun s hs => .pure (List.forall_mem_cons.mpr ⟨hs, hbody⟩)

theorem blockBody : Yields g.blockBody WellFormed.Stmts :=
  .any_bind fun _ => .repeatFrom _ nofun fun _ => h.blockStep

theorem programStep {body : List (Stmt Unit)} (hbody : ∀ s ∈ body, s.WellFormed) :
    Yields (g.programStep body) (Sum.elim (fun ss => ∀ s ∈ ss, s.WellFormed) WellFormed.Stmts) :=
  .any_bind fun _ => .ite (fun _ => .pure (reverse_wellFormed hbody)) fun _ =>
    h.statement.bind fun _ hs => .pure (List.forall_mem_cons.mpr ⟨hs, hbody⟩)

theorem program : Yields g.program WellFormed.Stmts :=
  .repeatFrom _ nofun fun _ => h.programStep

end Nested.Sound

theorem nested_sound (depth : Nat) : (nested depth).Sound := by
  -- Each phrase reads only phrases of the level below.
  induction depth with
  | zero => exact ⟨.throw, .throw, .throw, .throw⟩
  | succ depth ih => exact ⟨ih.assignment, ih.blockBody, ih.branchBody, ih.primaryBody⟩

theorem readProgram_wellFormed {tokens : List Token} {source : Source}
    (h : readProgram tokens = .ok source) : WellFormed.Stmts source := by
  rw [readProgram, StateT.run'] at h
  cases hread : (nested ((significant tokens).length + 1)).program tokens with
  | error stop =>
    rw [hread] at h
    cases h
  | ok r =>
    rw [hread] at h
    cases h
    exact (nested_sound _).program _ _ _ hread

end ScriptLang.Grammar

namespace ScriptLang

theorem parseTokens_wellFormed {tokens : List Token} {source : Source}
    (h : parseTokens tokens = .ok source) : WellFormed.Stmts source := by
  rw [parseTokens] at h
  split at h
  · next hread =>
    cases h
    exact Grammar.readProgram_wellFormed hread
  all_goals cases h

end ScriptLang
