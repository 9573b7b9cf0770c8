import ScriptLang.Proofs.Intake
import ScriptLang.Proofs.Seam

/-! The phrases of the language, read from two lists of tokens that are alike up to a seam. -/

namespace ScriptLang.Grammar

open TokenKind (keyword symbol)
open Lined (mapLine mapLine_reverse mapLine_strings)

variable {S : Seam}

theorem parameter_follows : Follows S parameter parameter :=
  .advance_bind (fun _ => .ite (.pure rfl) (FailsAlike.fail rfl).follows) fun _ hstop =>
    .ite_neg (hstop.ne_of_isInner ⟨nofun, nofun⟩) (.fail rfl)

theorem expectName_follows {expected : String} : Follows S (expectName expected) (expectName expected) :=
  .bind (.expect ⟨nofun, nofun⟩) fun _ => .pure rfl

theorem memberNameStep_follows {names : List String} :
    Follows S (memberNameStep names) (memberNameStep (mapLine S.line names)) := by
  refine .bind (.eat ⟨nofun, nofun⟩) fun _ => .ite ?_ (.advance_bind (fun member => ?_) ?_)
  · exact .pure (congrArg Sum.inr (mapLine_reverse names))
  · refine .ite FailsAlike.unexpected.bind.follows (.bind (.nextIs ⟨nofun, nofun⟩) fun _ => ?_)
    exact .ite (.bind (.expect ⟨nofun, nofun⟩) fun _ => .pure rfl) (.pure rfl)
  · intro member hstop
    exact .ite_pos (hstop.ne_of_isInner ⟨nofun, nofun⟩) FailsAlike.unexpected.bind

theorem enumDecl_follows {t : Token} (ht : IsInner t.kind) :
    FollowsBehind S (fun _ => False) t enumDecl enumDecl := by
  refine .advance_bind ht (.bind expectName_follows fun _ => .bind (.expect ⟨nofun, nofun⟩) fun _ => ?_)
  refine .bind (.repeatFrom_strict (fun _ => memberNameStep_follows) []) fun members => .pure ?_
  rw [mapLine_strings]
  rfl

section Chains

variable {operator? : TokenKind → Option Operator} {operand operand' : Parser (Expr Unit)}
  (hnone : operator? .endOfInput = none ∧ operator? (symbol .semicolon) = none)
  (h : Follows S operand operand')

include hnone h

theorem chainStep_follows {left : Expr Unit} :
    Follows S (chainStep operator? operand left) (chainStep operator? operand' (mapLine S.line left)) := by
  refine .peek_bind (fun token => ?_) fun e s he hs => ?_
  · rw [Token.kind_mapLine]
    cases hkind : operator? token.kind with
    | none => exact .of_follows (.pure rfl)
    | some operator =>
      have hinner : IsInner token.kind := by
        constructor
        · intro heq
          cases hkind.symm.trans (heq ▸ hnone.1)
        · intro heq
          cases hkind.symm.trans (heq ▸ hnone.2)
      exact .skip_bind hinner (.bind h fun _ => .pure rfl)
  · have hnext : operator? s.kind = none := by
      rcases hs with hs | hs
      · exact hs ▸ hnone.1
      · exact hs ▸ hnone.2
    rw [he, hnone.1, hnext]
    exact .of_follows (.pure rfl)

theorem chain_follows : Follows S (chain operator? operand) (chain operator? operand') :=
  .bind h fun left => .repeatFrom_strict (fun _ => chainStep_follows hnone h) left

end Chains

theorem IsStop.not_startsAccess {t : Token} (h : IsStop t) : ¬Nested.startsAccess t.kind = true := by
  have hdot : t.kind ≠ symbol .dot := h.ne_of_isInner ⟨nofun, nofun⟩
  have hbracket : t.kind ≠ symbol .leftBracket := h.ne_of_isInner ⟨nofun, nofun⟩
  simp [Nested.startsAccess, hdot, hbracket]

namespace Nested

variable {g : Nested}

theorem primaryBody_starves : Starves g.primaryBody :=
  .advance_bind fun e he rest => by
    simp only [he]
    exact ⟨_, rfl⟩

theorem sum_starves : Starves g.sum :=
  primaryBody_starves.bind.bind.bind

theorem assignment_starves : Starves g.assignment := by
  refine .bind (.bind (.peek_bind fun e he => ?_))
  rw [if_neg (he ▸ nofun)]
  exact sum_starves.bind

theorem classStep_starves {parts : ClassParts} : Starves (g.classStep parts) := by
  have hname : ∀ expected, Starves (expect .identifier expected) := fun _ => .expect nofun
  exact .eat_bind nofun (.bind (.eat_bind nofun (hname _).bind))

theorem blockStep_starves {body : List (Stmt Unit)} : Starves (g.blockStep body) :=
  .eat_bind nofun <| .peek_bind fun e he => by
    rw [if_pos he]
    exact Starves.fail.bind

end Nested

/-- The phrases inside of the phrase at hand follow one another. -/
structure Nested.Tracks (S : Seam) (g g' : Nested) : Prop where
  expression : Follows S g.expression g'.expression
  block : Follows S g.block g'.block
  branch : ∀ t, t.kind = keyword .ifKw → FollowsBehind S (fun _ => False) t g.branch g'.branch
  primary : Follows S g.primary g'.primary
  expression_starves : Starves g.expression
  primary_starves : Starves g.primary

namespace Nested.Tracks

variable {g g' : Nested} (h : g.Tracks S g')

include h

theorem functionRest {name : String} {line : Nat} :
    Follows S (g.functionRest name line) (g'.functionRest name (S.line line)) := by
  refine .bind (.expect ⟨nofun, nofun⟩) fun _ => .bind (.commaSeparated parameter_follows nofun) ?_
  refine fun parameters => .bind h.block fun body => .pure ?_
  rw [MapLine.function_eq, mapLine_strings]

theorem arguments : Follows S g.arguments g'.arguments :=
  .commaSeparated h.expression nofun

theorem access {t : Token} (ht : startsAccess t.kind) {container : Expr Unit} :
    FollowsBehind S (fun _ => False) t (g.access container) (g'.access (mapLine S.line container)) := by
  have hinner : IsInner t.kind := by
    constructor <;> rintro heq <;> simp [heq, startsAccess] at ht
  refine .advance_bind hinner (.ite (.advance_bind (fun name => ?_) fun name hstop => ?_) ?_)
  · exact .ite (.pure rfl) (FailsAlike.fail rfl).follows
  · exact .ite_neg (hstop.ne_of_isInner ⟨nofun, nofun⟩) (.fail rfl)
  · exact .bind h.expression fun _ => .bind (.expect ⟨nofun, nofun⟩) fun _ => .pure rfl

theorem objectStep {properties : List (String × Expr Unit)} :
    Follows S (g.objectStep properties) (g'.objectStep (mapLine S.line properties)) := by
  refine .bind (.eat ⟨nofun, nofun⟩) fun _ => .ite ?_ (.advance_bind (fun key => ?_) fun key hstop => ?_)
  · exact .pure (congrArg Sum.inr (mapLine_reverse properties))
  · refine .ite FailsAlike.unexpected.bind.follows (.bind (.eat ⟨nofun, nofun⟩) fun _ => .ite ?_ ?_)
    · refine .bind h.expression fun _ => .bind (.nextIs ⟨nofun, nofun⟩) fun _ => .ite ?_ (.pure rfl)
      exact .bind (.expect ⟨nofun, nofun⟩) fun _ => .pure rfl
    · refine .bind (.pure rfl) fun _ => .bind (.nextIs ⟨nofun, nofun⟩) fun _ => .ite ?_ (.pure rfl)
      exact .bind (.expect ⟨nofun, nofun⟩) fun _ => .pure rfl
  · refine .ite_pos ?_ FailsAlike.unexpected.bind
    have hname : key.kind ≠ .identifier := hstop.ne_of_isInner ⟨nofun, nofun⟩
    have hstring : key.kind ≠ .string := hstop.ne_of_isInner ⟨nofun, nofun⟩
    simp [hname, hstring]

theorem object {line : Nat} : Follows S (g.object line) (g'.object (S.line line)) := by
  refine .bind (.repeatFrom_strict (fun _ => h.objectStep) []) fun properties => .pure ?_
  rw [MapLine.object_eq]

theorem patternStep {read : List (Expr Unit) × Option Token} :
    Follows S (g.patternStep read) (g'.patternStep (mapLine S.line read)) := by
  let rest (read : List (Expr Unit) × Option Token) : Parser ((List (Expr Unit) × Option Token) ⊕
      (List (Expr Unit) × Option Token)) := do
    if ← nextIs (symbol .fatArrow) then return .inr (read.1.reverse, read.2)
    let _ ← expect (symbol .comma) "',' or '=>' after match pattern"
    return .inl read
  have hrest : ∀ read, Follows S (rest read) (rest (mapLine S.line read)) := by
    refine fun read => .bind (.nextIs ⟨nofun, nofun⟩) fun _ => .ite (.pure ?_) ?_
    · exact congrArg (fun patterns => Sum.inr (patterns, _)) (mapLine_reverse read.1)
    · exact .bind (.expect ⟨nofun, nofun⟩) fun _ => .pure rfl
  refine .peek_bind (fun token => .ite (fun hkind => ?_) fun _ => ?_) fun e s he hs => ?_
  · exact .skip_bind (hkind ▸ ⟨nofun, nofun⟩) (hrest _)
  · exact .of_follows (.bind h.expression fun pattern => hrest _)
  · rw [if_neg (he ▸ nofun)]
    exact .of_starves h.expression_starves.bind

theorem armStep {arms : List (Arm Unit)} :
    Follows S (g.armStep arms) (g'.armStep (mapLine S.line arms)) := by
  refine .bind (.eat ⟨nofun, nofun⟩) fun _ => .ite ?_ ?_
  · exact .pure (congrArg Sum.inr (mapLine_reverse arms))
  refine .bind (.repeatFrom_strict (fun _ => h.patternStep) ([], none)) fun read => ?_
  refine .bind (.expect ⟨nofun, nofun⟩) fun _ => .bind h.block fun body => ?_
  refine .bind (.eat ⟨nofun, nofun⟩) fun _ => ?_
  obtain ⟨patterns, _ | token⟩ := read
  · exact .pure (congrArg (Sum.inl <| · :: _) (MapLine.arm_eq patterns false body))
  · have hany : (mapLine S.line arms).any Arm.isDefault = arms.any Arm.isDefault := by
      refine List.any_map.trans (congrArg (List.any arms) (funext fun arm => ?_))
      obtain ⟨patterns, isDefault, body⟩ := arm
      rfl
    rw [hany]
    refine .ite (FailsAlike.fail rfl).bind.follows (.pure ?_)
    exact congrArg (Sum.inl <| · :: _) (MapLine.arm_eq patterns true body)

theorem select {line : Nat} : Follows S (g.select line) (g'.select (S.line line)) := by
  refine .bind h.expression fun _ => .bind (.expect ⟨nofun, nofun⟩) fun _ => ?_
  refine .bind (.repeatFrom_strict (fun _ => h.armStep) []) fun arms => .pure ?_
  rw [MapLine.select_eq]

theorem function {line : Nat} : Follows S (g.function line) (g'.function (S.line line)) := by
  refine .nextIs_bind ⟨nofun, nofun⟩ (.bind (.pure rfl) fun _ => ?_) fun t hkind => ?_
  · exact .bind h.functionRest fun _ => .pure rfl
  · refine .advance_bind (hkind ▸ ⟨nofun, nofun⟩) (.bind (.pure rfl) fun _ => ?_)
    exact .bind h.functionRest fun _ => .pure rfl

theorem parenthesised : Follows S g.parenthesised g'.parenthesised :=
  .bind h.expression fun _ => .bind (.expect ⟨nofun, nofun⟩) fun _ => .pure rfl

theorem memberStep {e : Expr Unit} : Follows S (g.memberStep e) (g'.memberStep (mapLine S.line e)) := by
  refine .peek_bind (fun t => .ite (fun ht => ?_) fun _ => ?_) fun e s he hs => ?_
  · exact .bind (h.access ht) fun _ => .pure rfl
  · exact .of_follows (.pure rfl)
  · exact .ite_neg (IsStop.not_startsAccess (.inl he)) hs.not_startsAccess (.of_follows (.pure rfl))

theorem member : Follows S g.member g'.member :=
  .bind h.primary fun e => .repeatFrom_strict (fun _ => h.memberStep) e

theorem construct {line : Nat} : Follows S (g.construct line) (g'.construct (S.line line)) := by
  refine .peek_bind (fun start => .of_follows (.bind h.member fun e => ?_)) fun e s he hs => ?_
  · cases e with
    | place target =>
      refine .bind (.expect ⟨nofun, nofun⟩) fun _ => .bind h.arguments fun arguments => .pure ?_
      rw [MapLine.construct_eq]
    | _ => exact FailsAlike.unexpected.follows
  · exact .of_starves h.primary_starves.bind.bind

theorem primaryBody : Follows S g.primaryBody g'.primaryBody := by
  refine .advance_bind (fun token => ?_) fun token hstop => ?_
  · simp only [Token.kind_mapLine, Token.literal_mapLine]
    split
    · exact .pure rfl
    · split
      · exact .pure rfl
      · exact FailsAlike.unexpected.follows
    · exact .pure rfl
    · exact h.function
    · exact h.parenthesised
    · exact h.select
    · exact h.construct
    · exact h.object
    · refine .bind (.commaSeparated h.expression nofun) fun elements => .pure ?_
      exact MapLine.array_eq elements token.line
    · exact FailsAlike.unexpected.follows
  · rcases hstop with hkind | hkind
    · simp only [Token.kind_mapLine, hkind]
      exact .unexpected
    · simp only [Token.kind_mapLine, hkind]
      exact .unexpected

theorem postfixStep {e : Expr Unit} :
    Follows S (g.postfixStep e) (g'.postfixStep (mapLine S.line e)) := by
  refine .peek_bind (fun t => .ite (fun hkind => ?_) fun _ => .ite (fun ht => ?_) fun _ => ?_) ?_
  · refine .skip_bind (hkind ▸ ⟨nofun, nofun⟩) (.bind h.arguments fun arguments => .pure ?_)
    exact congrArg Sum.inl (MapLine.call_eq e arguments t.line)
  · exact .bind (h.access ht) fun _ => .pure rfl
  · exact .of_follows (.pure rfl)
  · refine fun e s he hs => .ite_neg (he ▸ nofun) (hs.ne_of_isInner ⟨nofun, nofun⟩) ?_
    exact .ite_neg (IsStop.not_startsAccess (.inl he)) hs.not_startsAccess (.of_follows (.pure rfl))

theorem postfixed : Follows S g.postfixed g'.postfixed :=
  .bind h.primaryBody fun e => .repeatFrom_strict (fun _ => h.postfixStep) e

theorem sum : Follows S g.sum g'.sum :=
  chain_follows ⟨rfl, rfl⟩ (chain_follows ⟨rfl, rfl⟩ h.postfixed)

theorem logic : Follows S g.logic g'.logic := by
  refine .bind h.sum fun left => .bind (chainStep_follows ⟨rfl, rfl⟩ h.sum) fun r => ?_
  cases r with
  | inl pair => exact .repeatFrom_strict (fun _ => chainStep_follows ⟨rfl, rfl⟩ h.expression) pair
  | inr => exact .pure rfl

theorem attempt : Follows S g.attempt g'.attempt := by
  refine .peek_bind (fun token => .ite (fun hkind => ?_) fun _ => .of_follows h.logic) fun e s he hs => ?_
  · refine .skip_bind (hkind ▸ ⟨nofun, nofun⟩) <| .bind h.block fun _ => ?_
    refine .bind (.expect ⟨nofun, nofun⟩) fun _ => .bind h.block fun handler => .pure ?_
    exact MapLine.attempt_eq _ handler token.line
  · exact .ite_neg (he ▸ nofun) (hs.ne_of_isInner ⟨nofun, nofun⟩) (.of_follows h.logic)

theorem conditional : Follows S g.conditional g'.conditional := by
  refine .bind h.attempt fun test => .peek_bind (fun arrow => .ite (fun _ => ?_) fun hkind => ?_) ?_
  · exact .of_follows (.pure rfl)
  · have hkind := Decidable.not_not.mp hkind
    refine .skip_bind (hkind ▸ ⟨nofun, nofun⟩) ?_
    have htest : isTernaryTest (mapLine S.line test) = isTernaryTest test := by
      cases test with
      | place p => cases p <;> rfl
      | _ => rfl
    rw [htest]
    refine .ite (FailsAlike.fail rfl).bind.follows (.bind h.expression fun branches => ?_)
    cases branches with
    | binary operator left right line =>
      cases operator with
      | or => exact .pure rfl
      | _ => exact (FailsAlike.fail rfl).follows
    | _ => exact (FailsAlike.fail rfl).follows
  · intro e s he hs
    have hs : s.kind ≠ symbol .arrow := hs.ne_of_isInner ⟨nofun, nofun⟩
    rw [he, if_pos nofun, if_pos hs]
    exact .of_follows (.pure rfl)

theorem assignment : Follows S g.assignment g'.assignment := by
  refine .bind h.conditional fun target => .peek_bind (fun token => .ite (fun _ => ?_) fun hkind => ?_) ?_
  · exact .of_follows (.pure rfl)
  · have hkind := Decidable.not_not.mp hkind
    refine .skip_bind (hkind ▸ ⟨nofun, nofun⟩) ?_
    cases target with
    | place => exact .bind h.expression fun _ => .pure rfl
    | _ => exact (FailsAlike.fail rfl).follows
  · intro e s he hs
    have hs : s.kind ≠ symbol .equals := hs.ne_of_isInner ⟨nofun, nofun⟩
    rw [he, if_pos nofun, if_pos hs]
    exact .of_follows (.pure rfl)

/-! ### Statements -/

theorem variableDecl {t : Token} (ht : IsInner t.kind) :
    FollowsBehind S (fun _ => False) t g.variableDecl g'.variableDecl := by
  refine .advance_bind ht (.bind (.expect ⟨nofun, nofun⟩) fun name => .bind (.eat ⟨nofun, nofun⟩) ?_)
  refine fun given => .ite (.ite ?_ (FailsAlike.fail rfl).follows) (.ite ?_ (.pure rfl))
  · exact .bind h.expression fun _ => .pure rfl
  · exact .bind h.expression fun _ => .pure rfl

theorem test {opening closing : String} : Follows S (g.test opening closing) (g'.test opening closing) :=
  .bind (.expect ⟨nofun, nofun⟩) fun _ => .bind h.expression fun _ =>
    .bind (.expect ⟨nofun, nofun⟩) fun _ => .pure rfl

theorem alternate : Follows S g.alternate g'.alternate := by
  refine .bind (.eat ⟨nofun, nofun⟩) fun _ => .ite (.pure rfl) (.nextIs_bind ⟨nofun, nofun⟩ ?_ ?_)
  · exact .bind h.block fun _ => .pure rfl
  · exact fun t ht => .bind (h.branch t ht) fun _ => .pure rfl

theorem branchBody {t : Token} (ht : t.kind = keyword .ifKw) :
    FollowsBehind S (fun _ => False) t g.branchBody g'.branchBody := by
  refine .advance_bind (ht ▸ ⟨nofun, nofun⟩) (.bind h.test fun _ => .bind h.block fun _ => ?_)
  refine .bind h.alternate fun alternate => .pure ?_
  rw [MapLine.branch_eq]
  rfl

theorem forLoop {t : Token} (ht : IsInner t.kind) :
    FollowsBehind S (fun _ => False) t g.forLoop g'.forLoop := by
  refine .advance_bind ht (.bind (.expect ⟨nofun, nofun⟩) fun _ => .peek_bind (fun token => ?_) ?_)
  · refine .ite (fun _ => .of_follows FailsAlike.unexpected.bind.follows) fun hkind => ?_
    have hinner : IsInner token.kind := by
      constructor <;> rintro heq <;> simp [heq] at hkind
    refine .bind (h.variableDecl hinner) fun _ => ?_
    refine .eat_semicolon_bind ?_ (.of_starves h.expression_starves.bind)
    refine .bind h.expression fun _ => ?_
    refine .eat_semicolon_bind ?_ (.of_starves h.expression_starves.bind)
    refine .bind h.expression fun _ => .bind (.expect ⟨nofun, nofun⟩) fun _ => ?_
    refine .bind h.block fun body => .pure ?_
    rw [MapLine.forLoop_eq]
    rfl
  · intro e s he hs
    rw [if_pos (by simp [he])]
    exact .of_starves Starves.fail.bind

theorem classMember {parts : ClassParts} :
    Follows S (g.classMember parts) (g'.classMember (mapLine S.line parts)) := by
  refine .bind (.eat ⟨nofun, nofun⟩) fun isStatic => .bind (.expect ⟨nofun, nofun⟩) fun name => ?_
  refine .bind (.nextIs ⟨nofun, nofun⟩) fun _ => .ite ?_ (.ite ?_ ?_)
  · exact .bind h.functionRest fun method => .ite (.pure rfl) (.pure rfl)
  · exact .bind (.expect ⟨nofun, nofun⟩) fun _ => .bind h.expression fun value => .pure rfl
  · refine .peek_bind (fun token => .of_follows ?_) fun e s he hs => ?_
    · exact .ite FailsAlike.unexpected.bind.follows (.pure rfl)
    · exact .ite_neg (he ▸ nofun) (hs.ne_of_isInner ⟨nofun, nofun⟩) (.of_follows (.pure rfl))

theorem classStep {parts : ClassParts} :
    FollowsTo S (fun r => r.isLeft = true ∧ True) (g.classStep parts)
      (g'.classStep (mapLine S.line parts)) := by
  refine .bind (.eat ⟨nofun, nofun⟩) fun _ => .ite (.pure rfl) (.bind h.classMember fun parts => ?_)
  exact .eat_semicolon_bind (.pure rfl) (.pure rfl ⟨rfl, trivial⟩)

theorem classDecl {t : Token} (ht : IsInner t.kind) :
    FollowsBehind S (fun _ => False) t g.classDecl g'.classDecl := by
  refine .advance_bind ht (.bind expectName_follows fun name => .bind (.expect ⟨nofun, nofun⟩) fun _ => ?_)
  refine .bind (.repeatFrom True (fun _ => h.classStep) (fun _ _ => classStep_starves) ⟨[], [], [], []⟩) ?_
  refine fun parts => .pure ?_
  rw [ClassParts.finish, MapLine.class_eq, mapLine_reverse, mapLine_reverse, mapLine_reverse]
  rfl

theorem functionDecl {t : Token} (ht : IsInner t.kind) {line : Nat} :
    FollowsBehind S (fun _ => False) t (g.functionDecl line) (g'.functionDecl (S.line line)) :=
  .skip_bind ht (.bind expectName_follows fun _ => .bind h.functionRest fun _ => .pure rfl)

theorem whileLoop {t : Token} (ht : IsInner t.kind) {line : Nat} :
    FollowsBehind S (fun _ => False) t (g.whileLoop line) (g'.whileLoop (S.line line)) := by
  refine .skip_bind ht (.bind h.test fun _ => .bind h.block fun body => .pure ?_)
  rw [MapLine.whileLoop_eq]

theorem returns {t : Token} (ht : IsInner t.kind) {line : Nat} :
    FollowsBehind S (fun _ => False) t (g.returns line) (g'.returns (S.line line)) := by
  refine .skip_bind ht (.nextIs_semicolon_bind (fun _ => ?_) ?_)
  · refine .bind (.nextIs ⟨nofun, nofun⟩) fun _ => .ite (.pure rfl) ?_
    exact .bind h.expression fun _ => .pure rfl
  · exact .nextIs_bind nofun h.expression_starves.bind

theorem bareStatement : Follows S g.bareStatement g'.bareStatement := by
  refine .peek_bind (fun token => ?_) fun e s he hs => ?_
  · simp only [Token.kind_mapLine]
    split
    · next hkind => exact .bind (h.variableDecl (hkind ▸ ⟨nofun, nofun⟩)) fun _ => .pure rfl
    · next hkind => exact .bind (h.variableDecl (hkind ▸ ⟨nofun, nofun⟩)) fun _ => .pure rfl
    · next hkind => exact h.functionDecl (hkind ▸ ⟨nofun, nofun⟩)
    · next hkind => exact h.branchBody hkind
    · next hkind => exact h.forLoop (hkind ▸ ⟨nofun, nofun⟩)
    · next hkind => exact h.whileLoop (hkind ▸ ⟨nofun, nofun⟩)
    · next hkind => exact h.returns (hkind ▸ ⟨nofun, nofun⟩)
    · next hkind => exact .skip_bind (hkind ▸ ⟨nofun, nofun⟩) (.pure rfl)
    · next hkind => exact .skip_bind (hkind ▸ ⟨nofun, nofun⟩) (.pure rfl)
    · next hkind =>
      exact .skip_bind (hkind ▸ ⟨nofun, nofun⟩) (.bind h.expression fun _ => .pure rfl)
    · next hkind => exact h.classDecl (hkind ▸ ⟨nofun, nofun⟩)
    · next hkind => exact enumDecl_follows (hkind ▸ ⟨nofun, nofun⟩)
    · exact .of_follows (.bind h.assignment fun _ => .pure rfl)
  · simp only [he]
    exact .of_starves assignment_starves.bind

theorem statement : FollowsTo S (fun _ => True) g.statement g'.statement :=
  .bind h.bareStatement fun _ => .eat_semicolon_bind (.pure rfl) (.pure rfl trivial)

theorem blockStep {body : List (Stmt Unit)} :
    FollowsTo S (fun r => r.isLeft = true ∧ True) (g.blockStep body)
      (g'.blockStep (mapLine S.line body)) := by
  refine .bind (.eat ⟨nofun, nofun⟩) fun _ => .ite ?_ (.peek_bind (fun token => ?_) fun e s he hs => ?_)
  · exact .pure (congrArg Sum.inr (mapLine_reverse body))
  · refine .of_follows (.ite FailsAlike.unexpected.bind.follows (.loose_bind h.statement ?_ ?_))
    · exact fun _ => .pure rfl
    · exact fun _ _ => .pure rfl ⟨rfl, trivial⟩
  · rw [if_pos he]
    exact .of_starves Starves.fail.bind

theorem blockBody : Follows S g.blockBody g'.blockBody :=
  .bind (.expect ⟨nofun, nofun⟩) fun _ =>
    .repeatFrom True (fun _ => h.blockStep) (fun _ _ => blockStep_starves) []


theorem programStep (body : List (Stmt Unit)) {tokens others : List Token}
    (hbefore : S.Before tokens others)
    (hend : ∀ e ∈ tokens.head?, e.kind = .endOfInput → ∀ s ∈ others.head?, s.kind = .endOfInput) :
    Agrees S (fun r => r.isLeft = true ∧ True) (g.programStep body tokens)
      (g'.programStep (mapLine S.line body) others) := by
  have hdone : FollowsTo S (fun r : List (Stmt Unit) ⊕ List (Stmt Unit) => r.isLeft = true ∧ True)
      (pure (.inr body.reverse)) (pure (.inr (mapLine S.line body).reverse)) :=
    .pure (congrArg Sum.inr (mapLine_reverse body))
  have hmore : FollowsTo S (fun r => r.isLeft = true ∧ True)
      (g.statement >>= fun s => pure (.inl (s :: body) : List (Stmt Unit) ⊕ List (Stmt Unit)))
      (g'.statement >>= fun s => pure (.inl (s :: mapLine S.line body))) :=
    .loose_bind h.statement (fun _ => .pure rfl) fun _ _ => .pure rfl ⟨rfl, trivial⟩
  obtain ⟨t, rest, rest', rfl, rfl, ht⟩ |
    ⟨-, rfl, rfl, e, s, rest, rest', hleft, hright, he, hs⟩ := hbefore.cases
  · rw [Nested.programStep, Nested.programStep, peek_bind ht, peek_bind (t := t.mapLine S.line) ht]
    exact FollowsTo.ite hdone hmore _ _ hbefore
  · have hs : s.kind = .endOfInput := hend e (by simp [hleft]) he s (by simp [hright])
    have hagrees := hdone _ _ hbefore
    have hbreak : e.kind ≠ .newline ∧ s.kind ≠ .newline := by simp [he, hs]
    rw [hleft, hright] at hagrees ⊢
    rw [Nested.programStep, Nested.programStep, peek_bind hbreak.1, peek_bind hbreak.2, if_pos he,
      if_pos hs]
    exact hagrees

end Nested.Tracks

theorem nested_starves (depth : Nat) :
    Starves (nested depth).expression ∧ Starves (nested depth).primary := by
  cases depth with
  | zero => exact ⟨.throw, .throw⟩
  | succ depth => exact ⟨Nested.assignment_starves, Nested.primaryBody_starves⟩

theorem nested_tracks (S : Seam) (depth depth' : Nat) : (nested depth).Tracks S (nested depth') := by
  -- The levels may be more in one run than in the other, so either run may exhaust them first.
  induction depth generalizing depth' with
  | zero => exact ⟨.throw, .throw, fun _ _ => .of_follows .throw, .throw, .throw, .throw⟩
  | succ depth ih =>
    obtain ⟨hexpression, hprimary⟩ := nested_starves (depth + 1)
    cases depth' with
    | zero =>
      exact ⟨.throw_right, .throw_right, fun _ _ => .of_follows .throw_right, .throw_right, hexpression,
        hprimary⟩
    | succ depth' =>
      have h := ih depth'
      exact ⟨h.assignment, h.blockBody, fun _ => h.branchBody, h.primaryBody, hexpression, hprimary⟩

/-! ### Programs -/

/-- The second run has an end mark at the seam. -/
def Seam.Closed (S : Seam) : Prop :=
  ∀ s ∈ S.right.head?, s.kind = .endOfInput

theorem Seam.Before.closed {tokens others : List Token} (hclosed : S.Closed) (h : S.Before tokens others) :
    ∀ e ∈ tokens.head?, e.kind = .endOfInput → ∀ s ∈ others.head?, s.kind = .endOfInput := by
  obtain ⟨t, rest, rest', rfl, rfl, -⟩ | ⟨-, -, rfl, -⟩ := h.cases
  · rintro _ ⟨⟩ he _ ⟨⟩
    exact he
  · exact fun _ _ _ => hclosed

theorem Seam.Closed.not_past {tokens others : List Token} (hclosed : S.Closed) : ¬S.Past tokens others := by
  rintro ⟨-, -, s, hs, hright⟩
  cases (hclosed s (by simp [hright])).symm.trans hs

theorem Nested.Tracks.programStep_closed {g g' : Nested} (h : g.Tracks S g') (hclosed : S.Closed)
    (body : List (Stmt Unit)) :
    Follows S (g.programStep body) (g'.programStep (mapLine S.line body)) := by
  intro tokens others hbefore
  have hagrees := h.programStep body hbefore (hbefore.closed hclosed)
  generalize g.programStep body tokens = r, g'.programStep (mapLine S.line body) others = r' at hagrees
  cases hagrees with
  | exhausted_left => exact .exhausted_left
  | exhausted_right => exact .exhausted_right
  | error h => exact .error h
  | ok h => exact .ok h
  | past _ hpast => exact absurd hpast hclosed.not_past

theorem Nested.Tracks.rounds_closed {g g' : Nested} (h : g.Tracks S g') (hclosed : S.Closed) (n n' : Nat)
    (body : List (Stmt Unit)) :
    Follows S (rounds g.programStep n body) (rounds g'.programStep n' (mapLine S.line body)) :=
  .rounds False (fun body => .weaken (h.programStep_closed hclosed body)) nofun n n' body

theorem Nested.program_eq_rounds (g : Nested) (tokens : List Token) :
    g.program tokens = rounds g.programStep (weight tokens) [] tokens := by
  rw [program, repeatFrom_eq_rounds]

theorem Nested.Tracks.program {g g' : Nested} (h : g.Tracks S g') (hclosed : S.Closed) :
    Follows S g.program g'.program := by
  intro tokens others hbefore
  rw [program_eq_rounds, program_eq_rounds]
  exact h.rounds_closed hclosed _ _ [] tokens others hbefore

/-- A program has as many levels as it needs. -/
theorem exists_program (tokens : List Token) :
    ∃ r : Except ParseError (Source × List Token),
      (nested (weight tokens + 1)).program tokens = r.mapError Stop.error ∧
        parseTokens tokens = r.map Prod.fst := by
  rw [parseTokens, readProgram, ← weight, StateT.run']
  cases hrun : (nested (weight tokens + 1)).program tokens with
  | ok r => exact ⟨.ok r, rfl, rfl⟩
  | error stop =>
    have hread : readProgram tokens = .error stop := by
      rw [readProgram, ← weight, StateT.run', hrun]
      rfl
    obtain ⟨e, rfl, -⟩ := readProgram_error Admits.any hread
    exact ⟨.error e, rfl, rfl⟩

/-- Of two lists of tokens that are alike up to a mark, the second is read as the first one is. -/
theorem parseTokens_of_before {tokens others : List Token} (hclosed : S.Closed)
    (hbefore : S.Before (significant tokens) (significant others)) :
    (∀ source, parseTokens tokens = .ok source → parseTokens others = .ok (mapLine S.line source)) ∧
      (S.exact → ∀ e, parseTokens tokens = .error e →
        parseTokens others = .error (e.mapLine S.line)) := by
  rw [← (parseTokens_significant tokens).1, ← (parseTokens_significant others).1]
  obtain ⟨r, hrun, hr⟩ := exists_program (significant tokens)
  obtain ⟨r', hrun', hr'⟩ := exists_program (significant others)
  have hagrees := (nested_tracks S (weight (significant tokens) + 1)
    (weight (significant others) + 1)).program hclosed _ _ hbefore
  rw [hrun, hrun'] at hagrees
  rw [hr, hr']
  rcases r with e | ⟨source, rest⟩ <;> rcases r' with e' | ⟨source', rest'⟩ <;>
    simp only [Except.mapError] at hagrees
  · refine ⟨nofun, fun hexact _ he => ?_⟩
    cases hagrees with
    | error h =>
      cases h hexact
      cases he
      rfl
  · refine ⟨nofun, fun hexact => ?_⟩
    cases hagrees with
    | error h => cases h hexact
  · cases hagrees
  · refine ⟨fun _ hsource => ?_, nofun⟩
    cases hagrees with
    | ok =>
      cases hsource
      rfl
    | past ha => exact ha.elim

/-- Up to the seam only the numbers of lines differ, and behind it stands the same mark. -/
def Seam.ofMark (f : Nat → Nat) (e : Token) (left right : List Token) (he : e.kind = .endOfInput) : Seam :=
  ⟨f, True, e :: left, e.mapLine f :: right, .mark he⟩

theorem isWord_of_mem_significant {front : List Token} (hfront : ∀ t ∈ front, t.kind ≠ .endOfInput) :
    ∀ t ∈ significant front, IsWord t := by
  intro t ht
  obtain ⟨hmem, hbreak⟩ := List.mem_filter.mp ht
  exact ⟨by simpa using hbreak, hfront t hmem⟩

theorem significant_map (f : Nat → Nat) (tokens : List Token) :
    significant (tokens.map (Token.mapLine f)) = (significant tokens).map (Token.mapLine f) := by
  rw [significant, List.filter_map]
  rfl

theorem parseTokens_mapLine (f : Nat → Nat) {front : List Token} {e : Token} (he : e.kind = .endOfInput)
    (hfront : ∀ t ∈ front, t.kind ≠ .endOfInput) (behind others : List Token) :
    (∀ source, parseTokens (front ++ e :: behind) = .ok source →
      parseTokens (front.map (Token.mapLine f) ++ e.mapLine f :: others) = .ok (mapLine f source)) ∧
    ∀ err, parseTokens (front ++ e :: behind) = .error err →
      parseTokens (front.map (Token.mapLine f) ++ e.mapLine f :: others) = .error (err.mapLine f) := by
  have hclosed : (Seam.ofMark f e (significant behind) (significant others) he).Closed := by
    rintro _ ⟨⟩
    exact he
  refine (parseTokens_of_before hclosed ?_).imp_right fun h => h trivial
  refine ⟨significant front, isWord_of_mem_significant hfront, ?_, ?_⟩
  · rw [significant_append, significant_cons (he ▸ nofun)]
    rfl
  · rw [significant_append, significant_cons (t := e.mapLine f) (he ▸ nofun), significant_map]
    rfl

theorem mapLine_id_of_parseTokens {front behind : List Token} {e : Token} {source : Source}
    (he : e.kind = .endOfInput) (hfront : ∀ t ∈ front, t.kind ≠ .endOfInput)
    (h : parseTokens (front ++ e :: behind) = .ok source) : mapLine id source = source := by
  have hsame := (parseTokens_mapLine id he hfront behind behind).1 source h
  rw [Token.mapLine_id, List.map_id] at hsame
  exact Except.ok.inj (hsame.symm.trans h)

theorem parseTokens_mark_append {front : List Token} {e : Token} (he : e.kind = .endOfInput)
    (hfront : ∀ t ∈ front, t.kind ≠ .endOfInput) (behind others : List Token) :
    parseTokens (front ++ e :: behind) = parseTokens (front ++ e :: others) := by
  have hsame := parseTokens_mapLine id he hfront behind behind
  have hother := parseTokens_mapLine id he hfront behind others
  rw [Token.mapLine_id, List.map_id] at hsame hother
  cases h : parseTokens (front ++ e :: behind) with
  | ok source => exact h.symm.trans ((hsame.1 source h).trans (hother.1 source h).symm)
  | error err => exact h.symm.trans ((hsame.2 err h).trans (hother.2 err h).symm)

theorem Nested.programStep_cases (g : Nested) (tokens : List Token) :
    (∃ stop, ∀ body, g.programStep body tokens = .error stop) ∨
      (∃ e rest, e.kind = .endOfInput ∧
        ∀ body, g.programStep body tokens = .ok (.inr body.reverse, e :: rest)) ∨
      ∃ s rest, ∀ body, g.programStep body tokens = .ok (.inl (s :: body), rest) := by
  have hbreaks : peek tokens = peek (afterBreaks tokens) := by
    have htwice : afterBreaks (afterBreaks tokens) = afterBreaks tokens := List.dropWhile_idempotent ..
    rw [peek, peek, htwice]
  have hrun : ∀ body, g.programStep body tokens = g.programStep body (afterBreaks tokens) := by
    intro body
    show (peek tokens >>= fun r => _) = (peek (afterBreaks tokens) >>= fun r => _)
    rw [hbreaks]
  cases hnext : afterBreaks tokens with
  | nil => exact .inl ⟨_, fun body => by rw [hrun, hnext]; rfl⟩
  | cons t rest =>
    have hstep : ∀ body, g.programStep body tokens =
        (if t.kind = .endOfInput then pure (.inr body.reverse)
          else g.statement >>= fun s => pure (.inl (s :: body)) : Parser _) (t :: rest) := by
      intro body
      rw [hrun, hnext, Nested.programStep, peek_bind (afterBreaks_front hnext)]
    by_cases ht : t.kind = .endOfInput
    · exact .inr (.inl ⟨t, rest, ht, fun body => by rw [hstep, if_pos ht]; rfl⟩)
    · cases hstatement : g.statement (t :: rest) with
      | error stop =>
        refine .inl ⟨stop, fun body => ?_⟩
        rw [hstep, if_neg ht, bind_of_error hstatement]
      | ok r =>
        refine .inr (.inr ⟨r.1, r.2, fun body => ?_⟩)
        rw [hstep, if_neg ht, bind_of_ok hstatement]
        rfl

theorem exists_mark_of_program {g : Nested} {source : Source} {tokens rest : List Token}
    (h : g.program tokens = .ok (source, rest)) : ∃ e ∈ rest, e.kind = .endOfInput := by
  obtain ⟨body, before, hlast⟩ := rounds_last ((g.program_eq_rounds tokens).symm.trans h)
  obtain ⟨_, hstep⟩ | ⟨e, rest, he, hstep⟩ | ⟨_, _, hstep⟩ := g.programStep_cases before
  · cases (hstep body).symm.trans hlast
  · cases (hstep body).symm.trans hlast
    exact ⟨e, List.mem_cons_self, he⟩
  · cases (hstep body).symm.trans hlast

theorem exists_mark_of_parseTokens {tokens : List Token} {source : Source}
    (h : parseTokens tokens = .ok source) : ∃ e ∈ tokens, e.kind = .endOfInput := by
  obtain ⟨_ | ⟨_, rest⟩, hrun, hr⟩ := exists_program tokens
  · cases hr.symm.trans h
  · obtain ⟨e, he, hkind⟩ := exists_mark_of_program hrun
    have hmeets := (nested_serves _ (weight tokens + 1)).program tokens nofun .any (by omega)
    rw [hrun] at hmeets
    obtain ⟨-, taken, rfl, -⟩ := hmeets
    exact ⟨e, List.mem_append_right taken he, hkind⟩

theorem exists_front_of_parseTokens {tokens : List Token} {source : Source}
    (h : parseTokens tokens = .ok source) :
    ∃ front e behind, tokens = front ++ e :: behind ∧ e.kind = .endOfInput ∧
      ∀ t ∈ front, t.kind ≠ .endOfInput := by
  obtain ⟨e, hmem, he⟩ := exists_mark_of_parseTokens h
  have hfound : (tokens.find? (·.kind = .endOfInput)).isSome := by
    rw [List.find?_isSome]
    exact ⟨e, hmem, decide_eq_true he⟩
  obtain ⟨mark, hfirst⟩ := Option.isSome_iff_exists.mp hfound
  obtain ⟨hmark, front, behind, hsplit, hfront⟩ := List.find?_eq_some_iff_append.mp hfirst
  exact ⟨front, mark, behind, hsplit, by simpa using hmark, by simpa using hfront⟩

end ScriptLang.Grammar

namespace ScriptLang

open Grammar

/-- Nothing behind the first end mark is read, and without an end mark nothing is a program. -/
theorem parseTokens_stops_at_mark :
    (∀ (front : List Token) (e : Token) (behind others : List Token),
      (∀ t ∈ front, t.kind ≠ .endOfInput) → e.kind = .endOfInput →
        parseTokens (front ++ [e] ++ behind) = parseTokens (front ++ [e] ++ others)) ∧
      ∀ tokens : List Token, (∀ t ∈ tokens, t.kind ≠ .endOfInput) →
        ∃ e, parseTokens tokens = .error e := by
  constructor
  · intro front e behind others hfront he
    rw [List.append_assoc, List.append_assoc]
    exact parseTokens_mark_append he hfront behind others
  intro tokens hnone
  cases h : parseTokens tokens with
  | error e => exact ⟨e, rfl⟩
  | ok source =>
    obtain ⟨e, he, hkind⟩ := exists_mark_of_parseTokens h
    exact absurd hkind (hnone e he)

/-- Behind the mark, a parenthesis that is never closed does no harm. -/
theorem parseTokens_stops_at_mark_name :
    let a : Token := ⟨.identifier, "a", "a", ⟨1, 1⟩⟩
    let parenthesis : Token := ⟨.symbol .leftParen, "(", "(", ⟨1, 2⟩⟩
    let e : Token := .endAt ⟨1, 2⟩
    parseTokens ([a] ++ [e] ++ []) = parseTokens ([a] ++ [e] ++ [parenthesis, a]) ∧
      ∃ err, parseTokens [a] = .error err := by
  intro a parenthesis e
  have hname : ∀ t ∈ [a], t.kind ≠ .endOfInput := by decide
  exact ⟨parseTokens_stops_at_mark.1 [a] e [] [parenthesis, a] hname rfl,
    parseTokens_stops_at_mark.2 [a] hname⟩

end ScriptLang
