import ScriptLang.Proofs.Course
import ScriptLang.Proofs.Log
import ScriptLang.Proofs.Logic
import ScriptLang.Proofs.LoopControl

/-! The ternary. It is read as the call of a function that has nothing but a choice between the branches for
its body. So the test has a scope of its own that is a function's, and the branch that it chooses has one
inside of that. -/

namespace ScriptLang

/-- A call passes on how the body has ended, but for a `return`. -/
def Outcome.called : Outcome → Outcome
  | .error (.returned v) => .ok v
  | o => o

/-- A ternary whose function has a number, on the line of its arrow. -/
structure Choice where
  identity : Nat
  test : Expr Nat
  left : Expr Nat
  right : Expr Nat
  line : Nat

namespace Choice

def statement (c : Choice) : Stmt Nat :=
  .branch c.test [.expression c.left c.line] (some [.expression c.right c.line]) c.line

def function (c : Choice) : FunctionDecl Nat :=
  .mk c.identity FunctionDecl.anonymous [] [c.statement] c.line

def expr (c : Choice) : Expr Nat :=
  .call (.function c.function) [] c.line

theorem numbered (test left right : Expr Unit) (line : Nat) :
    Numbering.expr (Grammar.ternary test left right line) = do
      let identity ← Numbering.next
      let test ← Numbering.expr test
      let left ← Numbering.expr left
      let right ← Numbering.expr right
      return (Choice.mk identity test left right line).expr := by
  simp only [Grammar.ternary, Numbering.expr, Numbering.exprs, Numbering.function, Numbering.stmts,
    Numbering.stmt, bind_assoc, pure_bind]
  rfl

/-! ### Runs -/

/-- The tasks that are parts of a ternary in `scope`: its blocks, and what it does in `scope` itself. -/
def Owns (scope : ScopeId) (t : Task) : Prop :=
  t.isBlock = true ∨ t.scope = scope

/-- The branch has a new scope inside of the one that the test has been evaluated in. -/
def taken (scope : ScopeId) (e : Expr Nat) (s : State) (o : Outcome) (s' : State) : Event :=
  .evaluated (s.enter .child scope).1 e (s.enter .child scope).2 o s'

/-- The test first, and only if it gives a value then the one branch that it chooses. -/
inductive Runs (c : Choice) (scope : ScopeId) (s : State) : List Event → Outcome → State → Prop
  | test {signal : Signal} {s' : State} (h : (Event.evaluated scope c.test s (.error signal) s').Holds) :
      Runs c scope s [Event.evaluated scope c.test s (.error signal) s'] (.error signal) s'
  | left {s₁ s' : State} {o : Outcome}
      (htest : (Event.evaluated scope c.test s (.ok (.bool true)) s₁).Holds)
      (h : (taken scope c.left s₁ o s').Holds) :
      Runs c scope s [Event.evaluated scope c.test s (.ok (.bool true)) s₁, taken scope c.left s₁ o s'] o s'
  | right {v : Value} {s₁ s' : State} {o : Outcome} (hv : v ≠ .bool true)
      (htest : (Event.evaluated scope c.test s (.ok v) s₁).Holds) (h : (taken scope c.right s₁ o s').Holds) :
      Runs c scope s [Event.evaluated scope c.test s (.ok v) s₁, taken scope c.right s₁ o s'] o s'

/-! ### Logs -/

variable {c : Choice} {scope inner : ScopeId} {s s' : State} {log : List Event} {o : Outcome}

theorem not_owns_expression {e : Expr Nat} (hinner : inner ≠ scope) :
    ¬ Owns scope (.expression inner e) := by
  rintro (h | h)
  · cases h
  · exact hinner h

theorem logs_block {statement : Stmt Nat} :
    (Eval.body (.block inner [statement])).Logs (Owns scope) s log o s' ↔
      (Eval.execute inner statement).Logs (Owns scope) s log o s' := by
  have hsingle : Eval.body (.block inner [statement]) = Eval.execute inner statement := bind_pure _
  rw [hsingle]

theorem logs_taken {e : Expr Nat} {line : Nat} (hscope : scope.index < s.scopes.size) :
    (Eval.blockIn .child inner [.expression e line]).Logs (Owns scope) s log o s' ↔
      log = [taken inner e s o s'] ∧ (taken inner e s o s').Holds := by
  have hne : (s.enter .child inner).1 ≠ scope := by
    rintro rfl
    exact Nat.lt_irrefl _ hscope
  refine Eval.logs_create_bind.trans ((Eval.logs_perform_own (.inl rfl)).trans (logs_block.trans ?_))
  exact Eval.logs_perform (not_owns_expression hne)

theorem logs_statement (hinner : inner ≠ scope) (hscope : scope.index < s.scopes.size) :
    (Eval.execute inner c.statement).Logs (Owns scope) s log o s' ↔ c.Runs inner s log o s' := by
  -- The scopes that there are do not go away in the test.
  have hkept : ∀ {v s₁}, (Event.evaluated inner c.test s (.ok v) s₁).Holds →
      scope.index < s₁.scopes.size := by
    intro v s₁ htest
    have hends := Eval.perform_ends_iff.mpr htest
    have hgrown : s.Grown s₁ :=
      (State.stable_grown s).ends (e := .expression inner c.test) trivial .refl hends
    exact Nat.lt_of_lt_of_le hscope hgrown.size_le
  change (Eval.perform (.expression inner c.test) >>= _).Logs _ _ _ _ _ ↔ _
  rw [Eval.logs_perform_bind (not_owns_expression hinner)]
  constructor
  · rintro (⟨signal, rfl, htest, rfl⟩ | ⟨v, s₁, rest, rfl, htest, hrest⟩)
    · exact .test htest
    · by_cases hv : v = .bool true
      · obtain rfl := hv
        obtain ⟨rfl, h⟩ := (logs_taken (hkept htest)).mp hrest
        exact .left htest h
      · rw [Value.isTrue_of_ne hv] at hrest
        obtain ⟨rfl, h⟩ := (logs_taken (hkept htest)).mp hrest
        exact .right hv htest h
  · intro h
    cases h with
    | test htest => exact .inl ⟨_, rfl, htest, rfl⟩
    | left htest h => exact .inr ⟨_, _, _, rfl, htest, (logs_taken (hkept htest)).mpr ⟨rfl, h⟩⟩
    | right hv htest h =>
      refine .inr ⟨_, _, _, rfl, htest, ?_⟩
      rw [Value.isTrue_of_ne hv]
      exact (logs_taken (hkept htest)).mpr ⟨rfl, h⟩

/-- Nothing is evaluated for the function itself. -/
theorem logs_expr : (Eval.expression scope c.expr).Logs (Owns scope) s log o s' ↔
    (Eval.callFunction ⟨c.function, scope, none⟩ [] c.line).Logs (Owns scope) s log o s' := by
  have hown : Owns scope (.expression scope (.function c.function)) := .inr rfl
  refine (Eval.logs_perform_own (.inr rfl)).trans ?_
  change (Eval.perform (.expression scope (.function c.function)) >>= fun callee =>
    Eval.callValue callee [] scope c.line).Logs _ _ _ _ _ ↔ _
  exact Eval.logs_perform_own_bind hown rfl

theorem leave_eq (h : ¬ o.IsLoopControl) :
    (Eval.leaveCall >>= fun _ => Eval.ofExcept o.result).run.run s = .answer (o.called, s.shallower) := by
  match o with
  | .ok v => rfl
  | .error (.raised error) => rfl
  | .error (.returned v) => rfl
  | .error .broke => exact (h trivial).elim
  | .error .continued => exact (h trivial).elim

/-! ### The call -/

/-- Where the body of the function starts. -/
def entered (s : State) (scope : ScopeId) : ScopeId × State :=
  s.deeper.enter .function scope

theorem entered_ne (hscope : scope.index < s.scopes.size) : (entered s scope).1 ≠ scope :=
  fun h => Nat.ne_of_gt hscope (congrArg ScopeId.index h)

theorem lt_entered (hscope : scope.index < s.scopes.size) :
    scope.index < (entered s scope).2.scopes.size := by
  rw [entered, State.size_enter]
  exact Nat.lt_succ_of_lt hscope

theorem runs_ends (hscope : scope.index < s.scopes.size)
    (h : c.Runs (entered s scope).1 (entered s scope).2 log o s') :
    (Evaluation.statement (entered s scope).1 c.statement).run.Ends (entered s scope).2 o s' :=
  (Eval.exists_logs_iff_ends _).mp
    ⟨log, (logs_statement (entered_ne hscope) (lt_entered hscope)).mpr h⟩

theorem runs_not_isLoopControl (hscope : scope.index < s.scopes.size)
    (h : c.Runs (entered s scope).1 (entered s scope).2 log o s') : ¬ o.IsLoopControl :=
  Evaluation.not_isLoopControl (e := .statement (entered s scope).1 c.statement) State.enter_fst_lt
    State.permitsLoopControl_enter (runs_ends hscope h)

theorem runs_keepsNames (hscope : scope.index < s.scopes.size)
    (h : c.Runs (entered s scope).1 (entered s scope).2 log o s') : s.KeepsNames s' := by
  have hstable := State.stable_keepsNames s
  have hentered : s.KeepsNames (entered s scope).2 :=
    hstable.operation (.enter .function scope) (hstable.deeper .refl)
  exact hstable.ends (Nat.le_refl _) hentered (runs_ends hscope h)

theorem logs_call (hscope : scope.index < s.scopes.size) (hdepth : s.depth < s.maxDepth) :
    (Eval.callFunction ⟨c.function, scope, none⟩ [] c.line).Logs (Owns scope) s log o s' ↔
      ∃ ending last, c.Runs (entered s scope).1 (entered s scope).2 log ending last ∧
        o = ending.called ∧ s' = last.shallower := by
  have hbody : ∀ {inner : List Event} {ending last},
      (Eval.body (.block (entered s scope).1 [c.statement])).Logs (Owns scope) (entered s scope).2 inner
        ending last ↔ c.Runs (entered s scope).1 (entered s scope).2 inner ending last :=
    logs_block.trans (logs_statement (entered_ne hscope) (lt_entered hscope))
  have hown : Eval.Owns (Owns scope) (.block (entered s scope).1 [c.statement], (entered s scope).2) :=
    .inl rfl
  rw [Eval.Logs, Eval.callFunction_entered hdepth]
  refine (Dialogue.logs_follow hown).trans ?_
  constructor
  · rintro ⟨⟨ending, last⟩, inner, rest, rfl, hinner, hrest⟩
    have hruns := hbody.mp hinner
    change Dialogue.Logs _ _ ((Eval.leaveCall >>= fun _ => Eval.ofExcept ending.result).run.run last)
      _ _ at hrest
    rw [leave_eq (runs_not_isLoopControl hscope hruns), Dialogue.logs_answer] at hrest
    obtain ⟨rfl, heq⟩ := hrest
    obtain ⟨rfl, rfl⟩ := Prod.mk.inj heq
    rw [List.append_nil]
    exact ⟨ending, last, hruns, rfl, rfl⟩
  · rintro ⟨ending, last, hruns, rfl, rfl⟩
    refine ⟨(ending, last), log, [], (List.append_nil log).symm, hbody.mpr hruns, ?_⟩
    change Dialogue.Logs _ _ ((Eval.leaveCall >>= fun _ => Eval.ofExcept ending.result).run.run last) _ _
    rw [leave_eq (runs_not_isLoopControl hscope hruns)]
    exact .answer _

end Choice

open Choice (Owns)

theorem Outcome.called_not_isLoopControl {o : Outcome} (h : ¬ o.IsLoopControl) :
    ¬ o.called.IsLoopControl := by
  match o with
  | .ok v => exact id
  | .error (.raised error) => exact id
  | .error (.returned v) => exact id
  | .error .broke => exact h
  | .error .continued => exact h

/-- What is read as a ternary is a choice on the line of the arrow, whatever number its function gets. It
evaluates its test in a new scope of a function, and then one branch in a new scope inside of that, where only
`true` chooses the left one. It ends as the last of these does, but for a `return`, whose value it takes. At the
limit it is refused and evaluates nothing. -/
theorem Choice.evaluate_iff (scope : ScopeId) (s : State) (hscope : scope.index < s.scopes.size) :
    (∀ (g : Grammar.Nested) (arrow : Token) (tokens between after : List Token)
      (test left right : Expr Unit) (line : Nat), arrow.kind = .symbol .arrow →
      g.attempt tokens = .ok (test, arrow :: between) → Grammar.isTernaryTest test = true →
      g.expression between = .ok (.binary .or left right line, after) →
      g.conditional tokens = .ok (Grammar.ternary test left right arrow.line, after)) ∧
    (∀ (test left right : Expr Unit) (line : Nat),
      Numbering.expr (Grammar.ternary test left right line) = do
        let identity ← Numbering.next
        let test ← Numbering.expr test
        let left ← Numbering.expr left
        let right ← Numbering.expr right
        return (Choice.mk identity test left right line).expr) ∧
    (∀ (c : Choice) (log : List Event) (o : Outcome) (s' : State), s.depth < s.maxDepth →
      ((Eval.expression scope c.expr).Logs (Owns scope) s log o s' ↔
        ∃ ending last,
          c.Runs (s.deeper.enter .function scope).1 (s.deeper.enter .function scope).2 log ending last ∧
          o = ending.called ∧ s' = last.shallower)) ∧
    (∀ (c : Choice) (log : List Event) (o : Outcome) (s' : State), s.maxDepth ≤ s.depth →
      ((Eval.expression scope c.expr).Logs (Owns scope) s log o s' ↔
        log = [] ∧ o = .error (.raised (.fault (.recursionLimit s.maxDepth c.line))) ∧ s' = s)) ∧
    (∀ (c : Choice) (o : Outcome) (s' : State), (Eval.expression scope c.expr).Ends s o s' →
      (∃ log, (Eval.expression scope c.expr).Logs (Owns scope) s log o s') ∧
        ¬ o.IsLoopControl ∧ s.Level s' ∧ s.KeepsNames s') ∧
    ∀ (s : State) (kind : ScopeKind) (parent : ScopeId),
      (s.enter kind parent).1.index = s.scopes.size ∧
        ((s.enter kind parent).2.scope (s.enter kind parent).1).parent = some parent := by
  have hentered : ∀ (c : Choice) (log : List Event) (o : Outcome) (s' : State), s.depth < s.maxDepth →
      ((Eval.expression scope c.expr).Logs (Owns scope) s log o s' ↔ _) :=
    fun c log o s' hdepth => logs_expr.trans (logs_call hscope hdepth)
  have hrefused : ∀ (c : Choice) (log : List Event) (o : Outcome) (s' : State), s.maxDepth ≤ s.depth →
      ((Eval.expression scope c.expr).Logs (Owns scope) s log o s' ↔ _) :=
    fun c log o s' hdepth => logs_expr.trans (Eval.logs_answer (Eval.callFunction_refused hdepth))
  refine ⟨fun g arrow tokens between after test left right line harrow htest hcan hbranches => ?_,
    numbered, hentered, hrefused, fun c o s' hends => ?_, fun s kind parent =>
    ⟨rfl, congrArg Scope.parent State.scope_newScope⟩⟩
  · rw [Grammar.conditional_of_arrow harrow htest hbranches, if_pos hcan]
  obtain ⟨log, hlog⟩ := (Eval.exists_logs_iff_ends (Owns scope)).mpr hends
  refine ⟨⟨log, hlog⟩, ?_⟩
  -- The function is called like any other, so the limit on the depth of calls decides.
  rcases Nat.lt_or_ge s.depth s.maxDepth with hlt | hle
  · obtain ⟨ending, last, hruns, rfl, rfl⟩ := (hentered c log o s' hlt).mp hlog
    have hlevel : s.Level last.shallower :=
      hends.of_meets (Eval.levels_uniform.body · ·) (Eval.levels_uniform.run (.expression scope c.expr) s
        ⟨Nat.le_refl _, Nat.le_of_lt hlt, rfl⟩)
    exact ⟨Outcome.called_not_isLoopControl (runs_not_isLoopControl hscope hruns), hlevel,
      (runs_keepsNames hscope hruns).of_scopes_eq rfl⟩
  · obtain ⟨-, rfl, rfl⟩ := (hrefused c log o s' hle).mp hlog
    exact ⟨id, .refl, .refl⟩

/-- The words `"a" == "a" -> "left" | "right"` are a ternary whose test gives `true`, and the left branch has a
scope of its own. One call deeper the ternary is refused. -/
theorem Choice.evaluate_iff_strings :
    let s := (State.initial 1).newRoot.2
    let c : Choice :=
      ⟨0, .binary .equal (.string "a" 1) (.string "a" 1) 1, .string "left" 1, .string "right" 1, 1⟩
    (Grammar.nested 9).conditional
        [.text "a" 1, .mark .equalEqual 1, .text "a" 1, .mark .arrow 1, .text "left" 1, .mark .bar 1,
          .text "right" 1, .endAt ⟨1, 29⟩] =
      .ok (Grammar.ternary (.binary .equal (.string "a" 1) (.string "a" 1) 1) (.string "left" 1)
        (.string "right" 1) 1, [.endAt ⟨1, 29⟩]) ∧
    (∃ log s', (Eval.expression ⟨0⟩ c.expr).Logs (Owns ⟨0⟩) s log (.ok (.string "left")) s' ∧
      log.length = 2 ∧ s'.scopes.size = 3 ∧ s.KeepsNames s') ∧
    (Eval.expression ⟨0⟩ c.expr).Logs (Owns ⟨0⟩) s.deeper []
      (.error (.raised (.fault (.recursionLimit 1 1)))) s.deeper := by
  intro s c
  obtain ⟨hread, -, hentered, -, hkept, -⟩ := Choice.evaluate_iff ⟨0⟩ s (by decide)
  obtain ⟨-, -, -, hrefused, -, -⟩ := Choice.evaluate_iff ⟨0⟩ s.deeper (by decide)
  have hequal : ∀ s : State, s.operate .equal (.string "a") (.string "a") 1 = .ok (.bool true) := by
    simp [State.operate, State.equal, State.equalIn]
  have hstring : ∀ scope s, (Eval.expression scope (.string "a" 1)).Gives s (.string "a") s :=
    fun scope s => .perform Eval.gives_pure
  have htest : ∀ scope s, (Event.evaluated scope c.test s (.ok (.bool true)) s).Holds := fun scope s =>
    ((hstring scope s).bind ((hstring scope s).bind (Eval.gives_inspect (hequal s)))).ends
  have hruns : c.Runs (s.deeper.enter .function ⟨0⟩).1 (s.deeper.enter .function ⟨0⟩).2
      _ (.ok (.string "left")) _ :=
    .left (htest _ _) ⟨3, rfl⟩
  have hlog := (hentered c _ _ _ (by decide)).mpr ⟨_, _, hruns, rfl, rfl⟩
  have hends := (Eval.exists_logs_iff_ends _).mp ⟨_, hlog⟩
  exact ⟨hread _ (.mark .arrow 1) _ _ _ _ _ _ _ rfl rfl rfl rfl,
    ⟨_, _, hlog, rfl, rfl, (hkept c _ _ hends).2.2.2⟩,
    (hrefused c _ _ _ (by decide)).mpr ⟨rfl, rfl, rfl⟩⟩

end ScriptLang
