import ScriptLang.Proofs.Log
import ScriptLang.Proofs.Spot

/-! The rounds of a loop. Both kinds of loops test, run their body in a new scope and go on according to how
it ends; with a header there is an update between one body and the next test. The further rounds are tasks of
their own, which are taken as parts of the loop, so its log is made of tests, bodies and updates. -/

namespace ScriptLang

/-- The body of a loop has ended normally or with `continue`. -/
def Outcome.GoesOn : Outcome → Prop
  | .ok _ | .error .continued => True
  | _ => False

theorem Outcome.goesOn_or (b : Outcome) :
    b.GoesOn ∨ b = .error .broke ∨ (∃ v, b = .error (.returned v)) ∨ ∃ e, b = .error (.raised e) := by
  match b with
  | .ok v => exact .inl trivial
  | .error .continued => exact .inl trivial
  | .error .broke => exact .inr (.inl rfl)
  | .error (.returned v) => exact .inr (.inr (.inl ⟨v, rfl⟩))
  | .error (.raised e) => exact .inr (.inr (.inr ⟨e, rfl⟩))

/-- The value of the last body that ended normally, or `start` if none did. -/
def lastNormal (start : Value) (outcomes : List Outcome) : Value :=
  ((outcomes.filterMap Except.toOption).getLast?).getD start

theorem lastNormal_cons {start : Value} {o : Outcome} {outcomes : List Outcome} :
    lastNormal start (o :: outcomes) = lastNormal (lastNormal start [o]) outcomes := by
  cases o with
  | error => rfl
  | ok v => exact congrArg (Option.getD · start) List.getLast?_cons

/-- A loop after its start. A `while` has no update. -/
structure Loop where
  scope : ScopeId
  test : Expr Nat
  update : Option (Expr Nat)
  body : List (Stmt Nat)

namespace Loop

variable (l : Loop)

/-- The rounds that are left to do. A `while` holds the value of the last body that ended normally. -/
def task (last : Value) : Task :=
  match l.update with
  | none => .whileLoop l.scope l.test l.body last
  | some update => .forLoop l.scope l.test update l.body

/-- The value of a loop that is done. -/
def value (last : Value) : Value :=
  match l.update with
  | none => last
  | some _ => .null

/-! ### Runs of loops -/

def tested (s : State) (o : Outcome) (s' : State) : Event :=
  .evaluated l.scope l.test s o s'

/-- Each body has a scope of its own. -/
def ran (s : State) (o : Outcome) (s' : State) : Event :=
  ((.block (s.enter .loop l.scope).1 l.body, (s.enter .loop l.scope).2), o, s')

def updated (update : Expr Nat) (s : State) (o : Outcome) (s' : State) : Event :=
  .evaluated l.scope update s o s'

/-- The test has given `true`, and the body has ended so. -/
structure Enters (s s₁ : State) (o : Outcome) (s₂ : State) : Prop where
  test : (l.tested s (.ok (.bool true)) s₁).Holds
  body : (l.ran s₁ o s₂).Holds

/-- What comes between a body that goes on and the next test. -/
inductive Updates : State → List Event → State → Prop
  | none {s : State} (h : l.update = none) : Updates s [] s
  | some {update : Expr Nat} {v : Value} {s s' : State} (h : l.update = some update)
      (hupdate : (l.updated update s (.ok v) s').Holds) :
      Updates s [l.updated update s (.ok v) s'] s'

/-- A round that is not the last, and how its body ends. -/
inductive Round : State → List Event → Outcome → State → Prop
  | mk {s s₁ s₂ s' : State} {o : Outcome} {after : List Event} (h : l.Enters s s₁ o s₂) (ho : o.GoesOn)
      (hupdate : l.Updates s₂ after s') :
      Round s (l.tested s (.ok (.bool true)) s₁ :: l.ran s₁ o s₂ :: after) o s'

/-- The last round. Without a signal the loop is done, otherwise the signal cuts it short. -/
inductive Stops : State → List Event → Option Signal → State → Prop
  | done {s s' : State} {v : Value} (hv : v ≠ .bool true) (h : (l.tested s (.ok v) s').Holds) :
      Stops s [l.tested s (.ok v) s'] none s'
  | test {s s' : State} {signal : Signal} (h : (l.tested s (.error signal) s').Holds) :
      Stops s [l.tested s (.error signal) s'] (some signal) s'
  | broke {s s₁ s' : State} (h : l.Enters s s₁ (.error .broke) s') :
      Stops s [l.tested s (.ok (.bool true)) s₁, l.ran s₁ (.error .broke) s'] none s'
  | returned {s s₁ s' : State} {v : Value} (h : l.Enters s s₁ (.error (.returned v)) s') :
      Stops s [l.tested s (.ok (.bool true)) s₁, l.ran s₁ (.error (.returned v)) s']
        (some (.returned v)) s'
  | raised {s s₁ s' : State} {e : RuntimeError} (h : l.Enters s s₁ (.error (.raised e)) s') :
      Stops s [l.tested s (.ok (.bool true)) s₁, l.ran s₁ (.error (.raised e)) s'] (some (.raised e)) s'
  | update {s s₁ s₂ s' : State} {o : Outcome} {update : Expr Nat} {signal : Signal}
      (h : l.Enters s s₁ o s₂) (ho : o.GoesOn) (hupdate : l.update = some update)
      (hsignal : (l.updated update s₂ (.error signal) s').Holds) :
      Stops s [l.tested s (.ok (.bool true)) s₁, l.ran s₁ o s₂, l.updated update s₂ (.error signal) s']
        (some signal) s'

/-- All rounds, with the ends of their bodies but for the last round. -/
inductive Runs : State → List Event → List Outcome → Option Signal → State → Prop
  | stop {s s' : State} {log : List Event} {ending : Option Signal} (h : l.Stops s log ending s') :
      Runs s log [] ending s'
  | round {s s₁ s' : State} {first rest : List Event} {o : Outcome} {outcomes : List Outcome}
      {ending : Option Signal} (h : l.Round s first o s₁) (hrest : Runs s₁ rest outcomes ending s') :
      Runs s (first ++ rest) (o :: outcomes) ending s'

/-! ### One round -/

/-- After a body that goes on. -/
def next (last : Value) : Eval Value :=
  match l.update with
  | none => Eval.perform (l.task last)
  | some update => do
    let _ ← Eval.expression l.scope update
    Eval.perform (l.task last)

/-- After any body. -/
def onward (last : Value) : Outcome → Eval Value
  | .ok v => l.next v
  | .error .continued => l.next last
  | .error .broke => return l.value last
  | .error signal => throw signal

/-- The rounds of both kinds of loops in one form. -/
def rounds (last : Value) : Eval Value := do
  if !(← Eval.expression l.scope l.test).isTrue then return l.value last
  let inner ← Eval.create (·.enter .loop l.scope)
  l.onward last (← Eval.attempt (.block inner l.body))

theorem body_task (last : Value) : Eval.body (l.task last) = l.rounds last := by
  obtain ⟨scope, test, update, body⟩ := l
  rcases update with _ | update
  all_goals
    refine congrArg (Eval.expression scope test >>= ·) (funext fun v => ?_)
    refine congrArg _ (congrArg _ (funext fun inner => ?_))
    refine congrArg _ (funext fun o => ?_)
    rcases o with (_ | _ | _ | _) | _ <;> rfl

/-! ### Logs -/

variable {l} {s s' : State} {log : List Event} {last : Value} {o : Outcome}

/-- The tasks of a loop for its further rounds. -/
def Continues (t : Task) : Prop :=
  t.isLoop = true

theorem continues_task (l : Loop) (last : Value) : Continues (l.task last) := by
  obtain ⟨scope, test, update, body⟩ := l
  cases update <;> rfl

/-- The test decides between the value of the loop and its body, and then the end of the body decides. -/
theorem logs_rounds : (l.rounds last).Logs Continues s log o s' ↔
    (∃ signal, log = [l.tested s (.error signal) s'] ∧ (l.tested s (.error signal) s').Holds ∧
      o = .error signal) ∨
    (∃ v, v ≠ .bool true ∧ log = [l.tested s (.ok v) s'] ∧ (l.tested s (.ok v) s').Holds ∧
      o = .ok (l.value last)) ∨
    ∃ s₁ b s₂ rest, log = l.tested s (.ok (.bool true)) s₁ :: l.ran s₁ b s₂ :: rest ∧
      l.Enters s s₁ b s₂ ∧ (l.onward last b).Logs Continues s₂ rest o s' := by
  have htest : ¬ Continues (.expression l.scope l.test) := nofun
  have hbody : ∀ scope, ¬ Continues (.block scope l.body) := fun _ => nofun
  rw [rounds, Eval.expression, Eval.logs_perform_bind htest]
  refine or_congr Iff.rfl ⟨?_, ?_⟩
  · rintro ⟨v, s₁, rest, rfl, hv, hrest⟩
    by_cases htrue : v = .bool true
    · obtain rfl := htrue
      obtain ⟨b, s₂, rest, rfl, hb, hrest⟩ := (Eval.logs_attempt_bind (hbody _)).mp hrest
      exact .inr ⟨s₁, b, s₂, rest, rfl, ⟨hv, hb⟩, hrest⟩
    · rw [Value.isTrue_of_ne htrue] at hrest
      obtain ⟨rfl, rfl, rfl⟩ := Eval.logs_pure.mp hrest
      exact .inl ⟨v, htrue, rfl, hv, rfl⟩
  · rintro (⟨v, htrue, rfl, hv, rfl⟩ | ⟨s₁, b, s₂, rest, rfl, ⟨hv, hb⟩, hrest⟩)
    · refine ⟨v, s', [], rfl, hv, ?_⟩
      rw [Value.isTrue_of_ne htrue]
      exact Eval.logs_pure.mpr ⟨rfl, rfl, rfl⟩
    · exact ⟨.bool true, s₁, _, rfl, hv, (Eval.logs_attempt_bind (hbody _)).mpr ⟨b, s₂, rest, rfl, hb, hrest⟩⟩

theorem logs_next : (l.next last).Logs Continues s log o s' ↔
    (∃ update signal, l.update = some update ∧ log = [l.updated update s (.error signal) s'] ∧
      (l.updated update s (.error signal) s').Holds ∧ o = .error signal) ∨
    ∃ after s₁ rest, log = after ++ rest ∧ l.Updates s after s₁ ∧
      (Eval.body (l.task last)).Logs Continues s₁ rest o s' := by
  rw [next]
  cases hupdate : l.update with
  | none =>
    refine (Eval.logs_perform_own (continues_task l last)).trans ⟨fun h => ?_, ?_⟩
    · exact .inr ⟨[], s, log, rfl, .none hupdate, h⟩
    · rintro (⟨_, _, ⟨⟩, _⟩ | ⟨after, s₁, rest, rfl, hafter, hrest⟩)
      cases hafter with
      | none => exact hrest
      | some hsome => cases hupdate.symm.trans hsome
  | some update =>
    have hexpression : ¬ Continues (.expression l.scope update) := nofun
    simp only [Eval.expression, Eval.logs_perform_bind hexpression,
      Eval.logs_perform_own (continues_task l last)]
    refine or_congr ⟨?_, ?_⟩ ⟨?_, ?_⟩
    · rintro ⟨signal, rfl, hends, rfl⟩
      exact ⟨update, signal, rfl, rfl, hends, rfl⟩
    · rintro ⟨_, signal, ⟨⟩, rfl, hends, rfl⟩
      exact ⟨signal, rfl, hends, rfl⟩
    · rintro ⟨v, s₁, rest, rfl, hends, hrest⟩
      exact ⟨_, s₁, rest, rfl, .some hupdate hends, hrest⟩
    · rintro ⟨after, s₁, rest, rfl, hafter, hrest⟩
      cases hafter with
      | none hnone => cases hupdate.symm.trans hnone
      | some hsome hends =>
        cases hupdate.symm.trans hsome
        exact ⟨_, s₁, rest, rfl, hends, hrest⟩

theorem onward_of_goesOn {b : Outcome} (hb : b.GoesOn) :
    l.onward last b = l.next (lastNormal last [b]) := by
  match b with
  | .ok v => rfl
  | .error .continued => rfl

theorem logs_task : (Eval.body (l.task last)).Logs Continues s log o s' ↔
    (∃ ending, l.Stops s log ending s' ∧ o = ending.elim (.ok (l.value last)) .error) ∨
    ∃ first rest b s₁, log = first ++ rest ∧ l.Round s first b s₁ ∧
      (Eval.body (l.task (lastNormal last [b]))).Logs Continues s₁ rest o s' := by
  rw [body_task, logs_rounds]
  constructor
  · rintro (⟨signal, rfl, hends, rfl⟩ | ⟨v, hv, rfl, hends, rfl⟩ | ⟨s₁, b, s₂, rest, rfl, henters, hrest⟩)
    · exact .inl ⟨_, .test hends, rfl⟩
    · exact .inl ⟨_, .done hv hends, rfl⟩
    -- The end of the body decides whether the loop goes on.
    · obtain hb | rfl | ⟨v, rfl⟩ | ⟨e, rfl⟩ := Outcome.goesOn_or b
      · rw [onward_of_goesOn hb, logs_next] at hrest
        obtain ⟨update, signal, hupdate, rfl, hends, rfl⟩ | ⟨after, s₃, rest, rfl, hafter, hrest⟩ := hrest
        · exact .inl ⟨_, .update henters hb hupdate hends, rfl⟩
        · exact .inr ⟨_, rest, b, s₃, rfl, .mk henters hb hafter, hrest⟩
      · obtain ⟨rfl, rfl, rfl⟩ := Eval.logs_pure.mp hrest
        exact .inl ⟨_, .broke henters, rfl⟩
      · obtain ⟨rfl, rfl, rfl⟩ := Eval.logs_throw.mp hrest
        exact .inl ⟨_, .returned henters, rfl⟩
      · obtain ⟨rfl, rfl, rfl⟩ := Eval.logs_throw.mp hrest
        exact .inl ⟨_, .raised henters, rfl⟩
  · rintro (⟨ending, hstops, rfl⟩ | ⟨first, rest, b, s₁, rfl, hround, hrest⟩)
    · cases hstops with
      | done hv hends => exact .inr (.inl ⟨_, hv, rfl, hends, rfl⟩)
      | test hends => exact .inl ⟨_, rfl, hends, rfl⟩
      | broke henters =>
        exact .inr (.inr ⟨_, _, _, [], rfl, henters, Eval.logs_pure.mpr ⟨rfl, rfl, rfl⟩⟩)
      | returned henters =>
        exact .inr (.inr ⟨_, _, _, [], rfl, henters, Eval.logs_throw.mpr ⟨rfl, rfl, rfl⟩⟩)
      | raised henters =>
        exact .inr (.inr ⟨_, _, _, [], rfl, henters, Eval.logs_throw.mpr ⟨rfl, rfl, rfl⟩⟩)
      | update henters hb hupdate hends =>
        refine .inr (.inr ⟨_, _, _, _, rfl, henters, ?_⟩)
        rw [onward_of_goesOn hb, logs_next]
        exact .inl ⟨_, _, hupdate, rfl, hends, rfl⟩
    · obtain ⟨henters, hb, hafter⟩ := hround
      refine .inr (.inr ⟨_, _, _, _, rfl, henters, ?_⟩)
      rw [onward_of_goesOn hb, logs_next]
      exact .inr ⟨_, _, rest, rfl, hafter, hrest⟩

/-! ### All rounds -/

theorem logs_task_iff : (Eval.body (l.task last)).Logs Continues s log o s' ↔
    ∃ outcomes ending, l.Runs s log outcomes ending s' ∧
      o = ending.elim (.ok (l.value (lastNormal last outcomes))) .error := by
  constructor
  · intro h
    -- Each round begins with a test, so the log gets shorter.
    induction hlength : log.length using Nat.strongRecOn generalizing s log last with
    | ind length ih =>
      obtain ⟨ending, hstops, ho⟩ | ⟨first, rest, b, s₁, rfl, hround, hrest⟩ := logs_task.mp h
      · exact ⟨[], ending, .stop hstops, ho⟩
      · have hshorter : rest.length < length := by
          cases hround
          simp only [List.length_append, List.length_cons] at hlength
          omega
        obtain ⟨outcomes, ending, hruns, ho⟩ := ih _ hshorter hrest rfl
        rw [← lastNormal_cons] at ho
        exact ⟨b :: outcomes, ending, .round hround hruns, ho⟩
  · rintro ⟨outcomes, ending, hruns, rfl⟩
    induction hruns generalizing last with
    | stop hstops => exact logs_task.mpr (.inl ⟨_, hstops, rfl⟩)
    | round hround _ ih =>
      rw [lastNormal_cons]
      exact logs_task.mpr (.inr ⟨_, _, _, _, rfl, hround, ih⟩)

end Loop

/-! ### Loops as statements -/

open Loop (Continues)

/-- Every loop that ends does so after finitely many rounds, of which all but the last have a body that ends
normally or with `continue`. The scope of each body is new and permits loop control. -/
theorem Loop.execute_iff :
    (∀ (scope : ScopeId) (test : Expr Nat) (body : List (Stmt Nat)) (line : Nat) (s : State)
      (log : List Event) (o : Outcome) (s' : State),
      (Eval.execute scope (.whileLoop test body line)).Logs Continues s log o s' ↔
        ∃ outcomes ending, (Loop.mk scope test none body).Runs s log outcomes ending s' ∧
          o = ending.elim (.ok (lastNormal .null outcomes)) .error) ∧
    (∀ (scope : ScopeId) (start : VariableDecl Nat) (test update : Expr Nat) (body : List (Stmt Nat))
      (line : Nat) (s : State) (log : List Event) (o : Outcome) (s' : State),
      (Eval.execute scope (.forLoop start test update body line)).Logs Continues s log o s' ↔
        let inner := (s.enter .child scope).1
        let entered := (s.enter .child scope).2
        (∃ signal, (Eval.declareVariable inner start).Logs Continues entered log (.error signal) s' ∧
          o = .error signal) ∨
        ∃ v s₁ front back outcomes ending, log = front ++ back ∧
          (Eval.declareVariable inner start).Logs Continues entered front (.ok v) s₁ ∧
          (Loop.mk inner test (some update) body).Runs s₁ back outcomes ending s' ∧
          o = ending.elim (.ok .null) .error) ∧
    (∀ (s : State) (scope : ScopeId), (s.enter .loop scope).1.index = s.scopes.size ∧
      (s.enter .loop scope).2.permitsLoopControl (s.enter .loop scope).1 = true) ∧
    ∀ (scope : ScopeId) (loop : Stmt Nat) (s : State) (o : Outcome) (s' : State),
      (Eval.execute scope loop).Ends s o s' ↔
        ∃ log, (Eval.execute scope loop).Logs Continues s log o s' := by
  refine ⟨?_, ?_, fun s scope => ⟨rfl, State.permitsLoopControl_enter⟩, fun scope loop s o s' =>
    (Eval.exists_logs_iff_ends _).symm⟩
  · intro scope test body line s log o s'
    let l : Loop := ⟨scope, test, none, body⟩
    exact (Eval.logs_perform_own (Loop.continues_task l .null)).trans Loop.logs_task_iff
  · intro scope start test update body line s log o s'
    let l : Loop := ⟨(s.enter .child scope).1, test, some update, body⟩
    -- The rounds of a `for` are those of a `Loop` with an update, whose value is null.
    have hrounds : ∀ s₁ back, (Eval.perform (l.task .null)).Logs Continues s₁ back o s' ↔
        ∃ outcomes ending, l.Runs s₁ back outcomes ending s' ∧ o = ending.elim (.ok .null) .error :=
      fun s₁ back => (Eval.logs_perform_own (Loop.continues_task l .null)).trans Loop.logs_task_iff
    refine Eval.logs_create_bind.trans (Eval.logs_bind.trans (or_congr Iff.rfl ?_))
    constructor
    · rintro ⟨v, s₁, front, back, rfl, hstart, hback⟩
      obtain ⟨outcomes, ending, hruns, ho⟩ := (hrounds s₁ back).mp hback
      exact ⟨v, s₁, front, back, outcomes, ending, rfl, hstart, hruns, ho⟩
    · rintro ⟨v, s₁, front, back, outcomes, ending, rfl, hstart, hruns, ho⟩
      exact ⟨v, s₁, front, back, rfl, hstart, (hrounds s₁ back).mpr ⟨outcomes, ending, hruns, ho⟩⟩

end ScriptLang
