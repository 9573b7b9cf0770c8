import ScriptLang.Proofs.Conduct

/-! Where a scope does not permit loop control, nothing ends by it. This is so in every state: the norm that
asks for nothing holds of all. -/

namespace ScriptLang

def Norm.any : Norm :=
  ⟨fun _ => True, False⟩

variable {n : Nat}

theorem Norm.any_knows {code : List (Bool × Stmt Nat)} : Norm.any.Knows code :=
  fun _ _ => trivial

theorem Closure.any_conforms {f : Closure} : f.Conforms .any n := by
  refine ⟨Norm.any_knows, fun receiver _ => ?_⟩
  cases receiver with
  | ofClass id => exact False.elim
  | ofInstance id => trivial

theorem Value.any_conforms (v : Value) : v.Conforms .any n := by
  induction v with
  | function f => exact Closure.any_conforms
  | classRef id => exact False.elim
  | member m => exact False.elim
  | tagged m payload ih => exact ⟨False.elim, ih⟩
  | null | bool | number | string | container | native | enumeration => trivial

theorem Record.any_conforms {r : Record Value} : r.Conforms .any n :=
  ⟨fun entry _ => entry.2.any_conforms, False.elim⟩

theorem State.any_conforms (s : State) : s.Conforms .any where
  bindings _ _ _ entry _ := entry.2.value.any_conforms
  items _ _ _ v _ := v.any_conforms
  properties _ _ _ := Record.any_conforms
  classes _ _ _ := ⟨Record.any_conforms, fun _ _ => Norm.any_knows, fun _ _ => Norm.any_knows⟩
  fields _ _ _ := ⟨Record.any_conforms, False.elim⟩

/-! ### Evaluations -/

theorem Spot.Runs.evaluation {k : Spot} {e : Evaluation} (hscope : e.scope = k.scope)
    (hloops : k.loops = false) : k.Runs .any n e.run (Value.Conforms .any) := by
  cases e with
  | expression scope e =>
    obtain rfl : scope = k.scope := hscope
    exact .expression Norm.any_knows
  | statement scope s =>
    obtain rfl : scope = k.scope := hscope
    exact .execute hloops trivial Norm.any_knows
  | block scope body =>
    obtain rfl : scope = k.scope := hscope
    exact .block hloops Norm.any_knows
  | call callee arguments scope line =>
    exact .callValue callee.any_conforms fun v _ => v.any_conforms
  | construct target arguments scope line =>
    obtain rfl : scope = k.scope := hscope
    exact .instantiate target.any_conforms (.expressions Norm.any_knows)

/-- The end is that of a `break` or a `continue` that no loop has taken up. -/
def Outcome.IsLoopControl : Outcome → Prop
  | .error .broke | .error .continued => True
  | _ => False

theorem Outcome.Conforms.not_isLoopControl {N : Norm} {o : Outcome} (h : o.Conforms N n false) :
    ¬ o.IsLoopControl := by
  match o with
  | .ok value => exact id
  | .error (.raised error) => exact id
  | .error (.returned value) => exact id
  | .error .broke => cases h
  | .error .continued => cases h

variable {s s' : State} {scope : ScopeId} {o : Outcome}

theorem Evaluation.not_isLoopControl {e : Evaluation} (hscope : e.scope.index < s.scopes.size)
    (hpermits : s.permitsLoopControl e.scope = false) (hends : e.run.Ends s o s') :
    ¬ o.IsLoopControl := by
  let k : Spot := ⟨e.scope, false, false, s.depth⟩
  have hruns : k.Runs .any 0 e.run (Value.Conforms .any) := .evaluation rfl rfl
  exact (hruns.ends ⟨s.any_conforms, hscope, hpermits, rfl⟩ (Nat.zero_le _) hends).2.not_isLoopControl

/-- In a scope that does not permit loop control no evaluation ends by it, whatever it contains. So the body
of a called function never does, and running a program gives no value but that of its last statement or of
a `return`. -/
theorem State.loop_control_contained (s : State) :
    (∀ (e : Evaluation) (o : Outcome) (s' : State), e.scope.index < s.scopes.size →
      s.permitsLoopControl e.scope = false → e.run.Ends s o s' → ¬ o.IsLoopControl) ∧
    (∀ (f : Closure) (arguments : List Value) (line : Nat), s.depth < s.maxDepth →
      (∃ resume, (Eval.callFunction f arguments line).run.run s =
        .ask (.block (s.called f arguments).1 f.function.body, (s.called f arguments).2) resume) ∧
      ∀ o s', (Eval.perform (.block (s.called f arguments).1 f.function.body)).Ends
        (s.called f arguments).2 o s' → ¬ o.IsLoopControl) ∧
    ∀ (scope : ScopeId) (source : Source) (v : Value) (s' : State), scope.index < s.scopes.size →
      s.permitsLoopControl scope = false → s.runProgram? scope source = some (.ok v, s') →
      s.runBlock? scope source = some (.ok v, s') ∨
        s.runBlock? scope source = some (.error (.returned v), s') := by
  refine ⟨fun e o s' => Evaluation.not_isLoopControl, fun f arguments line hlt => ⟨?_, ?_⟩,
    fun scope source v s' hscope hpermits hruns => ?_⟩
  · exact ⟨_, Eval.callFunction_entered hlt⟩
  · obtain ⟨-, hscope, hpermits⟩ :=
      s.any_conforms.called (Closure.any_conforms (f := f)) fun v (_ : v ∈ arguments) => v.any_conforms
    exact fun o s' => Evaluation.not_isLoopControl (e := .block _ f.function.body) hscope hpermits
  · obtain ⟨⟨o, s''⟩, hblock, heq⟩ := Option.map_eq_some_iff.mp hruns
    obtain ⟨hresult, rfl⟩ := Prod.mk.inj heq
    -- Loading the program leaves all scopes as they are.
    have hcontrol : ¬ o.IsLoopControl :=
      Evaluation.not_isLoopControl (s := (s.load source).2) (e := .block scope (s.load source).1)
        hscope hpermits ⟨_, hblock⟩
    match o with
    | .ok value =>
      cases hresult
      exact .inl hblock
    | .error (.returned value) =>
      cases hresult
      exact .inr hblock
    | .error (.raised error) => cases hresult
    | .error .broke => exact (hcontrol trivial).elim
    | .error .continued => exact (hcontrol trivial).elim

/-- A function whose body is a `break`. -/
def breaker : Closure :=
  ⟨.mk 0 "breaker" [] [.breaks 1] 1, ⟨0⟩, none⟩

/-- A `break` outside of loops is refused, in a `try` as well as in the body of a function, and a `return`
gives its value to a program. -/
theorem breaker_contained :
    let s := (State.initial 1).newRoot.2
    (∃ o s', (Evaluation.expression ⟨0⟩ (.attempt [.breaks 1] [] 1)).run.Ends s o s' ∧
      ¬ o.IsLoopControl) ∧
    (∃ o s', (Eval.perform (.block (s.called breaker []).1 [.breaks 1])).Ends (s.called breaker []).2
      o s' ∧ ¬ o.IsLoopControl) ∧
    (s.runBlock? ⟨0⟩ [.returns none 1] = some (.ok .null, s) ∨
      s.runBlock? ⟨0⟩ [.returns none 1] = some (.error (.returned .null), s)) := by
  intro s
  have htried : (Evaluation.expression ⟨0⟩ (.attempt [.breaks 1] [] 1)).run.Ends s (.ok .null) _ :=
    ⟨9, rfl⟩
  have hcalled : (Eval.perform (.block (s.called breaker []).1 [.breaks 1])).Ends
      (s.called breaker []).2 (.error (.raised (.fault (.loopControlOutsideLoop "break" 1)))) _ :=
    ⟨9, rfl⟩
  have hruns : s.runProgram? ⟨0⟩ [.returns none 1] = some (.ok .null, s) := rfl
  obtain ⟨hevaluation, hcall, hprogram⟩ := State.loop_control_contained s
  exact ⟨⟨_, _, htried, hevaluation _ _ _ (by decide) rfl htried⟩,
    ⟨_, _, hcalled, (hcall breaker [] 1 (by decide)).2 _ _ hcalled⟩,
    hprogram _ _ _ _ (by decide) rfl hruns⟩

end ScriptLang
