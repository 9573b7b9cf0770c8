import ScriptLang.Proofs.Moment
import ScriptLang.Proofs.Uniform

/-! Every evaluation leaves the depth of calls as it was, and meanwhile keeps it between what it was and
the limit. -/

namespace ScriptLang

/-- Calls are at least `floor` deep and no deeper than `limit`, which is the limit. -/
structure State.Between (floor limit : Nat) (s : State) : Prop where
  floor_le : floor ≤ s.depth
  depth_le : s.depth ≤ limit
  maxDepth_eq : s.maxDepth = limit

/-- Calls are as deep as in `s`, and so is the limit. -/
structure State.Level (s s' : State) : Prop where
  depth_eq : s'.depth = s.depth
  maxDepth_eq : s'.maxDepth = s.maxDepth

namespace State

variable {floor limit : Nat} {s s' s'' : State}

theorem Level.refl : s.Level s :=
  ⟨rfl, rfl⟩

theorem Level.trans (h : s.Level s') (h' : s'.Level s'') : s.Level s'' :=
  ⟨h'.depth_eq.trans h.depth_eq, h'.maxDepth_eq.trans h.maxDepth_eq⟩

theorem Between.level (h : s.Between floor limit) (hlevel : s.Level s') : s'.Between floor limit :=
  ⟨hlevel.depth_eq ▸ h.floor_le, hlevel.depth_eq ▸ h.depth_le,
    hlevel.maxDepth_eq.trans h.maxDepth_eq⟩

theorem Steady.level {α : Type} {f : State → α × State} (h : Steady f) : s.Level (f s).2 :=
  ⟨h.depth_eq s, h.maxDepth_eq s⟩

end State

namespace Eval

variable {floor limit : Nat} {s : State}

/-- Tasks may start where calls are deep enough and not too deep, and end at the level they start at. -/
def levelContract (floor limit : Nat) : Contract where
  pre _ s := s.Between floor limit
  post _ s _ s' := s.Level s'

/-- From every state that keeps the bounds, the computation ends at the level it starts at, and so do the
tasks it asks for. -/
def Levels (floor limit : Nat) ⦃α : Type⦄ (c : Eval α) : Prop :=
  ∀ s, s.Between floor limit → c.Meets (levelContract floor limit) s fun _ s' => s.Level s'

/-! ### Calls -/

theorem callFunction_refused {f : Closure} {arguments : List Value} {line : Nat}
    (h : s.maxDepth ≤ s.depth) :
    (callFunction f arguments line).run.run s =
      .answer (.error (.raised (.fault (.recursionLimit s.maxDepth line))), s) := by
  have henter : (enterCall line).run.run s =
      .answer (.error (.raised (.fault (.recursionLimit s.maxDepth line))), s) := by
    change (if s.maxDepth ≤ s.depth then fault (.recursionLimit s.maxDepth line)
      else modify State.deeper : Eval Unit).run.run s = _
    rw [if_pos h]
    rfl
  change ((enterCall line).run.run s).bind _ = _
  rw [henter]
  rfl

theorem callFunction_entered {f : Closure} {arguments : List Value} {line : Nat}
    (h : s.depth < s.maxDepth) :
    (callFunction f arguments line).run.run s =
      .ask (.block (s.deeper.enter .function f.scope).1 f.function.body,
          (s.deeper.enter .function f.scope).2.bindArguments
            (s.deeper.enter .function f.scope).1 f arguments)
        fun (outcome, s') => ((leaveCall >>= fun _ => ofExcept outcome.result).run.run s') := by
  have henter : (enterCall line).run.run s = .answer (.ok (), s.deeper) := by
    change (if s.maxDepth ≤ s.depth then fault (.recursionLimit s.maxDepth line)
      else modify State.deeper : Eval Unit).run.run s = _
    rw [if_neg (Nat.not_le_of_lt h)]
    rfl
  change ((enterCall line).run.run s).bind _ = _
  rw [henter]
  rfl

theorem levels_uniform : Uniform (fun _ => True) (Levels floor limit) where
  pure _ _ _ := meets_pure.mpr .refl
  throw _ _ _ := meets_throw.mpr .refl
  bind hc hf := by
    intro s hs
    rw [meets_bind]
    refine (hc s hs).mono ?_
    rintro (signal | a) s' hlevel
    · exact hlevel
    · exact (hf a s' (hs.level hlevel)).mono fun _ _ hlevel' => hlevel.trans hlevel'
  get_bind _ hf := by
    intro s hs
    rw [meets_bind, meets_get]
    exact hf s s hs
  create hf _ _ := meets_create.mpr hf.steady.level
  enter_bind hf _ hs :=
    (hf _ trivial _ (hs.level State.steady_enter.level)).mono fun _ _ => State.steady_enter.level.trans
  attempt _ _ hs := meets_attempt.mpr ⟨hs, fun _ _ => id⟩
  callFunction f arguments line := by
    intro s hs
    rcases Nat.lt_or_ge s.depth s.maxDepth with hlt | hle
    · rw [Meets, callFunction_entered hlt]
      have hcalled : s.deeper.Level ((s.deeper.enter .function f.scope).2.bindArguments
          (s.deeper.enter .function f.scope).1 f arguments) :=
        State.Level.trans State.steady_enter.level State.steady_bindArguments.level
      have hdeeper : s.deeper.Between floor limit :=
        ⟨Nat.le_succ_of_le hs.floor_le, hs.maxDepth_eq ▸ hlt, hs.maxDepth_eq⟩
      refine ⟨hdeeper.level hcalled, ?_⟩
      rintro ⟨o, s'⟩ hr
      -- The body ended at the level it started at, which is one deeper than that of the call.
      obtain ⟨hdepth, hmaxDepth⟩ := hcalled.trans hr
      have hlevel : s.Level s'.shallower :=
        ⟨by rw [State.shallower, hdepth]; rfl, hmaxDepth⟩
      change Meets (levelContract floor limit) (leaveCall >>= fun _ => ofExcept o.result) s'
        fun _ s'' => s.Level s''
      rw [meets_bind, leaveCall, meets_modify]
      cases o.result with
      | ok v => exact hlevel
      | error error => exact hlevel
    · rw [Meets, callFunction_refused hle]
      exact .refl

end Eval

/-- From a state whose calls are not too deep, every evaluation that ends leaves the depth of calls and the
limit as they were, and at every moment the depth lies between what it was and the limit. A call of a
function is refused exactly at the limit, at once and without a change; otherwise it goes on with its body,
one call deeper, and gets back by one call when the body ends. -/
theorem Evaluation.depth_kept {s : State} (hs : s.depth ≤ s.maxDepth) :
    (∀ (e : Evaluation) (o : Outcome) (s' : State), e.run.Ends s o s' → s.Level s') ∧
    (∀ (e : Evaluation) (s' : State), e.run.Passes s s' → s'.Between s.depth s.maxDepth) ∧
    ∀ (f : Closure) (arguments : List Value) (line : Nat),
      ((Eval.callFunction f arguments line).run.run s =
          .answer (.error (.raised (.fault (.recursionLimit s.maxDepth line))), s) ↔
        s.depth = s.maxDepth) ∧
      (s.depth ≠ s.maxDepth → ∃ scope called resume,
        (Eval.callFunction f arguments line).run.run s =
          .ask (.block scope f.function.body, called) resume ∧
        called.depth = s.depth + 1 ∧
        ∀ o s', Steps.state (resume (o, s')) = s'.shallower) := by
  have hstart : s.Between s.depth s.maxDepth := ⟨Nat.le_refl _, hs, rfl⟩
  have hbody : ∀ task s', (Eval.levelContract s.depth s.maxDepth).pre task s' →
      (Eval.body task).Meets (Eval.levelContract s.depth s.maxDepth) s'
        ((Eval.levelContract s.depth s.maxDepth).post task s') :=
    fun task s' => Eval.levels_uniform.body task s'
  refine ⟨fun e o s' hends => ?_, fun e s' hpasses => ?_, fun f arguments line => ?_⟩
  · exact hends.of_meets hbody (Eval.levels_uniform.run e s hstart)
  · refine hpasses.of_meets hbody (fun _ _ => id) (fun _ _ _ _ => State.Between.level) ?_
    exact (Eval.levels_uniform.run e s hstart).mono fun _ _ => hstart.level
  · rcases Nat.lt_or_ge s.depth s.maxDepth with hlt | hle
    · refine ⟨⟨fun hrefused => ?_, fun heq => absurd heq (Nat.ne_of_lt hlt)⟩, fun _ => ?_⟩
      · cases (Eval.callFunction_entered hlt).symm.trans hrefused
      · refine ⟨_, _, _, Eval.callFunction_entered hlt, State.steady_bindArguments.level.depth_eq,
          fun o s' => ?_⟩
        rcases o with (error | _ | _ | _) | v <;> rfl
    · have heq : s.depth = s.maxDepth := Nat.le_antisymm hs hle
      exact ⟨⟨fun _ => heq, fun _ => Eval.callFunction_refused hle⟩, fun hne => absurd heq hne⟩

/-- A function without a body. -/
def idle : Closure :=
  ⟨.mk 0 "idle" [] [] 1, ⟨0⟩, none⟩

/-- With a limit of one call, a call ends at depth zero; at depth one it is refused. -/
theorem idle_kept :
    (∃ o s', (Evaluation.call (.function idle) [] ⟨0⟩ 1).run.Ends (.initial 1) o s' ∧
      (State.initial 1).Level s') ∧
    (Eval.callFunction idle [] 1).run.run (State.initial 1).deeper =
      .answer (.error (.raised (.fault (.recursionLimit 1 1))), (State.initial 1).deeper) := by
  have hends : (Evaluation.call (.function idle) [] ⟨0⟩ 1).run.Ends (.initial 1) (.ok .null)
      ((State.initial 1).enter .function ⟨0⟩).2 :=
    ⟨3, rfl⟩
  have hstart := Evaluation.depth_kept (s := .initial 1) (by decide)
  have hdeeper := Evaluation.depth_kept (s := (State.initial 1).deeper) (by decide)
  exact ⟨⟨_, _, hends, hstart.1 _ _ _ hends⟩, (hdeeper.2.2 idle [] 1).1.mpr rfl⟩

end ScriptLang
