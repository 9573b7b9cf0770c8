import Mathlib.Data.List.Forall2
import ScriptLang.Proofs.Depth

/-! A higher limit on the depth of calls changes nothing as long as no call is refused. Under both limits
the same tasks are asked for and get the same replies, up to the first refusal. -/

namespace ScriptLang

namespace State

/-- With another limit on the depth of calls. -/
def raised (s : State) (limit : Nat) : State :=
  { s with maxDepth := limit }

variable {α : Type} {s : State} {limit : Nat}

theorem Steady.raised {f : State → α × State} (h : Steady f) :
    f (s.raised limit) = ((f s).1, (f s).2.raised limit) := by
  change f (s.limited s.depth limit) = ((f s).1, (f s).2.limited (f s).2.depth limit)
  rw [h, h.depth_eq]

end State

/-- What cuts the call of a function short that is refused. -/
def Signal.IsRefusal : Signal → Prop
  | raised (.fault (.recursionLimit ..)) => True
  | _ => False

namespace Steps

variable {α β : Type}

/-- A computation goes on with the value, unless a signal cuts it short. -/
def andThen (d : Steps (Except Signal α × State)) (f : α → Eval β) :
    Steps (Except Signal β × State) :=
  Dialogue.bind d fun (r, s) =>
    match r with
    | .ok a => (f a).run.run s
    | .error signal => .answer (.error signal, s)

theorem run_bind (c : Eval α) (f : α → Eval β) (s : State) :
    (c >>= f).run.run s = andThen (c.run.run s) f := by
  change Dialogue.bind (c.run.run s) _ = Dialogue.bind (c.run.run s) _
  congr 1
  funext ⟨r, s'⟩
  cases r <;> rfl

/-- With these limits the one does as the other and goes on so with the same replies. Where a call is
refused under the lower limit, the other may do anything. -/
inductive Follows (low high : Nat) :
    Steps (Except Signal α × State) → Steps (Except Signal α × State) → Prop
  | answer {r : Except Signal α} {s : State} (hs : s.maxDepth = low) :
      Follows low high (.answer (r, s)) (.answer (r, s.raised high))
  | ask {task : Task} {s : State} {resume resume' : Outcome × State → Steps (Except Signal α × State)}
      (hs : s.maxDepth = low)
      (h : ∀ o s', s'.maxDepth = low →
        Follows low high (resume (o, s')) (resume' (o, s'.raised high))) :
      Follows low high (.ask (task, s) resume) (.ask (task, s.raised high) resume')
  | refused {signal : Signal} {s : State} {d : Steps (Except Signal α × State)}
      (h : signal.IsRefusal) : Follows low high (.answer (.error signal, s)) d

variable {low high : Nat}

theorem Follows.andThen {d d' : Steps (Except Signal α × State)} {f : α → Eval β}
    (h : Follows low high d d')
    (hf : ∀ a s, s.maxDepth = low →
      Follows low high ((f a).run.run s) ((f a).run.run (s.raised high))) :
    Follows low high (d.andThen f) (d'.andThen f) := by
  induction h with
  | @answer r s hs =>
    cases r with
    | ok a => exact hf a s hs
    | error signal => exact .answer hs
  | ask hs _ ih => exact .ask hs ih
  | refused hrefusal => exact .refused hrefusal

end Steps

namespace Eval

variable {low high : Nat}

/-- From every state with the lower limit, the computation with the higher limit follows. -/
def Rises (low high : Nat) ⦃α : Type⦄ (c : Eval α) : Prop :=
  ∀ s, s.maxDepth = low →
    Steps.Follows low high (c.run.run s) (c.run.run (s.raised high))

theorem rises_uniform (hle : low ≤ high) : Uniform (fun _ => True) (Rises low high) where
  pure _ _ hs := .answer hs
  throw _ _ hs := .answer hs
  bind hc hf := by
    intro s hs
    rw [Steps.run_bind, Steps.run_bind]
    exact (hc s hs).andThen hf
  get_bind := by
    intro α f hblind hf s hs
    have hsame : f (s.raised high) = f s := hblind s s.depth high
    change Steps.Follows low high ((f s).run.run s) ((f (s.raised high)).run.run (s.raised high))
    rw [hsame]
    exact hf s s hs
  create := by
    intro α f hf s hs
    change Steps.Follows low high (.answer (.ok (f s).1, (f s).2))
      (.answer (.ok (f (s.raised high)).1, (f (s.raised high)).2))
    rw [hf.steady.raised]
    exact .answer ((hf.steady.maxDepth_eq s).trans hs)
  enter_bind hf s hs := hf _ trivial (s.enter _ _).2 hs
  attempt _ _ hs := .ask hs fun _ _ => .answer
  callFunction f arguments line := by
    intro s hs
    rcases Nat.lt_or_ge s.depth s.maxDepth with hlt | hle'
    -- What is admitted under the lower limit is admitted under the higher one.
    · have hlt' : (s.raised high).depth < (s.raised high).maxDepth :=
        Nat.lt_of_lt_of_le hlt (hs ▸ hle)
      let entered := s.deeper.enter .function f.scope
      have hcalled : (entered.2.raised high).bindArguments entered.1 f arguments =
          (entered.2.bindArguments entered.1 f arguments).raised high :=
        congrArg Prod.snd State.steady_bindArguments.raised
      have hmaxDepth : (entered.2.bindArguments entered.1 f arguments).maxDepth = low :=
        (State.steady_bindArguments.maxDepth_eq entered.2).trans hs
      rw [callFunction_entered hlt, callFunction_entered hlt']
      change Steps.Follows low high _
        (.ask (_, (entered.2.raised high).bindArguments entered.1 f arguments) _)
      rw [hcalled]
      refine .ask hmaxDepth fun o s' hs' => ?_
      rcases o with (error | v | _ | _) | v <;> exact .answer hs'
    -- Where the lower limit refuses the call, nothing is asked of the other computation.
    · rw [callFunction_refused hle']
      exact .refused trivial

/-- While the computation is evaluated from `s`, no call is refused. A refused call ends the task that makes
it, and nothing else ends a task that way at first. -/
def Unrefused (c : Eval Value) (s : State) : Prop :=
  ∀ waiting signal s', signal.IsRefusal →
    ¬ Dialogue.Moment answer (c.run.run s) waiting (.answer (.error signal, s'))

theorem Unrefused.of_meets {C : Contract} {c : Eval Value} {s : State}
    (hbody : ∀ task s, C.pre task s → (body task).Meets C s (C.post task s))
    (hpost : ∀ task s o s', C.pre task s → C.post task s o s' →
      ∀ signal, o = .error signal → ¬ signal.IsRefusal)
    (hc : c.Meets C s fun o _ => ∀ signal, o = .error signal → ¬ signal.IsRefusal) :
    c.Unrefused s := by
  intro waiting signal s' hsignal hmoment
  obtain ⟨good, hrunning, hgood, -⟩ := hmoment.meets
    (fun r : Outcome × State => ∀ signal, r.1 = .error signal → ¬ signal.IsRefusal)
    (fun q hq => hbody q.1 q.2 hq) (fun q r => hpost q.1 q.2 r.1 r.2) hc
  exact hgood _ hrunning signal rfl hsignal

theorem Unrefused.drive_raised {c : Eval Value} {start : State} (hstart : c.Unrefused start)
    (hle : low ≤ high) {steps : Nat}
    {waiting waiting' : List (Outcome × State → Steps (Outcome × State))}
    {d d' : Steps (Outcome × State)}
    (hmoment : Dialogue.Moment answer (c.run.run start) waiting d)
    (hd : Steps.Follows low high d d')
    (hwaiting : List.Forall₂ (fun k k' => ∀ o s, s.maxDepth = low →
      Steps.Follows low high (k (o, s)) (k' (o, s.raised high))) waiting waiting')
    {o : Outcome} {s : State} (h : Dialogue.drive answer steps waiting d = some (o, s)) :
    Dialogue.drive answer steps waiting' d' = some (o, s.raised high) := by
  -- Both drivers go in lockstep; what waits under the one limit is followed by what waits under the other.
  induction steps generalizing waiting waiting' d d' with
  | zero => simp [Dialogue.drive] at h
  | succ steps ih =>
    cases hd with
    | refused hf => exact absurd hmoment (hstart _ _ _ hf)
    | @answer r s' hs' =>
      cases hwaiting with
      | nil =>
        cases h
        rfl
      | cons hfirst hrest => exact ih (.answered hmoment) (hfirst _ _ hs') hrest h
    | @ask task s' resume resume' hs' hresume =>
      simp only [Dialogue.drive] at h ⊢
      exact ih (.asked hmoment) ((rises_uniform hle).body task s' hs') (.cons hresume hwaiting) h

end Eval

/-- If no call is refused, an evaluation with a higher limit ends the same way and in the same state but
for the limit. -/
theorem Evaluation.ends_raised {e : Evaluation} {s s' : State} {o : Outcome} {limit : Nat}
    (hlimit : s.maxDepth ≤ limit) (hunrefused : e.run.Unrefused s) (hends : e.run.Ends s o s') :
    e.run.Ends (s.raised limit) o (s'.raised limit) := by
  obtain ⟨steps, hsteps⟩ := hends
  have hfollows := (Eval.rises_uniform hlimit).run e s rfl
  exact ⟨steps, hunrefused.drive_raised hlimit .start hfollows .nil hsteps⟩

/-- A call that a limit of one permits ends with a limit of two as well. -/
theorem idle_ends_raised :
    ∃ o s', (Evaluation.call (.function idle) [] ⟨0⟩ 1).run.Ends ((State.initial 1).raised 2) o s' := by
  have hends : (Evaluation.call (.function idle) [] ⟨0⟩ 1).run.Ends (.initial 1) (.ok .null)
      ((State.initial 1).enter .function ⟨0⟩).2 :=
    ⟨3, rfl⟩
  have hunrefused : (Evaluation.call (.function idle) [] ⟨0⟩ 1).run.Unrefused (.initial 1) := by
    let C : Contract := ⟨fun task _ => ∃ scope, task = .block scope [], fun _ _ o _ => o = .ok .null⟩
    have hbody : ∀ task s, C.pre task s → (Eval.body task).Meets C s (C.post task s) := by
      rintro task s ⟨scope, rfl⟩
      exact rfl
    refine .of_meets hbody (fun _ _ o _ _ ho signal hsignal => ?_) ⟨⟨_, rfl⟩, ?_⟩
    · cases ho.symm.trans hsignal
    · rintro ⟨o, s⟩ rfl signal hsignal
      cases hsignal
  exact ⟨_, _, Evaluation.ends_raised (by decide) hunrefused hends⟩

end ScriptLang
