import ScriptLang.Proofs.Conduct
import ScriptLang.Proofs.Raising

/-! What happens once a `return` or an error has cut a computation short. All that waits for the task at
hand passes it on, up to the call that takes up the `return` or to the `try` that takes up the error. -/

namespace ScriptLang

/-- The body of a `try` and the state it starts from. -/
def State.tried (s : State) (scope : ScopeId) (body : List (Stmt Nat)) : Task × State :=
  let (inner, s) := s.enter .child scope
  (.block inner body, s)

/-- The body of a called function and the state it starts from. -/
def State.calledBody (s : State) (f : Closure) (arguments : List Value) : Task × State :=
  let (scope, s) := s.called f arguments
  (.block scope f.function.body, s)

namespace Eval

/-- Makes the error known to the handler and runs it. -/
def handle (scope : ScopeId) (handler : List (Stmt Nat)) (error : RuntimeError) : Eval Value := do
  declare scope "error" error.caught false
  blockIn .child scope handler

theorem callFunction_ends_returned {f : Closure} {arguments : List Value} {line : Nat} {v : Value}
    {s s' : State} (hlt : s.depth < s.maxDepth)
    (h : Dialogue.Ends answer (answer (s.calledBody f arguments)) (.error (.returned v), s')) :
    (callFunction f arguments line).Ends s (.ok v) s'.shallower := by
  refine Dialogue.exists_drive_iff_ends.mpr ?_
  rw [callFunction_entered hlt]
  exact .ask h (.answer _)

theorem attemptBlock_run {scope : ScopeId} {body handler : List (Stmt Nat)} {s : State} :
    (attemptBlock scope body handler).run.run s =
      .ask (s.tried scope body) fun (o, s') =>
        (match o with
          | .error (.raised error) => handle scope handler error
          | outcome => conclude outcome).run.run s' :=
  rfl

end Eval

namespace Steps

open Eval (attemptBlock callFunction handle)

/-- What goes on once a task has ended. -/
abbrev Resume (α : Type) : Type :=
  Outcome × State → Steps (Except Signal α × State)

variable {α β : Type} {q : Task × State} {resume : Resume α}

/-- The first task that the computation asks for, and what then waits for its end. -/
def Awaits (c : Eval α) (q : Task × State) (resume : Resume α) : Prop :=
  ∃ s, c.run.run s = .ask q resume

theorem Awaits.bind {c : Eval α} (h : Awaits c q resume) (f : α → Eval β) :
    Awaits (c >>= f) q fun r => (resume r).andThen f := by
  obtain ⟨s, hs⟩ := h
  exact ⟨s, by rw [run_bind, hs]; rfl⟩

/-! ### What waits for a body -/

section Bodies

variable {next : Value → Eval α} {s s' : State}

/-- A `try` asks for its body. It passes on a `return` and takes up an error. -/
theorem attemptBlock_bind_run {scope : ScopeId} {body handler : List (Stmt Nat)}
    (h : (attemptBlock scope body handler >>= next).run.run s = .ask q resume) :
    q = s.tried scope body ∧
      (∀ v s', resume (.error (.returned v), s') = .answer (.error (.returned v), s')) ∧
      ∀ error s', resume (.error (.raised error), s') =
        (handle scope handler error >>= next).run.run s' := by
  rw [run_bind, Eval.attemptBlock_run] at h
  cases h
  exact ⟨rfl, fun _ _ => rfl, fun _ _ => (run_bind ..).symm⟩

/-- A call that is not refused asks for the body of the function. It takes up a `return` and passes on an
error. -/
theorem callFunction_bind_run {f : Closure} {arguments : List Value} {line : Nat}
    (h : (callFunction f arguments line >>= next).run.run s = .ask q resume) :
    s.depth < s.maxDepth ∧
      q = s.calledBody f arguments ∧
      (∀ v s', resume (.error (.returned v), s') = (next v).run.run s'.shallower) ∧
      ∀ error s', resume (.error (.raised error), s') =
        .answer (.error (.raised error), s'.shallower) := by
  rw [run_bind] at h
  rcases Nat.lt_or_ge s.depth s.maxDepth with hlt | hle
  · rw [Eval.callFunction_entered hlt] at h
    cases h
    exact ⟨hlt, rfl, fun _ _ => rfl, fun _ _ => rfl⟩
  · rw [Eval.callFunction_refused hle] at h
    cases h

end Bodies

/-! ### Frames -/

/-- What may wait for the end of a task: a position that passes on any `return` and any error, a `try` for
its body, or a call for the body of the function. The last two may stand anywhere in a computation. -/
inductive Frame (q : Task × State) (resume : Resume α) : Prop
  | position (hreturned : ∀ v s, resume (.error (.returned v), s) = .answer (.error (.returned v), s))
      (hraised : ∀ error s, resume (.error (.raised error), s) = .answer (.error (.raised error), s))
  | tryBody {scope : ScopeId} {body handler : List (Stmt Nat)} (next : Value → Eval α)
      (h : Awaits (attemptBlock scope body handler >>= next) q resume)
  | callBody {f : Closure} {arguments : List Value} {line : Nat} (next : Value → Eval α)
      (h : Awaits (callFunction f arguments line >>= next) q resume)

theorem Frame.andThen (h : Frame q resume) (f : α → Eval β) : Frame q fun r => (resume r).andThen f := by
  cases h with
  | position hreturned hraised =>
    exact .position (fun v s => by rw [hreturned]; rfl) fun error s => by rw [hraised]; rfl
  | tryBody next h => exact .tryBody (fun a => next a >>= f) (by rw [← bind_assoc]; exact h.bind f)
  | callBody next h => exact .callBody (fun a => next a >>= f) (by rw [← bind_assoc]; exact h.bind f)

/-- Whatever waits for a task in the course of the dialogue is a frame. -/
inductive Framed : Steps (Except Signal α × State) → Prop
  | answer (r : Except Signal α × State) : Framed (.answer r)
  | ask {q : Task × State} {resume : Resume α}
      (hframe : Frame q resume) (h : ∀ o s, Framed (resume (o, s))) : Framed (.ask q resume)

theorem Framed.andThen {d : Steps (Except Signal α × State)} {f : α → Eval β} (h : Framed d)
    (hf : ∀ a s, Framed ((f a).run.run s)) : Framed (d.andThen f) := by
  induction h with
  | answer r =>
    obtain ⟨signal | a, s⟩ := r
    · exact .answer _
    · exact hf a s
  | ask hframe _ ih => exact .ask (hframe.andThen f) ih

end Steps

namespace Eval

open Steps (Awaits Framed)

/-- From every state on, whatever waits for a task is a frame. -/
def Framing ⦃α : Type⦄ (c : Eval α) : Prop :=
  ∀ s, Framed (c.run.run s)

theorem framing_compositional : Compositional (fun _ => True) Framing where
  pure _ _ := .answer _
  throw _ _ := .answer _
  bind hc hf := by
    intro s
    rw [Steps.run_bind]
    exact (hc s).andThen hf
  get_bind _ hf := fun s => hf s s
  create _ _ := .answer _
  enter_bind hf _ := hf _ trivial _
  attempt_bind {α task f} _ hreturned hraised hf := by
    intro s
    refine .ask (.position (fun v s' => ?_) fun error s' => ?_) fun o s' => hf o s'
    · exact congrArg (fun c : Eval α => c.run.run s') (hreturned v)
    · exact congrArg (fun c : Eval α => c.run.run s') (hraised error)
  -- A `try` waits for its body as a frame of its own, and for its handler as any position does.
  attemptBlock {scope} body handler _ := by
    intro s
    have hframe : Awaits (attemptBlock scope body handler >>= Pure.pure) _ _ :=
      ⟨s, by rw [bind_pure, attemptBlock_run]⟩
    rw [attemptBlock_run]
    refine .ask (.tryBody Pure.pure hframe) fun o s' => ?_
    rcases o with (error | _ | _ | _) | v
    · exact .ask (.position (fun _ _ => rfl) fun _ _ => rfl) fun _ _ => .answer _
    all_goals exact .answer _
  callFunction f arguments line := by
    intro s
    rcases Nat.lt_or_ge s.depth s.maxDepth with hlt | hle
    · have hframe : Awaits (callFunction f arguments line >>= Pure.pure) _ _ :=
        ⟨s, by rw [bind_pure, callFunction_entered hlt]⟩
      rw [callFunction_entered hlt]
      refine .ask (.callBody Pure.pure hframe) fun o s' => ?_
      rcases o with (error | v | _ | _) | v <;> exact .answer _
    · rw [callFunction_refused hle]
      exact .answer _

end Eval

/-! ### Moments -/

open Steps (Resume)

/-- The evaluation from `s₀` on comes to where this dialogue runs and the others wait. -/
def Evaluation.Comes (e : Evaluation) (s₀ : State) (waiting : List (Resume Value))
    (running : Steps (Outcome × State)) : Prop :=
  Dialogue.Moment Eval.answer (e.run.run.run s₀) waiting running

namespace Steps

/-- Any `return` is passed on at once. -/
def PassesReturn (resume : Resume Value) : Prop :=
  ∀ v s, resume (.error (.returned v), s) = .answer (.error (.returned v), s)

/-- Any error is passed on at once, which changes nothing but the depth of calls. -/
def PassesError (resume : Resume Value) : Prop :=
  ∀ error s, ∃ depth,
    resume (.error (.raised error), s) = .answer (.error (.raised error), { s with depth })

variable {q : Task × State} {resume : Resume Value} {next : Value → Eval Value}

/-- What takes up a `return` lessens the depth of calls, if there is any. -/
theorem PassesReturn.not_awaits_callFunction (h : PassesReturn resume) {f : Closure}
    {arguments : List Value} {line : Nat} :
    ¬ Awaits (Eval.callFunction f arguments line >>= next) q resume := by
  rintro ⟨s, hs⟩
  obtain ⟨-, -, hreturned, -⟩ := callFunction_bind_run hs
  have hzero : resume (.error (.returned .null), { s with depth := 0 }) =
    resume (.error (.returned .null), { s with depth := 1 }) := by rw [hreturned, hreturned]; rfl
  rw [h, h] at hzero
  cases hzero

theorem PassesError.not_awaits_attemptBlock (h : PassesError resume) {scope : ScopeId}
    {body handler : List (Stmt Nat)} :
    ¬ Awaits (Eval.attemptBlock scope body handler >>= next) q resume := by
  rintro ⟨s, hs⟩
  obtain ⟨-, -, hraised⟩ := attemptBlock_bind_run hs
  obtain ⟨depth, hpassed⟩ := h (.fault (.recursionLimit 0 0)) s
  rw [hraised] at hpassed
  cases hpassed

end Steps

open Steps (Awaits Frame Framed PassesReturn PassesError)

theorem exists_longest_front {α : Type} (p : α → Prop) (as : List α) :
    ∃ front rest, as = front ++ rest ∧ (∀ a ∈ front, p a) ∧ ∀ a ∈ rest.head?, ¬ p a := by
  induction as with
  | nil => exact ⟨[], [], rfl, nofun, nofun⟩
  | cons a as ih =>
    by_cases h : p a
    · obtain ⟨front, rest, rfl, hfront, hrest⟩ := ih
      exact ⟨a :: front, rest, rfl, List.forall_mem_cons.mpr ⟨h, hfront⟩, hrest⟩
    · refine ⟨[], a :: as, rfl, nofun, ?_⟩
      rintro _ ⟨⟩
      exact h

namespace Evaluation

variable {e : Evaluation} {s₀ s : State} {waiting : List (Resume Value)}

theorem Comes.framed {running : Steps (Outcome × State)} (h : e.Comes s₀ waiting running) :
    Framed running ∧ ∀ resume ∈ waiting, ∀ o s, Framed (resume (o, s)) := by
  induction h with
  | start => exact ⟨Eval.framing_compositional.run e trivial s₀, nofun⟩
  | asked _ ih =>
    obtain ⟨hrunning, hwaiting⟩ := ih
    cases hrunning with
    | ask _ hresume =>
      exact ⟨Eval.framing_compositional.body _ trivial _, List.forall_mem_cons.mpr ⟨hresume, hwaiting⟩⟩
  | answered _ ih =>
    obtain ⟨-, hwaiting⟩ := ih
    obtain ⟨hresume, hrest⟩ := List.forall_mem_cons.mp hwaiting
    exact ⟨hresume _ _, hrest⟩

theorem Comes.frame {q : Task × State} {resume : Resume Value}
    (h : e.Comes s₀ waiting (.ask q resume)) : Frame q resume := by
  cases h.framed.1 with
  | ask hframe _ => exact hframe

/-- All that waits in the innermost call passes on the `return` of `v`, which then is the result of the
call; outside of calls the evaluation ends with it. Nothing else is done meanwhile. -/
def ReturnTaken (e : Evaluation) (s₀ : State) (waiting : List (Resume Value)) (v : Value)
    (s : State) : Prop :=
  ∃ front, (∀ resume ∈ front, PassesReturn resume ∧
      ∀ q f arguments line next, ¬ Awaits (Eval.callFunction f arguments line >>= next) q resume) ∧
    ((waiting = front ∧ e.run.Ends s₀ (.error (.returned v)) s) ∨
      ∃ call back f arguments line next s₁, waiting = front ++ call :: back ∧
        e.Comes s₀ back ((Eval.callFunction f arguments line >>= next).run.run s₁) ∧
        Dialogue.Moment Eval.answer (Eval.answer (s₁.calledBody f arguments)) front
          (.answer (.error (.returned v), s)) ∧
        (Eval.callFunction f arguments line).Ends s₁ (.ok v) s.shallower ∧
        e.Comes s₀ back ((next v).run.run s.shallower))

/-- All that waits in the innermost `try` passes on the error, which then is made known to the handler;
outside of any `try` the evaluation ends with it. Meanwhile nothing is done but to leave calls. -/
def ErrorTaken (e : Evaluation) (s₀ : State) (waiting : List (Resume Value)) (error : RuntimeError)
    (s : State) : Prop :=
  ∃ front depth, (∀ resume ∈ front, PassesError resume ∧
      ∀ q scope body handler next, ¬ Awaits (Eval.attemptBlock scope body handler >>= next) q resume) ∧
    ((waiting = front ∧ e.run.Ends s₀ (.error (.raised error)) { s with depth }) ∨
      ∃ guard back scope body handler next s₁, waiting = front ++ guard :: back ∧
        e.Comes s₀ back ((Eval.attemptBlock scope body handler >>= next).run.run s₁) ∧
        Dialogue.Moment Eval.answer (Eval.answer (s₁.tried scope body)) front
          (.answer (.error (.raised error), s)) ∧
        e.Comes s₀ back ((Eval.handle scope handler error >>= next).run.run { s with depth }))

section Pass

variable {body : Task × State → Steps (Outcome × State)} {start : Steps (Outcome × State)}
  {front rest : List (Resume Value)}

theorem pass_return {v : Value} (hfront : ∀ resume ∈ front, PassesReturn resume)
    (h : Dialogue.Moment body start (front ++ rest) (.answer (.error (.returned v), s))) :
    Dialogue.Moment body start rest (.answer (.error (.returned v), s)) := by
  obtain ⟨_, rfl, hrest⟩ := h.pass (· = (.error (.returned v), s))
    (fun resume hresume r hr => ⟨_, rfl, by rw [hr, hfront resume hresume]⟩) rfl
  exact hrest

theorem pass_error {error : RuntimeError} (hfront : ∀ resume ∈ front, PassesError resume)
    (h : Dialogue.Moment body start (front ++ rest) (.answer (.error (.raised error), s))) :
    ∃ depth, Dialogue.Moment body start rest (.answer (.error (.raised error), { s with depth })) := by
  have hpasses : ∀ resume ∈ front, ∀ r, (∃ depth, r = (.error (.raised error), { s with depth })) →
      ∃ r', (∃ depth, r' = (.error (.raised error), { s with depth })) ∧ resume r = .answer r' := by
    rintro resume hresume _ ⟨depth, rfl⟩
    obtain ⟨depth', hpassed⟩ := hfront resume hresume error { s with depth }
    exact ⟨_, ⟨depth', rfl⟩, hpassed⟩
  obtain ⟨_, ⟨depth, rfl⟩, hrest⟩ := h.pass _ hpasses ⟨s.depth, rfl⟩
  exact ⟨depth, hrest⟩

end Pass

theorem Comes.returnTaken {v : Value} (h : e.Comes s₀ waiting (.answer (.error (.returned v), s))) :
    e.ReturnTaken s₀ waiting v s := by
  -- What passes the `return` on stands in front of the first frame that does not, which is a call.
  obtain ⟨front, rest, rfl, hfront, hstop⟩ := exists_longest_front PassesReturn waiting
  have hrest := pass_return hfront h
  refine ⟨front, fun resume hresume => ⟨hfront resume hresume, fun _ _ _ _ _ => ?_⟩, ?_⟩
  · exact (hfront resume hresume).not_awaits_callFunction
  cases rest with
  | nil => exact .inl ⟨List.append_nil _, Dialogue.exists_drive_iff_ends.mpr hrest.ends⟩
  | cons call back =>
    obtain ⟨q, hasked, hcourse⟩ := h.exists_asked
    have hstops : ¬ PassesReturn call := hstop call rfl
    cases Comes.frame hasked with
    | position hreturned _ => exact absurd hreturned hstops
    | tryBody next hawaits =>
      obtain ⟨s₁, hs₁⟩ := hawaits
      obtain ⟨-, hreturned, -⟩ := Steps.attemptBlock_bind_run hs₁
      exact absurd hreturned hstops
    | @callBody f arguments line next hawaits =>
      obtain ⟨s₁, hs₁⟩ := hawaits
      obtain ⟨hlt, rfl, hreturned, -⟩ := Steps.callFunction_bind_run hs₁
      have hbody : Dialogue.Moment Eval.answer (Eval.answer (s₁.calledBody f arguments)) (front ++ [])
          (.answer (.error (.returned v), s)) := by rwa [List.append_nil]
      refine .inr ⟨call, back, f, arguments, line, next, s₁, rfl, ?_, hcourse, ?_, ?_⟩
      · rw [hs₁]
        exact hasked
      · exact Eval.callFunction_ends_returned hlt (pass_return hfront hbody).ends
      · rw [← hreturned]
        exact hrest.answered

theorem Comes.errorTaken {error : RuntimeError}
    (h : e.Comes s₀ waiting (.answer (.error (.raised error), s))) : e.ErrorTaken s₀ waiting error s := by
  obtain ⟨front, rest, rfl, hfront, hstop⟩ := exists_longest_front PassesError waiting
  obtain ⟨depth, hrest⟩ := pass_error hfront h
  refine ⟨front, depth, fun resume hresume => ⟨hfront resume hresume, fun _ _ _ _ _ => ?_⟩, ?_⟩
  · exact (hfront resume hresume).not_awaits_attemptBlock
  cases rest with
  | nil => exact .inl ⟨List.append_nil _, Dialogue.exists_drive_iff_ends.mpr hrest.ends⟩
  | cons guard back =>
    obtain ⟨q, hasked, hcourse⟩ := h.exists_asked
    have hstops : ¬ PassesError guard := hstop guard rfl
    cases Comes.frame hasked with
    | position _ hraised => exact absurd (fun error s => ⟨s.depth, hraised error s⟩) hstops
    | @callBody f arguments line next hawaits =>
      obtain ⟨s₁, hs₁⟩ := hawaits
      obtain ⟨-, -, -, hraised⟩ := Steps.callFunction_bind_run hs₁
      exact absurd (fun error s => ⟨s.shallower.depth, hraised error s⟩) hstops
    | @tryBody scope body handler next hawaits =>
      obtain ⟨s₁, hs₁⟩ := hawaits
      obtain ⟨rfl, -, hraised⟩ := Steps.attemptBlock_bind_run hs₁
      refine .inr ⟨guard, back, scope, body, handler, next, s₁, rfl, ?_, hcourse, ?_⟩
      · rw [hs₁]
        exact hasked
      · rw [← hraised]
        exact hrest.answered

theorem Comes.cut {c : Eval Value} {next : Value → Eval Value} {signal : Signal} {s' : State}
    (h : e.Comes s₀ waiting ((c >>= next).run.run s)) (hc : c.Ends s (.error signal) s') :
    e.Comes s₀ waiting (.answer (.error signal, s')) := by
  rw [Steps.run_bind] at h
  exact h.of_ends (Dialogue.exists_drive_iff_ends.mp hc) _

end Evaluation

theorem Eval.Ends.throw {c : Eval Value} {v : Value} {s s' : State} (h : c.Ends s (.ok v) s')
    (signal : Value → Signal) :
    (c >>= fun v => throw (signal v) : Eval Value).Ends s (.error (signal v)) s' :=
  Dialogue.exists_drive_iff_ends.mpr ((Dialogue.exists_drive_iff_ends.mp h).bind (.answer _))

/-- A `return` ends with its value and a `throw` with its error once their operands have ended, and a
statement that ends so is the end of the task it stands in. A task that has ended with a `return` is taken
by the innermost call, one that has ended with an error is taken by the innermost `try`, if there is any, and
in between nothing is evaluated. -/
theorem Evaluation.unwinds (e : Evaluation) (s₀ : State) :
    (∀ scope line s, (Eval.execute scope (.returns none line)).Ends s (.error (.returned .null)) s) ∧
    (∀ scope operand line v s s', (Eval.expression scope operand).Ends s (.ok v) s' →
      (Eval.execute scope (.returns (some operand) line)).Ends s (.error (.returned v)) s' ∧
      (Eval.execute scope (.throws operand line)).Ends s (.error (.raised (.thrown v line))) s') ∧
    (∀ waiting scope statement next s signal s',
      e.Comes s₀ waiting ((Eval.execute scope statement >>= next).run.run s) →
      (Eval.execute scope statement).Ends s (.error signal) s' →
      e.Comes s₀ waiting (.answer (.error signal, s'))) ∧
    (∀ waiting v s, e.Comes s₀ waiting (.answer (.error (.returned v), s)) →
      e.ReturnTaken s₀ waiting v s) ∧
    ∀ waiting error s, e.Comes s₀ waiting (.answer (.error (.raised error), s)) →
      e.ErrorTaken s₀ waiting error s := by
  refine ⟨fun scope line s => ⟨1, rfl⟩, fun scope operand line v s s' h => ⟨?_, ?_⟩, ?_, ?_, ?_⟩
  · exact h.throw .returned
  · exact h.throw fun v => .raised (.thrown v line)
  · exact fun waiting scope statement next s signal s' => Comes.cut
  · exact fun waiting v s => Comes.returnTaken
  · exact fun waiting error s => Comes.errorTaken

/-- A function that returns its name out of a `try`. -/
def leaver : Closure :=
  let tried : Expr Nat := .attempt [.returns (some (.string "leaver" 1)) 1] [] 1
  ⟨.mk 0 "leaver" [] [.expression tried 1] 1, ⟨0⟩, none⟩

/-- The `return` is taken by the call and not by the `try` that it stands in. A `throw` is taken by its
`try`. -/
theorem leaver_unwinds :
    (∃ waiting s, waiting.length = 3 ∧
      (Evaluation.call (.function leaver) [] ⟨0⟩ 1).ReturnTaken (.initial 1) waiting (.string "leaver") s) ∧
    ∃ waiting s, waiting.length = 2 ∧
      (Evaluation.expression ⟨0⟩ (.attempt [.throws (.string "e" 1) 1] [] 1)).ErrorTaken (.initial 1)
        waiting (.thrown (.string "e") 1) s := by
  constructor
  · let e : Evaluation := .call (.function leaver) [] ⟨0⟩ 1
    obtain ⟨-, hends, hcut, hreturned, -⟩ := Evaluation.unwinds e (.initial 1)
    have hcall : e.Comes (.initial 1) [] (.ask _ _) := .start
    have hblock : e.Comes (.initial 1) _ (.ask _ _) := hcall.asked
    have htry : e.Comes (.initial 1) _ (.ask _ _) := hblock.asked
    have hstatement : e.Comes (.initial 1) _ ((Eval.execute _ (.returns (some (.string "leaver" 1)) 1) >>=
      fun value => Eval.executeAll _ value []).run.run _) := htry.asked
    have hreturn := hcut _ _ _ _ _ _ _ hstatement (hends _ _ 1 _ _ _ ⟨3, rfl⟩).1
    exact ⟨_, _, rfl, hreturned _ _ _ hreturn⟩
  · let e : Evaluation := .expression ⟨0⟩ (.attempt [.throws (.string "e" 1) 1] [] 1)
    obtain ⟨-, hends, hcut, -, hraised⟩ := Evaluation.unwinds e (.initial 1)
    have hexpression : e.Comes (.initial 1) [] (.ask _ _) := .start
    have htry : e.Comes (.initial 1) _ (.ask _ _) := hexpression.asked
    have hstatement : e.Comes (.initial 1) _ ((Eval.execute _ (.throws (.string "e" 1) 1) >>=
      fun value => Eval.executeAll _ value []).run.run _) := htry.asked
    have hthrow := hcut _ _ _ _ _ _ _ hstatement (hends _ _ 1 _ _ _ ⟨3, rfl⟩).2
    exact ⟨_, _, rfl, hraised _ _ _ hthrow⟩

end ScriptLang
