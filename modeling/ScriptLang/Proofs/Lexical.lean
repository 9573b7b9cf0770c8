import ScriptLang.Proofs.Session

/-! Loop control and the place of a statement. A run tells of each task that it comes to whether the task
lies in the body of a loop, by what asks for what alone: blocks that a loop asks for are its bodies, the
body of a function starts over, and all else lies where that lies which asks for it. Scopes permit loop
control exactly where code lies so. -/

namespace ScriptLang

namespace Eval

/-- The run of `start` from `s₀` comes to a task. What is asked for one call deeper is the body of a
function. -/
inductive Visits (start : Task) (s₀ : State) : Task → State → (inLoop : Bool) → Prop
  | start : Visits start s₀ start s₀ false
  | asked {t t' : Task} {s s' : State} {inLoop : Bool} {resume : Outcome × State → Steps (Outcome × State)}
      (h : Visits start s₀ t s inLoop)
      (hasks : Dialogue.Leads answer ((body t).run.run s) (.ask (t', s') resume)) :
      Visits start s₀ t' s'
        (if s'.depth = s.depth then inLoop || (t.isLoop && t'.isBlock) else false)

theorem Visits.of_moment {start t : Task} {s₀ s : State}
    {waiting : List (Outcome × State → Steps (Outcome × State))}
    {resume : Outcome × State → Steps (Outcome × State)}
    (h : Dialogue.Moment answer ((perform start).run.run s₀) waiting (.ask (t, s) resume)) :
    ∃ inLoop, Visits start s₀ t s inLoop := by
  refine h.asked_of_ask (fun q : Task × State => ∃ inLoop, Visits start s₀ q.1 q.2 inLoop) ?_ ?_
  · intro q resume hleads
    cases hleads with
    | refl => exact ⟨false, .start⟩
    | ask _ hleads => cases hleads
  · rintro q ⟨inLoop, hvisits⟩ q' resume hleads
    exact ⟨_, hvisits.asked hleads⟩

/-- The run comes to a statement of a block, which those before it have led to. -/
inductive Executes (start : Task) (s₀ : State) (scope : ScopeId) (st : Stmt Nat) (s : State)
    (inLoop : Bool) : Prop
  | intro (front back : List (Stmt Nat)) (before : State) (v : Value)
      (h : Visits start s₀ (.block scope (front ++ st :: back)) before inLoop)
      (hfront : (executeAll scope .null front).Ends before (.ok v) s)

end Eval

/-- The word of a `break` or `continue`, and what it signals. -/
def Stmt.loopControl? {ι : Type} : Stmt ι → Option (String × Signal × Nat)
  | .breaks line => some ("break", .broke, line)
  | .continues line => some ("continue", .continued, line)
  | _ => none

theorem Eval.execute_loopControl {st : Stmt Nat} {word : String} {signal : Signal} {line : Nat}
    (h : st.loopControl? = some (word, signal, line)) {scope : ScopeId} {s : State} :
    (Eval.execute scope st).run.run s = .answer (.error
      (if s.permitsLoopControl scope then signal
        else .raised (.fault (.loopControlOutsideLoop word line))), s) := by
  have hcontrol : ∀ word signal line, (Eval.loopControl scope word signal line).run.run s =
      .answer (.error (if s.permitsLoopControl scope then signal
        else .raised (.fault (.loopControlOutsideLoop word line))), s) := by
    intro word signal line
    change (if s.permitsLoopControl scope then throw signal
      else fault (.loopControlOutsideLoop word line) : Eval Value).run.run s = _
    split <;> rfl
  match st with
  | .breaks _ | .continues _ =>
    cases h
    exact hcontrol _ _ _

variable {N : Norm} {start t : Task} {s₀ s s' : State} {scope : ScopeId} {st : Stmt Nat} {inLoop : Bool}

theorem Norm.Begins.visits (h : N.Begins start s₀) (hpermits : s₀.permitsLoopControl start.scope = false)
    (hvisits : Eval.Visits start s₀ t s inLoop) :
    N.Begins t s ∧ s.permitsLoopControl t.scope = inLoop := by
  induction hvisits with
  | start => exact ⟨h, hpermits⟩
  | @asked t t' s s' inLoop resume _ hasks ih =>
    obtain ⟨hbegins, rfl⟩ := ih
    obtain ⟨⟨hbegins', hplace⟩, -⟩ := hasks.meets N.contract.question
      (fun q hq => N.body_meets q.1 q.2 hq) (fun _ hq => hq.1) hbegins.body_meets
    refine ⟨hbegins', ?_⟩
    -- At the same depth the place is that of the spot's label, and the body of a function starts over.
    rcases hplace with ⟨hdepth, hpermits'⟩ | ⟨hdepth, hpermits'⟩
    · change s'.depth = s.depth at hdepth
      rw [if_pos hdepth]
      exact hpermits'
    · change s'.depth = s.depth + 1 at hdepth
      rw [if_neg (by omega)]
      exact hpermits'

theorem Located.stmts_append {ι : Type} {front back : List (Stmt ι)} :
    Located.stmts inLoop (front ++ back) =
      Located.stmts inLoop front ++ Located.stmts inLoop back := by
  induction front with
  | nil => rfl
  | cons s rest ih => simp [Located.stmts, ih]

theorem Norm.Begins.executes (h : N.Begins start s₀)
    (hpermits : s₀.permitsLoopControl start.scope = false)
    (hexecutes : Eval.Executes start s₀ scope st s inLoop) :
    s.permitsLoopControl scope = inLoop ∧ N.known (inLoop, st) := by
  obtain ⟨front, back, before, v, hvisits, hfront⟩ := hexecutes
  obtain ⟨hbegins, rfl⟩ := h.visits hpermits hvisits
  have hcode := hbegins.code
  rw [Task.located, Located.stmts_append, Norm.knows_append, Located.stmts, Norm.knows_cons] at hcode
  let k : Spot := Spot.ofTask (.block scope (front ++ st :: back)) before
  have hruns : k.Runs N before.classes.size (Eval.executeAll scope .null front)
      (Value.Conforms N) :=
    .executeAll rfl trivial hcode.1
  have hprogress := (hruns.ends ⟨hbegins.conforms, hbegins.scope_lt, rfl, rfl⟩ (Nat.le_refl _) hfront).1
  exact ⟨hprogress.permits_eq _ hbegins.scope_lt, hcode.2.1⟩

namespace State.Session

variable {programs : Program Nat → Prop} {source : Source}

/-- Loop control is refused only for a statement outside of loops. -/
theorem exists_outside (h : s.Session programs) (hscope : scope.index < s.scopes.size)
    (hpermits : s.permitsLoopControl scope = false) (hprogram : programs (s.load source).1)
    {waiting : List (Outcome × State → Steps (Outcome × State))} {word : String} {line : Nat}
    (hmoment : Dialogue.Moment Eval.answer
      ((Eval.perform (.block scope (s.load source).1)).run.run (s.load source).2) waiting
      (.answer (.error (.raised (.fault (.loopControlOutsideLoop word line))), s'))) :
    ∃ p st signal, programs p ∧ (false, st) ∈ Located.stmts false p ∧
      st.loopControl? = some (word, signal, line) := by
  obtain ⟨control, hfault⟩ := ((h.begins hscope hpermits hprogram).moment hmoment).2 _ _ rfl
  rcases hfault with ⟨rfl, p, hp, hmem⟩ | ⟨rfl, p, hp, hmem⟩
  · exact ⟨p, _, _, hp, hmem, rfl⟩
  · exact ⟨p, _, _, hp, hmem, rfl⟩

/-- When programs are run one after another, the scope of whatever is run at some moment permits loop
control exactly if it lies in the body of a loop. So a `break` or `continue` that is executed there takes
effect, and elsewhere it is refused; if all of them lie in bodies of loops then none is ever refused. -/
theorem permitsLoopControl_eq_inLoop (scope : ScopeId) (source : Source) (h : s.Session programs)
    (hscope : scope.index < s.scopes.size) (hpermits : s.permitsLoopControl scope = false)
    (hprogram : programs (s.load source).1) :
    (∀ waiting t s' resume,
      Dialogue.Moment Eval.answer
          ((Eval.perform (.block scope (s.load source).1)).run.run (s.load source).2) waiting
          (.ask (t, s') resume) →
        ∃ inLoop, Eval.Visits (.block scope (s.load source).1) (s.load source).2 t s' inLoop ∧
          s'.permitsLoopControl t.scope = inLoop) ∧
    (∀ inner st s' inLoop,
      Eval.Executes (.block scope (s.load source).1) (s.load source).2 inner st s' inLoop →
        s'.permitsLoopControl inner = inLoop ∧
        (∃ p, programs p ∧ (inLoop, st) ∈ Located.stmts false p) ∧
        ∀ word signal line, st.loopControl? = some (word, signal, line) →
          (Eval.execute inner st).run.run s' = .answer (.error
            (if inLoop then signal else .raised (.fault (.loopControlOutsideLoop word line))), s')) ∧
    ((∀ p inLoop st, programs p → (inLoop, st) ∈ Located.stmts false p →
        st.loopControl?.isSome → inLoop = true) →
      ∀ waiting word line s', ¬ Dialogue.Moment Eval.answer
        ((Eval.perform (.block scope (s.load source).1)).run.run (s.load source).2) waiting
        (.answer (.error (.raised (.fault (.loopControlOutsideLoop word line))), s'))) := by
  have hbegins := h.begins hscope hpermits hprogram
  refine ⟨fun waiting t s' resume hmoment => ?_, fun inner st s' inLoop hexecutes => ?_,
    fun hinside waiting word line s' hmoment => ?_⟩
  · obtain ⟨inLoop, hvisits⟩ := Eval.Visits.of_moment hmoment
    exact ⟨inLoop, hvisits, (hbegins.visits hpermits hvisits).2⟩
  · obtain ⟨rfl, hknown⟩ := hbegins.executes hpermits hexecutes
    exact ⟨rfl, hknown, fun word signal line hcontrol => Eval.execute_loopControl hcontrol⟩
  · obtain ⟨p, st, signal, hp, hmem, hcontrol⟩ := h.exists_outside hscope hpermits hprogram hmoment
    cases hinside p false st hp hmem (by rw [hcontrol]; rfl)

end State.Session

/-- A loop whose body is a `break`. -/
def looping : Source :=
  [.whileLoop (.place (.variable "true" 1)) [.breaks 1] 1]

/-- The `break` takes effect, and it is never refused. -/
theorem looping_inLoop :
    let s := (State.initial 0).newGlobal.2
    (∃ inner s', Eval.Executes (.block ⟨0⟩ (s.load looping).1) (s.load looping).2 inner (.breaks 1) s'
        true ∧
      (Eval.execute inner (.breaks 1)).run.run s' = .answer (.error .broke, s')) ∧
    ∀ waiting word line s', ¬ Dialogue.Moment Eval.answer
      ((Eval.perform (.block ⟨0⟩ (s.load looping).1)).run.run (s.load looping).2) waiting
      (.answer (.error (.raised (.fault (.loopControlOutsideLoop word line))), s')) := by
  intro s
  let body : List (Stmt Nat) := [.breaks 1]
  let test : Expr Nat := .place (.variable "true" 1)
  let start : Task := .block ⟨0⟩ (s.load looping).1
  let loaded : State := (s.load looping).2
  have htest : Dialogue.Ends Eval.answer (Eval.answer (.expression ⟨0⟩ test, loaded))
      (.ok (.bool true), loaded) := by
    have hget : (loaded.scope ⟨0⟩).bindings.get? "true" = some ⟨.bool true, true⟩ := rfl
    exact Eval.gives_inspect (State.lookup_of_get? hget)
  have hloop : Eval.Visits start loaded (.whileLoop ⟨0⟩ test body .null) loaded false :=
    .asked .start (.refl _)
  have hbody : Eval.Visits start loaded (.block ⟨1⟩ body) (loaded.enter .loop ⟨0⟩).2 true :=
    .asked hloop (.ask htest (.refl _))
  have hexecutes : Eval.Executes start loaded ⟨1⟩ (.breaks 1) (loaded.enter .loop ⟨0⟩).2 true :=
    ⟨[], [], _, .null, hbody, ⟨1, rfl⟩⟩
  have hs : s.Session (· = (s.load looping).1) := .global (.initial 0)
  have hlocated : Located.stmts false (s.load looping).1 =
      [(false, .whileLoop test body 1), (true, .breaks 1)] :=
    rfl
  obtain ⟨-, hexecuted, hraised⟩ := hs.permitsLoopControl_eq_inLoop ⟨0⟩ looping (by decide) rfl rfl
  refine ⟨⟨_, _, hexecutes, (hexecuted _ _ _ _ hexecutes).2.2 "break" .broke 1 rfl⟩, hraised ?_⟩
  rintro p inLoop st rfl hmem hcontrol
  rw [hlocated] at hmem
  rcases List.mem_cons.mp hmem with heq | hmem
  · cases heq
    cases hcontrol
  · cases List.mem_singleton.mp hmem
    rfl

end ScriptLang
