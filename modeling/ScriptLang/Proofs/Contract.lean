import ScriptLang.Interpreter
import ScriptLang.Proofs.Dialogue

/-! Contracts of tasks, and rules for the computations that ask for them. -/

namespace ScriptLang

def Task.scope : Task → ScopeId
  | expression scope _ | block scope _ | whileLoop scope .. | forLoop scope .. => scope

/-- Under which condition a task may be asked for, and what its end then satisfies. -/
structure Contract where
  pre : Task → State → Prop
  post : Task → State → Outcome → State → Prop

namespace Contract

def question (C : Contract) (q : Task × State) : Prop :=
  C.pre q.1 q.2

def reply (C : Contract) (q : Task × State) (r : Outcome × State) : Prop :=
  C.post q.1 q.2 r.1 r.2

end Contract

namespace Eval

variable {α β : Type} {C : Contract} {s : State}

/-- The computation asks for tasks under their preconditions, and its end is good as long as theirs
are. -/
def Meets (C : Contract) (c : Eval α) (s : State) (good : Except Signal α → State → Prop) : Prop :=
  (c.run.run s).Meets C.question C.reply fun r => good r.1 r.2

section Meets

variable {good good' : Except Signal α → State → Prop}

theorem Meets.mono {c : Eval α} (h : c.Meets C s good) (hgood : ∀ r s', good r s' → good' r s') :
    c.Meets C s good' :=
  Dialogue.Meets.mono h (fun _ hq => hq) fun r => hgood r.1 r.2

theorem Meets.pre_mono {c : Eval α} {pre : Task → State → Prop} (h : c.Meets C s good)
    (hpre : ∀ t s', C.pre t s' → pre t s') : c.Meets ⟨pre, C.post⟩ s good :=
  Dialogue.Meets.mono h (fun q => hpre q.1 q.2) fun _ hr => hr

theorem Meets.all {ι : Type} [Nonempty ι] {c : Eval α}
    {good : ι → Except Signal α → State → Prop} (h : ∀ i, c.Meets C s (good i)) :
    c.Meets C s fun r s' => ∀ i, good i r s' :=
  Dialogue.Meets.all h

theorem meets_pure {a : α} : (pure a : Eval α).Meets C s good ↔ good (.ok a) s :=
  Iff.rfl

theorem meets_throw {signal : Signal} :
    (throw signal : Eval α).Meets C s good ↔ good (.error signal) s :=
  Iff.rfl

theorem meets_bind {c : Eval α} {f : α → Eval β} {good : Except Signal β → State → Prop} :
    (c >>= f).Meets C s good ↔
      c.Meets C s fun r s' =>
        match r with
        | .ok a => (f a).Meets C s' good
        | .error signal => good (.error signal) s' := by
  change ((c.run.run s).bind _).Meets _ _ _ ↔ _
  rw [Dialogue.meets_bind, Meets]
  constructor
  all_goals
    intro h
    refine h.mono (fun _ hq => hq) ?_
    rintro ⟨a | a, s'⟩ hr <;> exact hr

theorem meets_get {good : Except Signal State → State → Prop} :
    (get : Eval State).Meets C s good ↔ good (.ok s) s :=
  Iff.rfl

theorem meets_modify {f : State → State} {good : Except Signal Unit → State → Prop} :
    (modify f : Eval Unit).Meets C s good ↔ good (.ok ()) (f s) :=
  Iff.rfl

theorem meets_create {f : State → α × State} :
    (create f : Eval α).Meets C s good ↔ good (.ok (f s).1) (f s).2 :=
  Iff.rfl

theorem meets_perform {task : Task} {good : Outcome → State → Prop} :
    (perform task).Meets C s good ↔ C.pre task s ∧ ∀ o s', C.post task s o s' → good o s' :=
  and_congr_right fun _ => Prod.forall

theorem meets_attempt {task : Task} {good : Except Signal Outcome → State → Prop} :
    (attempt task).Meets C s good ↔ C.pre task s ∧ ∀ o s', C.post task s o s' → good (.ok o) s' :=
  and_congr_right fun _ => Prod.forall

end Meets

/-- The computation ends, with this outcome and in this state. -/
def Ends (c : Eval Value) (s : State) (o : Outcome) (s' : State) : Prop :=
  ∃ steps, Dialogue.drive answer steps [] (c.run.run s) = some (o, s')

theorem Ends.bind_iff {c : Eval Value} {f : Value → Eval Value} {v : Value} {o : Outcome}
    {s' s'' : State} (h : c.Ends s (.ok v) s') : (c >>= f).Ends s o s'' ↔ (f v).Ends s' o s'' := by
  have hends := Dialogue.exists_drive_iff_ends.mp h
  rw [Ends, Ends, Dialogue.exists_drive_iff_ends, Dialogue.exists_drive_iff_ends]
  exact hends.bind_iff

theorem perform_ends_iff {task : Task} {o : Outcome} {s' : State} :
    (perform task).Ends s o s' ↔ (body task).Ends s o s' := by
  rw [Ends, Ends, Dialogue.exists_drive_iff_ends, Dialogue.exists_drive_iff_ends]
  constructor
  · intro h
    cases h with
    | ask hq hr =>
      cases hr
      exact hq
  · exact fun h => .ask h (.answer _)

theorem Ends.of_meets {c : Eval Value} {o : Outcome} {s' : State} (h : c.Ends s o s')
    (hbody : ∀ task s, C.pre task s → (body task).Meets C s (C.post task s))
    {good : Outcome → State → Prop} (hc : c.Meets C s good) : good o s' := by
  have hends := Dialogue.exists_drive_iff_ends.mp h
  exact hends.of_meets C.question C.reply (fun r : Outcome × State => good r.1 r.2)
    (fun q hq => hbody q.1 q.2 hq) hc

theorem exists_ends_of_wellFounded {c : Eval Value} {good : Outcome → State → Prop}
    {less : Task × State → Task × State → Prop} (hless : WellFounded less)
    (hbody : ∀ task s, C.pre task s →
      (body task).Meets ⟨fun t s' => C.pre t s' ∧ less (t, s') (task, s), C.post⟩ s (C.post task s))
    (hc : c.Meets C s good) : ∃ o s', c.Ends s o s' ∧ good o s' := by
  obtain ⟨⟨o, s'⟩, hends, hgood⟩ :=
    Dialogue.exists_ends_of_wellFounded C.question C.reply
      (fun r : Outcome × State => good r.1 r.2) hless (fun q hq => hbody q.1 q.2 hq) hc
  exact ⟨o, s', Dialogue.exists_drive_iff_ends.mpr hends, hgood⟩

/-! ### Computations that end with a value -/

section Gives

variable {s' s'' : State}

/-- The computation ends with the value and leaves the state `s'`. -/
def Gives (c : Eval α) (s : State) (a : α) (s' : State) : Prop :=
  Dialogue.Ends answer (c.run.run s) (.ok a, s')

theorem gives_pure {a : α} : (pure a : Eval α).Gives s a s :=
  .answer _

theorem Gives.bind {c : Eval α} {f : α → Eval β} {a : α} {b : β} (h : c.Gives s a s')
    (hf : (f a).Gives s' b s'') : (c >>= f).Gives s b s'' :=
  Dialogue.Ends.bind h hf

theorem gives_create {f : State → α × State} : (create f).Gives s (f s).1 (f s).2 :=
  .answer _

theorem gives_inspect {f : State → Except Fault α} {a : α} (h : f s = .ok a) :
    (inspect f).Gives s a s := by
  have hget : (get : Eval State).Gives s s s := .answer _
  refine hget.bind ?_
  rw [h]
  exact gives_pure

theorem Gives.perform {task : Task} {v : Value} (h : (body task).Gives s v s') :
    (perform task).Gives s v s' :=
  .ask h (.answer _)

theorem Gives.ends {c : Eval Value} {v : Value} (h : c.Gives s v s') : c.Ends s (.ok v) s' :=
  Dialogue.exists_drive_iff_ends.mpr h

end Gives

end Eval

end ScriptLang
