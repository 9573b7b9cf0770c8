import ScriptLang.Proofs.Conduct

/-! Programs that are run one after another. What a norm asks for holds when the first of them starts, and
each that is run keeps it, so it holds at every moment. -/

namespace ScriptLang

variable {programs : Program Nat → Prop} {s s' : State}

/-- The states of a host that makes global scopes and scopes inside of others, and runs `programs` in scopes
that do not permit loop control. -/
inductive State.Session (programs : Program Nat → Prop) : State → Prop
  | initial (maxDepth : Nat) : Session programs (.initial maxDepth)
  | global {s : State} (h : Session programs s) : Session programs s.newGlobal.2
  | enter {s : State} (kind : ScopeKind) (parent : ScopeId) (h : Session programs s) :
      Session programs (s.enter kind parent).2
  | run {s s' : State} {scope : ScopeId} {source : Source} {o : Outcome} (h : Session programs s)
      (hscope : scope.index < s.scopes.size) (hpermits : s.permitsLoopControl scope = false)
      (hprogram : programs (s.load source).1)
      (hends : (Eval.perform (.block scope (s.load source).1)).Ends (s.load source).2 o s') :
      Session programs s'

/-- The heap is tidy, and all code is that of the programs. -/
def Norm.ofPrograms (programs : Program Nat → Prop) : Norm :=
  ⟨fun x => ∃ p, programs p ∧ x ∈ Located.stmts false p, True⟩

/-! ### Running a task -/

namespace Norm.Begins

variable {N : Norm} {t : Task} (h : N.Begins t s)

include h

theorem perform_meets : (Eval.perform t).Meets N.contract s (N.Concludes t s) :=
  Eval.meets_perform.mpr ⟨h, fun _ _ => id⟩

theorem ends {o : Outcome} (hends : (Eval.perform t).Ends s o s') : N.Concludes t s o s' :=
  hends.of_meets N.body_meets h.perform_meets

/-- At every moment the state conforms, and what has just ended has ended well. -/
theorem moment {waiting : List (Outcome × State → Steps (Outcome × State))}
    {running : Steps (Outcome × State)}
    (hmoment : Dialogue.Moment Eval.answer ((Eval.perform t).run.run s) waiting running) :
    (Steps.state running).Conforms N ∧
      ∀ o s', running = .answer (o, s') → ∃ control, o.Conforms N s'.classes.size control := by
  let reply (r : Outcome × State) : Prop :=
    r.2.Conforms N ∧ ∃ control, r.1.Conforms N r.2.classes.size control
  have hstart : (Eval.perform t).Meets N.contract s fun o s' => reply (o, s') :=
    h.perform_meets.mono fun o s' hr => ⟨hr.1.conforms, _, hr.2⟩
  obtain ⟨good, hrunning, hgood, -⟩ := hmoment.meets reply (fun q hq => N.body_meets q.1 q.2 hq)
    (fun q r _ hr => ⟨hr.1.conforms, _, hr.2⟩) hstart
  cases running with
  | answer r =>
    obtain ⟨hconforms, hend⟩ := hgood r hrunning
    refine ⟨hconforms, fun o s' heq => ?_⟩
    cases heq
    exact hend
  | ask q resume => exact ⟨hrunning.1.conforms, nofun⟩

end Norm.Begins

/-! ### Sessions -/

namespace State

variable {N : Norm}

theorem initial_conforms {maxDepth : Nat} : (initial maxDepth).Conforms N := by
  refine ⟨fun i c hget => ?_, fun i items hget => ?_, fun i r hget => ?_, fun i c hget => ?_,
    fun i x hget => ?_⟩ <;> simp [initial] at hget

theorem Conforms.newGlobal (h : s.Conforms N) : s.newGlobal.2.Conforms N := by
  have hdeclare : ∀ {s : State} {id : ScopeId} {name : String} {v : Value}, s.Conforms N →
      v.Conforms N s.classes.size → (s.declare id name v true).Conforms N :=
    fun hs hv => (hs.progress_declare hv).conforms
  have hroot : s.newRoot.2.Conforms N := h.newScope fun _ => nofun
  refine List.foldlRecOn (motive := Conforms N) _ _
    (hdeclare (hdeclare (hdeclare hroot trivial) trivial) trivial) fun s' hs' entry _ => ?_
  exact hdeclare hs'.progress_newSerial.conforms trivial

namespace Session

variable {scope : ScopeId} {source : Source}

theorem begins_of_conforms (h : s.Conforms (.ofPrograms programs))
    (hscope : scope.index < s.scopes.size) (hpermits : s.permitsLoopControl scope = false)
    (hprogram : programs (s.load source).1) :
    (Norm.ofPrograms programs).Begins (.block scope (s.load source).1) (s.load source).2 where
  conforms := ⟨h.bindings, h.items, h.properties, h.classes, h.fields⟩
  scope_lt := hscope
  code x hx := by
    have hfalse : (s.load source).2.permitsLoopControl scope = false := hpermits
    rw [Task.scope, hfalse] at hx
    exact ⟨_, hprogram, hx⟩
  pending := trivial

theorem conforms (h : s.Session programs) : s.Conforms (.ofPrograms programs) := by
  induction h with
  | initial maxDepth => exact initial_conforms
  | global _ ih => exact ih.newGlobal
  | enter kind parent _ ih => exact ih.progress_enter.conforms
  | run _ hscope hpermits hprogram hends ih =>
    exact ((begins_of_conforms ih hscope hpermits hprogram).ends hends).1.conforms

theorem begins (h : s.Session programs) (hscope : scope.index < s.scopes.size)
    (hpermits : s.permitsLoopControl scope = false) (hprogram : programs (s.load source).1) :
    (Norm.ofPrograms programs).Begins (.block scope (s.load source).1) (s.load source).2 :=
  begins_of_conforms h.conforms hscope hpermits hprogram

end Session

end State

end ScriptLang
