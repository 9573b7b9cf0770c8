import ScriptLang.Proofs.Dialogue
import ScriptLang.Proofs.Origin
import ScriptLang.Proofs.Site

/-! Evaluation adds nothing to where code comes from. A task whose code stems from an origin asks only for
tasks of that kind, and the functions it leaves in the heap and the line of the fault that ends it stem from
there too. The cases are those of the evaluator. -/

namespace ScriptLang

variable {O : Origin} {α β : Type}

/-! ### Ends -/

def RuntimeError.StemsFrom (O : Origin) : RuntimeError → Prop
  | thrown value line => value.StemsFrom O ∧ O.line line
  | fault f => f.StemsFrom O

def Returns.StemsFrom (O : Origin) : Except RuntimeError Value → Prop
  | .ok value => value.StemsFrom O
  | .error error => error.StemsFrom O

def Signal.StemsFrom (O : Origin) : Signal → Prop
  | raised error => error.StemsFrom O
  | returned value => value.StemsFrom O
  | broke | continued => True

def Outcome.StemsFrom (O : Origin) : Outcome → Prop
  | .ok value => value.StemsFrom O
  | .error signal => signal.StemsFrom O

theorem RuntimeError.StemsFrom.line {error : RuntimeError} (h : error.StemsFrom O) :
    ∀ line ∈ error.line?, O.line line := by
  cases error with
  | thrown value n => exact fun line hline => Option.some.inj hline ▸ h.2
  | fault f => exact h

theorem RuntimeError.StemsFrom.caught {error : RuntimeError} (h : error.StemsFrom O) :
    error.caught.StemsFrom O := by
  cases error with
  | thrown value line => exact h.1
  | fault f => trivial

theorem Outcome.StemsFrom.result {o : Outcome} (h : o.StemsFrom O) : Returns.StemsFrom O o.result := by
  match o with
  | .ok value => exact h
  | .error (.returned value) => exact h
  | .error (.raised error) => exact h
  | .error .broke | .error .continued => trivial

/-! ### Natives -/

namespace Native

variable {s : State} {name : String}

theorem refuse_stemsFrom {reason : String} : Returns.StemsFrom O (refuse name reason) :=
  fun _ => nofun

theorem len_stemsFrom {v : Value} : Returns.StemsFrom O (len s name v) := by
  unfold len
  split
  · exact refuse_stemsFrom
  · split
    · trivial
    · exact refuse_stemsFrom

theorem assert_stemsFrom {v : Value} : Returns.StemsFrom O (assert s name v) := by
  unfold assert
  split
  · trivial
  · exact refuse_stemsFrom

theorem push_stemsFrom {target item : Value} (hs : s.StemsFrom O) (htarget : target.StemsFrom O)
    (hitem : item.StemsFrom O) :
    (push s name target item).2.StemsFrom O ∧ Returns.StemsFrom O (push s name target item).1 := by
  unfold push
  split
  · exact ⟨hs.push hitem, htarget⟩
  · exact ⟨hs, refuse_stemsFrom⟩

theorem call_stemsFrom {f : Native} {arguments : List Value} {scope : ScopeId} (hs : s.StemsFrom O)
    (hf : f.builtin.IsPrelude) (harguments : ∀ v ∈ arguments, v.StemsFrom O) :
    (f.call s arguments scope).2.StemsFrom O ∧ Returns.StemsFrom O (f.call s arguments scope).1 := by
  obtain ⟨serial, name, builtin⟩ := f
  have hwrong : ∀ count, s.StemsFrom O ∧ Returns.StemsFrom O (wrongCount name count arguments) :=
    fun _ => ⟨hs, refuse_stemsFrom⟩
  cases builtin with
  | print => exact ⟨⟨hs.bindings, hs.items, hs.properties, hs.classes, hs.fields⟩, trivial⟩
  | len =>
    rcases arguments with _ | ⟨v, _ | ⟨w, rest⟩⟩
    · exact hwrong 1
    · exact ⟨hs, len_stemsFrom⟩
    · exact hwrong 1
  | push =>
    rcases arguments with _ | ⟨target, _ | ⟨item, _ | ⟨w, rest⟩⟩⟩
    · exact hwrong 2
    · exact hwrong 2
    · exact push_stemsFrom hs (harguments _ (by simp)) (harguments _ (by simp))
    · exact hwrong 2
  | typeof | str =>
    rcases arguments with _ | ⟨v, _ | ⟨w, rest⟩⟩
    · exact hwrong 1
    · exact ⟨hs, trivial⟩
    · exact hwrong 1
  | assert =>
    rcases arguments with _ | ⟨v, _ | ⟨w, rest⟩⟩
    · exact hwrong 1
    · exact ⟨hs, assert_stemsFrom⟩
    · exact hwrong 1
  -- The natives of a host may raise an error on any line.
  | sum | lookup | declare | inLoop | scope | collect | throw =>
    simp [Builtin.IsPrelude, Builtin.prelude] at hf

end Native

/-! ### Tasks -/

def Task.marks : Task → List (Mark Nat)
  | expression _ e => e.marks
  | block _ body => Marks.stmts body
  | whileLoop _ test body _ => test.marks ++ Marks.stmts body
  | forLoop _ test update body => test.marks ++ (update.marks ++ Marks.stmts body)

namespace Origin

structure Starts (O : Origin) (t : Task) (s : State) : Prop where
  state : s.StemsFrom O
  code : O.Covers t.marks
  pending : t.pending.StemsFrom O

def contract (O : Origin) : Contract :=
  ⟨O.Starts, fun _ _ o s => s.StemsFrom O ∧ o.StemsFrom O⟩

/-- From every state that stems from the origin the computation makes something good, or ends by a signal
that stems from there, and so does all that it asks for and leaves behind. -/
def Yields (O : Origin) (c : Eval α) (good : α → Prop) : Prop :=
  ∀ s, s.StemsFrom O → c.Meets O.contract s fun r s' =>
    s'.StemsFrom O ∧
      match r with
      | .ok a => good a
      | .error signal => signal.StemsFrom O

namespace Yields

variable {good : α → Prop} {good' : β → Prop}

/-! ### Rules -/

theorem pure {a : α} (h : good a) : O.Yields (Pure.pure a) good :=
  fun _ hs => Eval.meets_pure.mpr ⟨hs, h⟩

theorem throw {signal : Signal} (h : signal.StemsFrom O) :
    O.Yields (MonadExcept.throw signal : Eval α) good :=
  fun _ hs => Eval.meets_throw.mpr ⟨hs, h⟩

theorem fault {f : Fault} {line : Nat} (hline : O.line line) (h : f.line? = some line) :
    O.Yields (Eval.fault f) good :=
  throw (Fault.StemsFrom.of_line? hline h)

theorem bind {c : Eval α} {f : α → Eval β} (hc : O.Yields c good)
    (hf : ∀ a, good a → O.Yields (f a) good') : O.Yields (c >>= f) good' := by
  intro s hs
  rw [Eval.meets_bind]
  refine (hc s hs).mono ?_
  rintro (signal | a) s' ⟨hs', hr⟩
  · exact ⟨hs', hr⟩
  · exact hf a hr s' hs'

theorem get_bind {f : State → Eval α} (h : ∀ s, s.StemsFrom O → O.Yields (f s) good) :
    O.Yields (get >>= f) good := by
  intro s hs
  rw [Eval.meets_bind, Eval.meets_get]
  exact h s hs s hs

theorem create {f : State → α × State}
    (h : ∀ s, s.StemsFrom O → (f s).2.StemsFrom O ∧ good (f s).1) : O.Yields (Eval.create f) good :=
  fun s hs => Eval.meets_create.mpr (h s hs)

theorem change {f : State → State} (h : ∀ s, s.StemsFrom O → (f s).StemsFrom O) :
    O.Yields (modify f) fun _ => True :=
  fun s hs => Eval.meets_modify.mpr ⟨h s hs, trivial⟩

theorem inspect {f : State → Except Fault α} (h : ∀ s, s.StemsFrom O → O.Finds (f s) good) :
    O.Yields (Eval.inspect f) good := by
  refine get_bind fun s hs => ?_
  have hfinds := h s hs
  cases hf : f s with
  | ok a =>
    rw [hf] at hfinds
    exact pure hfinds
  | error e =>
    rw [hf] at hfinds
    exact throw hfinds

theorem write {find : State → Except Fault Write} {v : Value} (hv : v.StemsFrom O)
    (h : ∀ s, O.Finds (find s) (·.value = v)) : O.Yields (Eval.write find) fun _ => True :=
  (inspect fun s _ => h s).bind fun _ hw => change fun _ hs => hs.write (hw ▸ hv)

theorem declare {scope : ScopeId} {x : String} {v : Value} {constant : Bool} (hv : v.StemsFrom O) :
    O.Yields (Eval.declare scope x v constant) fun _ => True :=
  change fun _ hs => hs.declare hv

theorem ofExcept {result : Except RuntimeError Value} (h : Returns.StemsFrom O result) :
    O.Yields (Eval.ofExcept result) (Value.StemsFrom O) := by
  cases result with
  | ok v => exact pure h
  | error error => exact throw h

theorem enter {kind : ScopeKind} {parent : ScopeId} :
    O.Yields (Eval.create (·.enter kind parent)) fun _ => True :=
  create fun _ hs => ⟨hs.enter, trivial⟩

theorem mapM {γ : Type} {xs : List γ} {f : γ → Eval α} (h : ∀ x ∈ xs, O.Yields (f x) good) :
    O.Yields (xs.mapM f) fun results => ∀ a ∈ results, good a := by
  induction xs with
  | nil => exact pure (by simp)
  | cons x rest ih =>
    rw [List.mapM_cons]
    refine (h x List.mem_cons_self).bind fun a ha => ?_
    refine (ih fun y hy => h y (List.mem_cons_of_mem _ hy)).bind fun results hresults => ?_
    exact pure (List.forall_mem_cons.mpr ⟨ha, hresults⟩)

/-! ### Asking for tasks -/

theorem perform {t : Task} (ht : O.Covers t.marks) (hpending : t.pending.StemsFrom O) :
    O.Yields (Eval.perform t) (Value.StemsFrom O) := by
  refine fun s hs => Eval.meets_perform.mpr ⟨⟨hs, ht, hpending⟩, fun o s' hpost => ⟨hpost.1, ?_⟩⟩
  cases o <;> exact hpost.2

theorem attempt {t : Task} (ht : O.Covers t.marks) (hpending : t.pending.StemsFrom O) :
    O.Yields (Eval.attempt t) (Outcome.StemsFrom O) :=
  fun _ hs => Eval.meets_attempt.mpr ⟨⟨hs, ht, hpending⟩, fun _ _ => id⟩

theorem expression {scope : ScopeId} {e : Expr Nat} (he : O.Covers e.marks) :
    O.Yields (Eval.expression scope e) (Value.StemsFrom O) :=
  perform he trivial

theorem block {scope : ScopeId} {body : List (Stmt Nat)} (hbody : O.Covers (Marks.stmts body)) :
    O.Yields (Eval.perform (.block scope body)) (Value.StemsFrom O) :=
  perform hbody trivial

theorem blockIn {kind : ScopeKind} {scope : ScopeId} {body : List (Stmt Nat)}
    (hbody : O.Covers (Marks.stmts body)) :
    O.Yields (Eval.blockIn kind scope body) (Value.StemsFrom O) :=
  enter.bind fun _ _ => block hbody

theorem expressions {scope : ScopeId} {es : List (Expr Nat)} (hes : O.Covers (Marks.exprs es)) :
    O.Yields (Eval.expressions scope es) fun vs => ∀ v ∈ vs, v.StemsFrom O := by
  rw [Marks.exprs_eq, covers_flatMap] at hes
  exact mapM fun e he => expression (hes e he)

theorem fields {scope : ScopeId} {properties : List (String × Expr Nat)}
    (hproperties : O.Covers (Marks.fields properties)) :
    O.Yields (properties.mapM fun (name, e) => return (name, ← Eval.expression scope e))
      fun entries => ∀ entry ∈ entries, entry.2.StemsFrom O := by
  rw [Marks.fields_eq, covers_flatMap] at hproperties
  exact mapM fun field hfield => (expression (hproperties field hfield)).bind fun _ hv => pure hv

/-! ### Places -/

theorem read {scope : ScopeId} {p : Place Nat} (hp : O.Covers p.marks) :
    O.Yields (Eval.read scope p) (Value.StemsFrom O) := by
  match p with
  | .variable name line => exact inspect fun s hs => hs.lookup (covers_cons.mp hp).1
  | .dot container name nameLine line =>
    obtain ⟨hline, hp⟩ := covers_cons.mp hp
    exact (expression (covers_cons.mp hp).2).bind fun target _ => inspect fun s hs => hs.getMember hline
  | .index container key line =>
    obtain ⟨hline, hp⟩ := covers_cons.mp hp
    obtain ⟨hcontainer, hkey⟩ := covers_append.mp hp
    exact (expression hcontainer).bind fun target _ => (expression hkey).bind fun key _ =>
      inspect fun s hs => hs.getMember hline

theorem store {scope : ScopeId} {p : Place Nat} {v : Value} {line : Nat} (hp : O.Covers p.marks)
    (hv : v.StemsFrom O) (hline : O.line line) : O.Yields (Eval.store scope p v line) fun _ => True := by
  match p with
  | .variable name _ => exact write hv fun s => State.assignment_stems hline
  | .dot container name nameLine _ =>
    have hcontainer := (covers_cons.mp (covers_cons.mp hp).2).2
    exact (expression hcontainer).bind fun target _ => write hv fun s => State.memberWrite_stems hline
  | .index container key _ =>
    obtain ⟨hcontainer, hkey⟩ := covers_append.mp (covers_cons.mp hp).2
    exact (expression hcontainer).bind fun target _ => (expression hkey).bind fun key _ =>
      write hv fun s => State.memberWrite_stems hline

/-! ### Calls -/

theorem callNative {f : Native} {arguments : List Value} {scope : ScopeId} (hf : f.builtin.IsPrelude)
    (harguments : ∀ v ∈ arguments, v.StemsFrom O) :
    O.Yields (Eval.callNative f arguments scope) (Value.StemsFrom O) := by
  have hcall : O.Yields (Eval.create fun s => f.call s arguments scope) (Returns.StemsFrom O) :=
    create fun s hs => Native.call_stemsFrom hs hf harguments
  exact hcall.bind fun result hresult => ofExcept hresult

theorem enterCall {line : Nat} (hline : O.line line) : O.Yields (Eval.enterCall line) fun _ => True := by
  refine get_bind fun s _ => ?_
  split
  · exact fault hline rfl
  · exact change fun s hs => ⟨hs.bindings, hs.items, hs.properties, hs.classes, hs.fields⟩

theorem leaveCall : O.Yields Eval.leaveCall fun _ => True :=
  change fun _ hs => ⟨hs.bindings, hs.items, hs.properties, hs.classes, hs.fields⟩

theorem callFunction {f : Closure} {arguments : List Value} {line : Nat} (hline : O.line line)
    (hf : O.Covers f.function.marks) (harguments : ∀ v ∈ arguments, v.StemsFrom O) :
    O.Yields (Eval.callFunction f arguments line) (Value.StemsFrom O) := by
  have hbody : O.Covers (Marks.stmts f.function.body) := by
    obtain ⟨⟨identity, name, parameters, body, n⟩, scope, receiver⟩ := f
    exact (covers_cons.mp (covers_cons.mp hf).2).2
  refine (enterCall hline).bind fun _ _ => enter.bind fun scope _ => ?_
  have hbound : O.Yields (modify (·.bindArguments scope f arguments)) fun _ => True :=
    change fun s hs => hs.bindArguments harguments
  have hrun : O.Yields (Eval.attempt (.block scope f.function.body)) (Outcome.StemsFrom O) :=
    attempt hbody trivial
  exact hbound.bind fun _ _ => hrun.bind fun o ho => leaveCall.bind fun _ _ => ofExcept ho.result

theorem tag {m : Member} {arguments : List Value} {line : Nat} (hline : O.line line)
    (harguments : ∀ v ∈ arguments, v.StemsFrom O) :
    O.Yields (Eval.tag m arguments line) (Value.StemsFrom O) := by
  unfold Eval.tag
  split
  · next payload =>
    have htagged : (Value.tagged m payload).StemsFrom O := harguments payload List.mem_cons_self
    exact pure htagged
  · exact fault hline rfl

theorem callValue {callee : Value} {arguments : List Value} {scope : ScopeId} {line : Nat}
    (hline : O.line line) (hcallee : callee.StemsFrom O) (harguments : ∀ v ∈ arguments, v.StemsFrom O) :
    O.Yields (Eval.callValue callee arguments scope line) (Value.StemsFrom O) := by
  unfold Eval.callValue
  split
  · exact callNative hcallee harguments
  · exact callFunction hline hcallee harguments
  · exact tag hline harguments
  · exact tag hline harguments
  · exact fault hline rfl

theorem instantiate {target : Value} {arguments : Eval (List Value)} {line : Nat} (hline : O.line line)
    (harguments : O.Yields arguments fun vs => ∀ v ∈ vs, v.StemsFrom O) :
    O.Yields (Eval.instantiate target arguments line) (Value.StemsFrom O) := by
  unfold Eval.instantiate
  split
  · next id =>
    have hnew : O.Yields (Eval.create (·.newInstance id)) fun _ => True :=
      create fun s hs => ⟨hs.newInstance, trivial⟩
    refine harguments.bind fun vs hvs => hnew.bind fun i _ => get_bind fun s hs => ?_
    have hinst : O.Yields (Pure.pure (Value.inst i)) (Value.StemsFrom O) := pure trivial
    dsimp only
    split
    · next f hf =>
      have hmethod : O.Covers f.marks := (hs.classOf id).methods _ (Record.mem_entries_of_get? hf)
      let constructor : Closure := ⟨f, (s.classOf id).scope, some (.ofInstance i)⟩
      have hcall : O.Yields (Eval.callFunction constructor vs line) (Value.StemsFrom O) :=
        callFunction hline hmethod hvs
      exact hcall.bind fun _ _ => hinst
    · exact hinst
  · exact fault hline rfl

end Yields

end Origin

/-! ### Choosing an arm -/

def PatternMatch.StemsFrom (O : Origin) : PatternMatch → Prop
  | miss => True
  | hit binding => ∀ pair ∈ binding, pair.2.StemsFrom O

theorem Member.destructure_stemsFrom {m : Member} {name : String} {v : Value} (hv : v.StemsFrom O) :
    (m.destructure name v).StemsFrom O := by
  unfold Member.destructure
  split
  · split
    · exact fun pair hpair => Option.mem_some.mp hpair ▸ hv
    · trivial
  · trivial

namespace Origin.Yields

theorem compare {candidate scrutinee : Value} :
    O.Yields (Eval.compare candidate scrutinee) (PatternMatch.StemsFrom O) := by
  refine get_bind fun s _ => pure ?_
  split
  · exact fun _ => nofun
  · trivial

theorem tryPattern {scope : ScopeId} {scrutinee : Value} {pattern : Expr Nat}
    (hscrutinee : scrutinee.StemsFrom O) (hpattern : O.Covers pattern.marks) :
    O.Yields (Eval.tryPattern scope scrutinee pattern) (PatternMatch.StemsFrom O) := by
  have htaken : ∀ (m : Member) (name : String),
      O.Yields (Pure.pure (m.destructure name scrutinee)) (PatternMatch.StemsFrom O) :=
    fun _ _ => pure (Member.destructure_stemsFrom hscrutinee)
  unfold Eval.tryPattern
  split
  · exact (expression hpattern).bind fun _ _ => compare
  · next callee name nameLine line hcall =>
    obtain rfl := Expr.nameCall?_eq_some hcall
    obtain ⟨hline, hpattern⟩ := covers_cons.mp hpattern
    obtain ⟨hcallee, harguments⟩ := covers_append.mp hpattern
    have hargument : O.Covers (Expr.place (.variable name nameLine)).marks :=
      (covers_append.mp harguments).1
    refine (expression hcallee).bind fun value hvalue => ?_
    split
    · exact htaken _ name
    · exact htaken _ name
    · refine (expression hargument).bind fun argument hargument => ?_
      have hvalues : ∀ v ∈ [argument], v.StemsFrom O := by simpa using hargument
      exact (callValue hline hvalue hvalues).bind fun _ _ => compare

theorem runArm {scope : ScopeId} {binding : Option (String × Value)} {body : List (Stmt Nat)}
    (hbinding : ∀ pair ∈ binding, pair.2.StemsFrom O) (hbody : O.Covers (Marks.stmts body)) :
    O.Yields (Eval.runArm scope binding body) (Value.StemsFrom O) := by
  refine enter.bind fun inner _ => ?_
  cases binding with
  | none => exact block hbody
  | some pair => exact (declare (hbinding pair rfl)).bind fun _ _ => block hbody

theorem tryPatterns {scope : ScopeId} {scrutinee : Value} {default : Option (List (Stmt Nat))}
    {cases : List (Expr Nat × List (Stmt Nat))} (hscrutinee : scrutinee.StemsFrom O)
    (hdefault : ∀ body ∈ default, O.Covers (Marks.stmts body))
    (hcases : ∀ c ∈ cases, O.Covers c.1.marks ∧ O.Covers (Marks.stmts c.2)) :
    O.Yields (Eval.tryPatterns scope scrutinee default cases) (Value.StemsFrom O) := by
  induction cases with
  | nil =>
    cases default with
    | none =>
      have hnull : Value.null.StemsFrom O := trivial
      exact pure hnull
    | some body =>
      have hnone : ∀ pair ∈ (none : Option (String × Value)), pair.2.StemsFrom O := nofun
      have hrun : O.Yields (Eval.runArm scope none body) (Value.StemsFrom O) :=
        runArm hnone (hdefault body rfl)
      exact hrun
  | cons c rest ih =>
    obtain ⟨pattern, body⟩ := c
    obtain ⟨⟨hpattern, hbody⟩, hrest⟩ := List.forall_mem_cons.mp hcases
    refine (tryPattern hscrutinee hpattern).bind fun found hfound => ?_
    cases found with
    | miss => exact ih hrest
    | hit binding => exact runArm hfound hbody

theorem select {scope : ScopeId} {scrutinee : Expr Nat} {arms : List (Arm Nat)}
    (hscrutinee : O.Covers scrutinee.marks) (harms : O.Covers (Marks.arms arms)) :
    O.Yields (Eval.select scope scrutinee arms) (Value.StemsFrom O) := by
  rw [Marks.arms_eq, covers_flatMap] at harms
  have harm : ∀ arm ∈ arms,
      (∀ pattern ∈ arm.patterns, O.Covers pattern.marks) ∧ O.Covers (Marks.stmts arm.body) := by
    intro arm hmem
    have hmarks := harms arm hmem
    obtain ⟨patterns, isDefault, body⟩ := arm
    obtain ⟨hpatterns, hbody⟩ := covers_append.mp hmarks
    rw [Marks.exprs_eq, covers_flatMap] at hpatterns
    exact ⟨hpatterns, hbody⟩
  refine enter.bind fun inner _ => (expression hscrutinee).bind fun v hv => tryPatterns hv ?_ ?_
  · intro body hbody
    obtain ⟨arm, hfind, rfl⟩ := Option.map_eq_some_iff.mp hbody
    exact (harm arm (List.mem_of_find?_eq_some hfind)).2
  · intro c hc
    obtain ⟨arm, hmem, hc⟩ := List.mem_flatMap.mp hc
    obtain ⟨pattern, hpattern, rfl⟩ := List.mem_map.mp hc
    exact ⟨(harm arm hmem).1 pattern hpattern, (harm arm hmem).2⟩

/-! ### Expressions -/

theorem makeFunction {scope : ScopeId} {f : FunctionDecl Nat} (hf : O.Covers f.marks) :
    O.Yields (Eval.makeFunction scope f) (Value.StemsFrom O) := by
  have hvalue : (Value.function ⟨f, scope, none⟩).StemsFrom O := hf
  unfold Eval.makeFunction
  dsimp only
  split
  · exact (declare hvalue).bind fun _ _ => pure hvalue
  · exact pure hvalue

theorem attemptBlock {scope : ScopeId} {body handler : List (Stmt Nat)}
    (hbody : O.Covers (Marks.stmts body)) (hhandler : O.Covers (Marks.stmts handler)) :
    O.Yields (Eval.attemptBlock scope body handler) (Value.StemsFrom O) := by
  refine enter.bind fun inner _ => ?_
  have hrun : O.Yields (Eval.attempt (.block inner body)) (Outcome.StemsFrom O) := attempt hbody trivial
  refine hrun.bind fun o ho => ?_
  match o with
  | .error (.raised error) =>
    exact (declare (RuntimeError.StemsFrom.caught ho)).bind fun _ _ => blockIn hhandler
  | .error (.returned v) => exact throw ho
  | .error .broke | .error .continued => exact throw trivial
  | .ok v => exact pure ho

theorem evaluate {scope : ScopeId} {e : Expr Nat} (he : O.Covers e.marks) :
    O.Yields (Eval.evaluate scope e) (Value.StemsFrom O) := by
  -- The closures made here are of functions whose marks `he` covers; all others have been there before.
  cases e with
  | number x line =>
    have hvalue : (Value.number x).StemsFrom O := trivial
    exact pure hvalue
  | string text line =>
    have hvalue : (Value.string text).StemsFrom O := trivial
    exact pure hvalue
  | place p => exact read he
  | object properties line =>
    exact (fields (covers_cons.mp he).2).bind fun entries hentries =>
      create fun s hs => ⟨hs.newObject (.ofList hentries), trivial⟩
  | array elements line =>
    exact (expressions (covers_cons.mp he).2).bind fun items hitems =>
      create fun s hs => ⟨hs.newArray (by simpa using hitems), trivial⟩
  | binary operator left right line =>
    obtain ⟨hline, he⟩ := covers_cons.mp he
    obtain ⟨hleft, hright⟩ := covers_append.mp he
    exact (expression hleft).bind fun _ _ => (expression hright).bind fun _ _ =>
      inspect fun s _ => State.operate_stems hline
  | assign target value line =>
    obtain ⟨hline, he⟩ := covers_cons.mp he
    obtain ⟨htarget, hvalue⟩ := covers_append.mp he
    exact (expression hvalue).bind fun v hv => (store htarget hv hline).bind fun _ _ => pure hv
  | call callee arguments line =>
    obtain ⟨hline, he⟩ := covers_cons.mp he
    obtain ⟨hcallee, harguments⟩ := covers_append.mp he
    exact (expressions harguments).bind fun vs hvs => (expression hcallee).bind fun v hv =>
      callValue hline hv hvs
  | construct target arguments line =>
    obtain ⟨hline, he⟩ := covers_cons.mp he
    obtain ⟨htarget, harguments⟩ := covers_append.mp he
    exact (read htarget).bind fun _ _ => instantiate hline (expressions harguments)
  | select scrutinee arms line =>
    obtain ⟨hscrutinee, harms⟩ := covers_append.mp (covers_cons.mp he).2
    exact select hscrutinee harms
  | function f => exact makeFunction he
  | attempt body handler line =>
    obtain ⟨hbody, hhandler⟩ := covers_append.mp (covers_cons.mp he).2
    exact attemptBlock hbody hhandler

/-! ### Statements -/

theorem declareVariable {scope : ScopeId} {d : VariableDecl Nat} (hd : O.Covers d.marks) :
    O.Yields (Eval.declareVariable scope d) (Value.StemsFrom O) := by
  have hset : ∀ {name : String} {v : Value} {constant : Bool}, v.StemsFrom O →
      O.Yields (do
        Eval.declare scope name v constant
        return v) (Value.StemsFrom O) :=
    fun hv => (declare hv).bind fun _ _ => pure hv
  match d with
  | .variable name none line => exact hset trivial
  | .variable name (some e) line | .constant name e line =>
    exact (expression (covers_cons.mp hd).2).bind fun v hv => hset hv

theorem branch {scope : ScopeId} {test : Expr Nat} {body : List (Stmt Nat)}
    {alternate : Option (List (Stmt Nat))} (htest : O.Covers test.marks)
    (hbody : O.Covers (Marks.stmts body)) (halternate : ∀ body ∈ alternate, O.Covers (Marks.stmts body)) :
    O.Yields (Eval.branch scope test body alternate) (Value.StemsFrom O) := by
  refine (expression htest).bind fun v _ => ?_
  split
  · exact blockIn hbody
  · cases alternate with
    | none =>
      have hnull : Value.null.StemsFrom O := trivial
      exact pure hnull
    | some alternate => exact blockIn (halternate alternate rfl)

theorem loopControl {scope : ScopeId} {word : String} {signal : Signal} {line : Nat}
    (hsignal : signal.StemsFrom O) (hline : O.line line) :
    O.Yields (Eval.loopControl scope word signal line) (Value.StemsFrom O) := by
  refine get_bind fun s _ => ?_
  split
  · exact throw hsignal
  · exact fault hline rfl

theorem methodTable_covers {methods : List (FunctionDecl Nat)} (h : O.Covers (Marks.functions methods)) :
    ∀ entry ∈ (Eval.methodTable methods).entries, O.Covers entry.2.marks := by
  rw [Marks.functions_eq, covers_flatMap] at h
  intro entry hentry
  obtain ⟨f, hf, rfl⟩ := List.mem_map.mp (Record.mem_ofList hentry)
  exact h f hf

theorem declareClass {scope : ScopeId} {c : ClassDecl Nat} (hc : O.Covers c.marks) :
    O.Yields (Eval.declareClass scope c) (Value.StemsFrom O) := by
  obtain ⟨name, fieldNames, staticFields, methods, staticMethods, line⟩ := c
  obtain ⟨hfields, hc⟩ := covers_append.mp (covers_cons.mp hc).2
  obtain ⟨hmethods, hstaticMethods⟩ := covers_append.mp hc
  refine (fields hfields).bind fun values hvalues => ?_
  have hnew : O.Yields (Eval.create (·.newClass ⟨name, fieldNames, .ofList values,
      Eval.methodTable methods, Eval.methodTable staticMethods, scope⟩)) (Value.StemsFrom O) := by
    refine create fun s hs => ⟨hs.newClass ?_, trivial⟩
    exact ⟨.ofList hvalues, methodTable_covers hmethods, methodTable_covers hstaticMethods⟩
  have hnull : Value.null.StemsFrom O := trivial
  exact hnew.bind fun v hv => (declare hv).bind fun _ _ => pure hnull

theorem declareEnum {scope : ScopeId} {name : String} {members : List String} :
    O.Yields (Eval.declareEnum scope name members) (Value.StemsFrom O) := by
  have hserial : O.Yields (Eval.create State.newSerial) fun _ => True :=
    create fun s hs => ⟨⟨hs.bindings, hs.items, hs.properties, hs.classes, hs.fields⟩, trivial⟩
  refine hserial.bind fun serial _ => ?_
  have hvalue : (Value.enumeration ⟨serial, name, members⟩).StemsFrom O := trivial
  have hnull : Value.null.StemsFrom O := trivial
  exact (declare hvalue).bind fun _ _ => pure hnull

theorem execute {scope : ScopeId} {s : Stmt Nat} (hs : O.Covers s.marks) :
    O.Yields (Eval.execute scope s) (Value.StemsFrom O) := by
  match s with
  | .declare d => exact declareVariable hs
  | .function f =>
    have hvalue : (Value.function ⟨f, scope, none⟩).StemsFrom O := hs
    exact (declare hvalue).bind fun _ _ => pure hvalue
  | .branch test body none line =>
    obtain ⟨htest, hbody⟩ := covers_append.mp (covers_cons.mp hs).2
    have hnone : ∀ b ∈ (none : Option (List (Stmt Nat))), O.Covers (Marks.stmts b) := nofun
    exact branch htest hbody hnone
  | .branch test body (some alternate) line =>
    obtain ⟨htest, hbodies⟩ := covers_append.mp (covers_cons.mp hs).2
    obtain ⟨hbody, halternate⟩ := covers_append.mp hbodies
    exact branch htest hbody fun b hb => Option.mem_some.mp hb ▸ halternate
  | .forLoop start test update body line =>
    obtain ⟨hstart, hloop⟩ := covers_append.mp (covers_cons.mp hs).2
    exact enter.bind fun inner _ => (declareVariable hstart).bind fun _ _ => perform hloop trivial
  | .whileLoop test body line => exact perform (covers_cons.mp hs).2 trivial
  | .returns none line => exact throw trivial
  | .returns (some e) line => exact (expression (covers_cons.mp hs).2).bind fun v hv => throw hv
  | .breaks line => exact loopControl trivial (covers_cons.mp hs).1
  | .continues line => exact loopControl trivial (covers_cons.mp hs).1
  | .throws e line =>
    obtain ⟨hline, he⟩ := covers_cons.mp hs
    exact (expression he).bind fun v hv => throw ⟨hv, hline⟩
  | .declareClass c => exact declareClass hs
  | .declareEnum name members line => exact declareEnum
  | .expression e line => exact expression (covers_cons.mp hs).2

theorem executeAll {scope : ScopeId} {body : List (Stmt Nat)} {last : Value} (hlast : last.StemsFrom O)
    (hbody : O.Covers (Marks.stmts body)) :
    O.Yields (Eval.executeAll scope last body) (Value.StemsFrom O) := by
  induction body generalizing last with
  | nil => exact pure hlast
  | cons s rest ih =>
    obtain ⟨hs, hrest⟩ := covers_append.mp hbody
    exact (execute hs).bind fun v hv => ih hv hrest

/-! ### Loops -/

theorem whileRounds {scope : ScopeId} {test : Expr Nat} {body : List (Stmt Nat)} {last : Value}
    (h : O.Covers (test.marks ++ Marks.stmts body)) (hlast : last.StemsFrom O) :
    O.Yields (Eval.whileRounds scope test body last) (Value.StemsFrom O) := by
  have hagain : ∀ v, v.StemsFrom O →
      O.Yields (Eval.perform (.whileLoop scope test body v)) (Value.StemsFrom O) :=
    fun v hv => perform h hv
  obtain ⟨htest, hbody⟩ := covers_append.mp h
  refine (expression htest).bind fun v _ => ?_
  split
  · exact pure hlast
  refine enter.bind fun inner _ => ?_
  have hrun : O.Yields (Eval.attempt (.block inner body)) (Outcome.StemsFrom O) := attempt hbody trivial
  refine hrun.bind fun o ho => ?_
  match o with
  | .ok v => exact hagain v ho
  | .error .continued => exact hagain last hlast
  | .error .broke => exact pure hlast
  | .error (.raised error) => exact throw ho
  | .error (.returned v) => exact throw ho

theorem forRounds {scope : ScopeId} {test update : Expr Nat} {body : List (Stmt Nat)}
    (h : O.Covers (test.marks ++ (update.marks ++ Marks.stmts body))) :
    O.Yields (Eval.forRounds scope test update body) (Value.StemsFrom O) := by
  obtain ⟨htest, hrest⟩ := covers_append.mp h
  obtain ⟨hupdate, hbody⟩ := covers_append.mp hrest
  have hagain : O.Yields (do
      let _ ← Eval.expression scope update
      Eval.perform (.forLoop scope test update body)) (Value.StemsFrom O) :=
    (expression hupdate).bind fun _ _ => perform h trivial
  have hnull : Value.null.StemsFrom O := trivial
  refine (expression htest).bind fun v _ => ?_
  split
  · exact pure hnull
  refine enter.bind fun inner _ => ?_
  have hrun : O.Yields (Eval.attempt (.block inner body)) (Outcome.StemsFrom O) := attempt hbody trivial
  refine hrun.bind fun o ho => ?_
  match o with
  | .ok v => exact hagain
  | .error .continued => exact hagain
  | .error .broke => exact pure hnull
  | .error (.raised error) => exact throw ho
  | .error (.returned v) => exact throw ho

end Origin.Yields

/-! ### Runs -/

namespace Origin

theorem body_meets (t : Task) (s : State) (h : O.Starts t s) :
    (Eval.body t).Meets O.contract s fun o s' => s'.StemsFrom O ∧ Outcome.StemsFrom O o := by
  have hbody : O.Yields (Eval.body t) (Value.StemsFrom O) := by
    have hcode := h.code
    cases t with
    | expression scope e => exact .evaluate hcode
    | block scope body => exact .executeAll trivial hcode
    | whileLoop scope test body last => exact .whileRounds hcode h.pending
    | forLoop scope test update body => exact .forRounds hcode
  refine (hbody s h.state).mono ?_
  rintro (signal | v) s' hr <;> exact hr

namespace Starts

variable {t : Task} {s : State} (h : O.Starts t s)

include h

theorem perform_meets :
    (Eval.perform t).Meets O.contract s fun o s' => s'.StemsFrom O ∧ Outcome.StemsFrom O o :=
  Eval.meets_perform.mpr ⟨h, fun _ _ => id⟩

theorem ends {o : Outcome} {s' : State} (hends : (Eval.perform t).Ends s o s') :
    s'.StemsFrom O ∧ o.StemsFrom O :=
  hends.of_meets O.body_meets h.perform_meets

end Starts

end Origin

/-! ### Before a run -/

namespace State

variable {s : State}

theorem initial_stemsFrom {maxDepth : Nat} : (initial maxDepth).StemsFrom O := by
  refine ⟨fun i c hget => ?_, fun i items hget => ?_, fun i r hget => ?_, fun i c hget => ?_,
    fun i x hget => ?_⟩ <;> simp [initial] at hget

theorem StemsFrom.newGlobal (h : s.StemsFrom O) : s.newGlobal.2.StemsFrom O := by
  have hroot : s.newRoot.2.StemsFrom O := h.newScope fun _ => nofun
  have hconstant : ∀ {s : State} {id : ScopeId} {name : String} {v : Value}, s.StemsFrom O →
      v.StemsFrom O → (s.declare id name v true).StemsFrom O :=
    fun hs hv => hs.declare hv
  refine List.foldlRecOn (motive := StemsFrom O) _ _
    (hconstant (hconstant (hconstant hroot trivial) trivial) trivial) fun s' hs' entry hentry => ?_
  have hserial : s'.newSerial.2.StemsFrom O :=
    ⟨hs'.bindings, hs'.items, hs'.properties, hs'.classes, hs'.fields⟩
  have hnative : (Value.native ⟨s'.newSerial.1, entry.1, entry.2⟩).StemsFrom O :=
    List.mem_map_of_mem hentry
  exact hserial.declare hnative

theorem StemsFrom.starts {scope : ScopeId} {source : Source} (h : s.StemsFrom O)
    (hsource : O.Covers (Marks.stmts (s.load source).1)) :
    O.Starts (.block scope (s.load source).1) (s.load source).2 :=
  ⟨⟨h.bindings, h.items, h.properties, h.classes, h.fields⟩, hsource, trivial⟩

end State

end ScriptLang
