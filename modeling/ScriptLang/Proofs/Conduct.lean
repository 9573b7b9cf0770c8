import ScriptLang.Proofs.Evaluation
import ScriptLang.Proofs.Spot

/-! Evaluation keeps what spots ask for. The cases are those of the evaluator. -/

namespace ScriptLang

variable {N : Norm} {n : Nat}

/-- The scope that a call makes for the body of the function, and the state it starts from. -/
def State.called (s : State) (f : Closure) (arguments : List Value) : ScopeId × State :=
  let (scope, s) := s.deeper.enter .function f.scope
  (scope, s.bindArguments scope f arguments)

theorem State.Conforms.called {s : State} {f : Closure} {arguments : List Value} (h : s.Conforms N)
    (hf : f.Conforms N s.classes.size) (harguments : ∀ v ∈ arguments, v.Conforms N s.classes.size) :
    s.deeper.Progress N (s.called f arguments).2 ∧
      (s.called f arguments).1.index < (s.called f arguments).2.scopes.size ∧
      (s.called f arguments).2.permitsLoopControl (s.called f arguments).1 = false := by
  let entered := s.deeper.enter .function f.scope
  have hentered : s.deeper.Progress N entered.2 := h.deeper.progress_enter
  have hbound : entered.2.Progress N (s.called f arguments).2 :=
    hentered.conforms.progress_bindArguments hf harguments
  have hscope : entered.1.index < entered.2.scopes.size := State.enter_fst_lt
  exact ⟨hentered.trans hbound, Nat.lt_of_lt_of_le hscope hbound.scopes_le,
    (hbound.permits_eq _ hscope).trans State.permitsLoopControl_enter⟩

/-- What a call that goes on one deeper makes of the state is progress once it is back. -/
theorem State.Progress.returned {s s' : State} (h : s.deeper.Progress N s') :
    s.Progress N s'.shallower where
  scopes_le := h.scopes_le
  permits_eq := h.permits_eq
  classes_le := h.classes_le
  depth_eq := by rw [State.shallower, h.depth_eq]; rfl
  conforms := h.conforms.shallower

namespace Spot.Runs

variable {k : Spot}

/-! ### Places -/

theorem read {p : Place Nat} (hp : N.Knows (p.located k.inLoop)) :
    k.Runs N n (Eval.read k.scope p) (Value.Conforms N) := by
  match p with
  | .variable name line => exact inspect fun s hs _ => hs.conforms.lookup
  | .dot container name nameLine line =>
    exact (expression hp).bind fun m target _ ht =>
      inspect fun s hs hm => hs.conforms.getMember (ht.mono hm)
  | .index container key line =>
    rw [Place.located, Norm.knows_append] at hp
    exact (expression hp.1).bind fun m target _ ht => (expression hp.2).bind fun m' key hm _ =>
      inspect fun s hs hm' => hs.conforms.getMember (ht.mono (Nat.le_trans hm hm'))

theorem store {p : Place Nat} {v : Value} {line : Nat} (hp : N.Knows (p.located k.inLoop))
    (hv : v.Conforms N n) : k.Runs N n (Eval.store k.scope p v line) fun _ _ => True := by
  match p with
  | .variable name line => exact write hv fun s => State.assignment_finds
  | .dot container name nameLine line =>
    exact (expression hp).bind fun m target hm _ =>
      write (hv.mono hm) fun s => State.memberWrite_finds
  | .index container key line =>
    rw [Place.located, Norm.knows_append] at hp
    exact (expression hp.1).bind fun m target hm _ => (expression hp.2).bind fun m' key hm' _ =>
      write (hv.mono (Nat.le_trans hm hm')) fun s => State.memberWrite_finds

/-! ### Calls -/

theorem callNative {f : Native} {arguments : List Value} {scope : ScopeId}
    (harguments : ∀ v ∈ arguments, v.Conforms N n) :
    k.Runs N n (Eval.callNative f arguments scope) (Value.Conforms N) := by
  have hcall : k.Runs N n (Eval.create fun s => f.call s arguments scope) (Returns.Conforms N) :=
    create fun s hs hn =>
      Native.call_progress hs.conforms fun v hv => (harguments v hv).mono hn
  exact hcall.bind fun m result _ hresult => ofExcept hresult

/-- The body runs one call deeper, in a new scope that does not permit loop control. -/
theorem callFunction {f : Closure} {arguments : List Value} {line : Nat} (hf : f.Conforms N n)
    (harguments : ∀ v ∈ arguments, v.Conforms N n) :
    k.Runs N n (Eval.callFunction f arguments line) (Value.Conforms N) := by
  intro s hs hn
  rcases (Nat.lt_or_ge s.depth s.maxDepth).symm with hle | hlt
  · rw [Eval.Meets, Eval.callFunction_refused hle]
    exact ⟨hs.conforms.progress_refl, trivial⟩
  rw [Eval.Meets, Eval.callFunction_entered hlt]
  obtain ⟨hcalled, hscope, hpermits⟩ :=
    hs.conforms.called (hf.mono hn) fun v hv => (harguments v hv).mono hn
  have hbegins : N.Begins (.block (s.called f arguments).1 f.function.body) (s.called f arguments).2 := by
    refine ⟨hcalled.conforms, hscope, ?_, trivial⟩
    show N.Knows (Located.stmts (State.permitsLoopControl _ (s.called f arguments).1) f.function.body)
    rw [hpermits, ← FunctionDecl.located_eq]
    exact hf.code
  have hdepth : (s.called f arguments).2.depth = k.depth + 1 :=
    hcalled.depth_eq.trans (congrArg (· + 1) hs.depth_eq)
  refine ⟨⟨hbegins, .inr ⟨hdepth, hpermits⟩⟩, ?_⟩
  rintro ⟨o, s'⟩ ⟨hprogress, ho⟩
  -- The end of the body is one call deeper than the spot, which leaving the call makes up for.
  have hreturned : s.Progress N s'.shallower := (hcalled.trans hprogress).returned
  have hresult : Returns.Conforms N s'.classes.size o.result := Outcome.result_conforms (hpermits ▸ ho)
  change Eval.Meets (k.contract N) (Eval.leaveCall >>= fun _ => Eval.ofExcept o.result) s'
    (k.Makes N (Value.Conforms N) s)
  rw [Eval.meets_bind, Eval.leaveCall, Eval.meets_modify]
  exact (ofExcept hresult _ (hs.progress hreturned) (Nat.le_refl _)).mono
    fun _ _ hmakes => hmakes.after hreturned

theorem tag {m : Member} {arguments : List Value} {line : Nat} (hm : N.tidy → m.Declared)
    (harguments : ∀ v ∈ arguments, v.Conforms N n) :
    k.Runs N n (Eval.tag m arguments line) (Value.Conforms N) := by
  unfold Eval.tag
  split
  · next payload =>
    have htagged : (Value.tagged m payload).Conforms N n := ⟨hm, harguments payload List.mem_cons_self⟩
    exact value htagged
  · exact fault trivial

theorem callValue {callee : Value} {arguments : List Value} {scope : ScopeId} {line : Nat}
    (hcallee : callee.Conforms N n) (harguments : ∀ v ∈ arguments, v.Conforms N n) :
    k.Runs N n (Eval.callValue callee arguments scope line) (Value.Conforms N) := by
  unfold Eval.callValue
  split
  · exact callNative harguments
  · exact callFunction hcallee harguments
  · exact tag hcallee harguments
  · exact tag hcallee.1 harguments
  · exact fault trivial

theorem instantiate {target : Value} {arguments : Eval (List Value)} {line : Nat}
    (htarget : target.Conforms N n)
    (harguments : k.Runs N n arguments fun n vs => ∀ v ∈ vs, v.Conforms N n) :
    k.Runs N n (Eval.instantiate target arguments line) (Value.Conforms N) := by
  unfold Eval.instantiate
  split
  · next id =>
    have hnew : ∀ m, n ≤ m → k.Runs N m (Eval.create (·.newInstance id)) fun _ _ => True := by
      refine fun m hm => create fun s hs hs' => ⟨hs.conforms.progress_newInstance ?_, trivial⟩
      exact fun htidy => Nat.lt_of_lt_of_le (htarget htidy) (Nat.le_trans hm hs')
    refine harguments.bind fun m vs hm hvs => (hnew m hm).bind fun m' i hm' _ =>
      get_bind fun s hs hs' => ?_
    have hinst : ∀ m, k.Runs N m (Pure.pure (Value.inst i)) (Value.Conforms N) :=
      fun m => value trivial
    dsimp only
    split
    · next f hf =>
      have hmethod : (⟨f, (s.classOf id).scope, some (.ofInstance i)⟩ : Closure).Conforms N
          s.classes.size := by
        refine ⟨(hs.conforms.classOf id).methods _ (Record.mem_entries_of_get? hf), ?_⟩
        simp [Receiver.Conforms]
      have hle := Nat.le_trans hm' hs'
      exact (callFunction hmethod fun v hv => (hvs v hv).mono hle).bind fun _ _ _ _ => hinst _
    · exact hinst _
  · exact fault trivial

/-! ### Choosing an arm -/

end Spot.Runs

def PatternMatch.Conforms (N : Norm) (n : Nat) : PatternMatch → Prop
  | miss => True
  | hit binding => ∀ pair ∈ binding, pair.2.Conforms N n

theorem Member.destructure_conforms {m : Member} {name : String} {v : Value}
    (hv : v.Conforms N n) : (m.destructure name v).Conforms N n := by
  unfold Member.destructure
  split
  · split
    · exact fun pair hpair => Option.mem_some.mp hpair ▸ hv.2
    · trivial
  · trivial

namespace Spot.Runs

variable {k : Spot}

theorem compare {candidate scrutinee : Value} :
    k.Runs N n (Eval.compare candidate scrutinee) (PatternMatch.Conforms N) := by
  refine get_bind fun s _ _ => pure fun m _ => ?_
  split
  · exact fun _ => nofun
  · trivial

theorem tryPattern {scrutinee : Value} {pattern : Expr Nat} (hscrutinee : scrutinee.Conforms N n)
    (hpattern : N.Knows (pattern.located k.inLoop)) :
    k.Runs N n (Eval.tryPattern k.scope scrutinee pattern) (PatternMatch.Conforms N) := by
  have htaken : ∀ {m : Member} {name : String} {n' : Nat}, n ≤ n' →
      k.Runs N n' (Pure.pure (m.destructure name scrutinee)) (PatternMatch.Conforms N) :=
    fun hn => pure fun n' hn' =>
      Member.destructure_conforms (hscrutinee.mono (Nat.le_trans hn hn'))
  unfold Eval.tryPattern
  split
  · exact (expression hpattern).bind fun _ _ _ _ => compare
  · next callee name nameLine line hcall =>
    obtain rfl := Expr.nameCall?_eq_some hcall
    rw [Expr.located, Norm.knows_append] at hpattern
    obtain ⟨hcallee, harguments⟩ := hpattern
    have hargument : N.Knows ((Expr.place (.variable name nameLine)).located k.inLoop) :=
      fun x hx => harguments x (Located.mem_exprs.mpr ⟨_, List.mem_cons_self, hx⟩)
    refine (expression hcallee).bind fun m value hm hvalue => ?_
    split
    · exact htaken hm
    · exact htaken hm
    · refine (expression hargument).bind fun m' argument hm' hargument => ?_
      have hvalues : ∀ v ∈ [argument], v.Conforms N m' := by simpa using hargument
      exact (callValue (hvalue.mono hm') hvalues).bind fun _ _ _ _ => compare

/-! ### Declarations, headers of loops, loop control -/

theorem makeFunction {f : FunctionDecl Nat} (hf : N.Knows f.located) :
    k.Runs N n (Eval.makeFunction k.scope f) (Value.Conforms N) := by
  have hvalue : ∀ m, (Value.function ⟨f, k.scope, none⟩).Conforms N m :=
    fun _ => ⟨hf, fun _ => nofun⟩
  unfold Eval.makeFunction
  dsimp only
  split
  · exact (declare (hvalue n)).bind fun m _ _ _ => value (hvalue m)
  · exact value (hvalue n)

theorem declareVariable {d : VariableDecl Nat} (hd : N.Knows (d.located k.inLoop)) :
    k.Runs N n (Eval.declareVariable k.scope d) (Value.Conforms N) := by
  have hset : ∀ {m : Nat} {name : String} {v : Value} {constant : Bool}, v.Conforms N m →
      k.Runs N m (do
        Eval.declare k.scope name v constant
        return v) (Value.Conforms N) :=
    fun hv => (declare hv).bind fun _ _ hm _ => value (hv.mono hm)
  match d with
  | .variable name none line => exact hset trivial
  | .variable name (some e) line => exact (expression hd).bind fun _ v _ hv => hset hv
  | .constant name e line => exact (expression hd).bind fun _ v _ hv => hset hv

theorem forLoop {start : VariableDecl Nat} {test update : Expr Nat} {body : List (Stmt Nat)}
    (hstart : N.Knows (start.located k.inLoop))
    (hloop : N.Knows ((Task.forLoop k.scope test update body).located k.inLoop)) :
    k.Runs N n (Eval.forLoop k.scope start test update body) (Value.Conforms N) := by
  refine enter fun inner => ?_
  have hdeclare : (k.inside inner).Runs N n (Eval.declareVariable inner start) (Value.Conforms N) :=
    declareVariable hstart
  exact hdeclare.bind fun m _ _ _ =>
    perform (.of_not_isBlock rfl rfl hloop trivial)

theorem loopControl {word : String} {signal : Signal} {line : Nat}
    (hsignal : ∀ n, k.inLoop = true → signal.Conforms N n k.inLoop)
    (hfault : k.inLoop = false → (Fault.loopControlOutsideLoop word line).Conforms N) :
    k.Runs N n (Eval.loopControl k.scope word signal line) (Value.Conforms N) := by
  refine get_bind fun s hs _ => ?_
  split
  · next hpermits => exact throw fun m _ => hsignal m (hs.permits_eq.symm.trans hpermits)
  · next hpermits =>
    exact fault (hfault (hs.permits_eq.symm.trans (Bool.eq_false_iff.mpr hpermits)))

theorem methodTable_knows {methods : List (FunctionDecl Nat)}
    (h : N.Knows (Located.functions methods)) :
    ∀ entry ∈ (Eval.methodTable methods).entries, N.Knows entry.2.located := by
  intro entry hentry
  obtain ⟨f, hf, rfl⟩ := List.mem_map.mp (Record.mem_ofList hentry)
  exact fun x hx => h x (Located.mem_functions.mpr ⟨f, hf, hx⟩)

theorem declareClass {c : ClassDecl Nat} (hc : N.Knows (c.located k.inLoop)) :
    k.Runs N n (Eval.declareClass k.scope c) (Value.Conforms N) := by
  obtain ⟨name, fieldNames, staticFields, methods, staticMethods, line⟩ := c
  rw [ClassDecl.located, Norm.knows_append, Norm.knows_append] at hc
  obtain ⟨⟨hfields, hmethods⟩, hstaticMethods⟩ := hc
  refine (fields hfields).bind fun m values _ hvalues => ?_
  have hnew : k.Runs N m (Eval.create (·.newClass ⟨name, fieldNames, .ofList values,
      Eval.methodTable methods, Eval.methodTable staticMethods, k.scope⟩))
      (Value.Conforms N) := by
    refine create fun s hs hm => ⟨hs.conforms.progress_newClass ?_, fun _ => ?_⟩
    · exact ⟨.ofList fun entry hentry => (hvalues entry hentry).mono hm,
        methodTable_knows hmethods, methodTable_knows hstaticMethods⟩
    · simp [State.newClass]
  exact hnew.bind fun _ v _ hv => (declare hv).bind fun _ _ _ _ => value (v := .null) trivial

theorem declareEnum {name : String} {members : List String} :
    k.Runs N n (Eval.declareEnum k.scope name members) (Value.Conforms N) := by
  have hserial : k.Runs N n (Eval.create State.newSerial) fun _ _ => True :=
    create fun s hs _ => ⟨hs.conforms.progress_newSerial, trivial⟩
  refine hserial.bind fun m serial _ _ => ?_
  have hdeclare : k.Runs N m (Eval.declare k.scope name (.enumeration ⟨serial, name, members⟩) false)
      fun _ _ => True :=
    declare trivial
  exact hdeclare.bind fun _ _ _ _ => value (v := .null) trivial

/-! ### Blocks -/

section Blocks

variable (hloops : k.loops = false)

include hloops

theorem runArm {binding : Option (String × Value)} {body : List (Stmt Nat)}
    (hbinding : ∀ pair ∈ binding, pair.2.Conforms N n)
    (hbody : N.Knows (Located.stmts k.inLoop body)) :
    k.Runs N n (Eval.runArm k.scope binding body) (Value.Conforms N) := by
  refine enter fun inner => ?_
  have hrun : ∀ m, (k.inside inner).Runs N m (Eval.perform (.block inner body)) (Value.Conforms N) :=
    fun _ => block hloops hbody
  cases binding with
  | none => exact hrun n
  | some pair =>
    have hdeclare : (k.inside inner).Runs N n (Eval.declare inner pair.1 pair.2 false)
        fun _ _ => True :=
      declare (hbinding pair rfl)
    exact hdeclare.bind fun _ _ _ _ => hrun _

theorem tryPatterns {scrutinee : Value} {default : Option (List (Stmt Nat))}
    {cases : List (Expr Nat × List (Stmt Nat))} (hscrutinee : scrutinee.Conforms N n)
    (hdefault : ∀ body ∈ default, N.Knows (Located.stmts k.inLoop body))
    (hcases : ∀ c ∈ cases,
      N.Knows (c.1.located k.inLoop) ∧ N.Knows (Located.stmts k.inLoop c.2)) :
    k.Runs N n (Eval.tryPatterns k.scope scrutinee default cases) (Value.Conforms N) := by
  induction cases with
  | nil =>
    cases default with
    | none => exact value (v := .null) trivial
    | some body =>
      have hrun : k.Runs N n (Eval.runArm k.scope none body) (Value.Conforms N) :=
        runArm hloops (by simp) (hdefault body rfl)
      exact hrun
  | cons c rest ih =>
    obtain ⟨pattern, body⟩ := c
    obtain ⟨hpattern, hbody⟩ := hcases _ List.mem_cons_self
    refine (tryPattern hscrutinee hpattern).bind fun m found hm hfound => ?_
    cases found with
    | miss => exact (ih fun c hc => hcases c (List.mem_cons_of_mem _ hc)).later hm
    | hit binding => exact runArm hloops hfound hbody

theorem select {scrutinee : Expr Nat} {arms : List (Arm Nat)}
    (hscrutinee : N.Knows (scrutinee.located k.inLoop))
    (harms : N.Knows (Located.arms k.inLoop arms)) :
    k.Runs N n (Eval.select k.scope scrutinee arms) (Value.Conforms N) := by
  refine enter fun inner => ?_
  have hvalue : (k.inside inner).Runs N n (Eval.expression inner scrutinee) (Value.Conforms N) :=
    expression hscrutinee
  have hknown : ∀ arm ∈ arms, (∀ pattern ∈ arm.patterns, N.Knows (pattern.located k.inLoop)) ∧
      N.Knows (Located.stmts k.inLoop arm.body) := by
    intro arm harm
    refine ⟨fun pattern hpattern x hx => ?_, fun x hx => ?_⟩
    · exact harms x (Located.mem_arms.mpr ⟨arm, harm, .inl ⟨pattern, hpattern, hx⟩⟩)
    · exact harms x (Located.mem_arms.mpr ⟨arm, harm, .inr hx⟩)
  refine hvalue.bind fun m v _ hv => tryPatterns (k := k.inside inner) hloops hv ?_ ?_
  · intro body hbody
    obtain ⟨arm, hfind, rfl⟩ := Option.map_eq_some_iff.mp hbody
    exact (hknown arm (List.mem_of_find?_eq_some hfind)).2
  · intro c hc
    obtain ⟨arm, hmem, hc⟩ := List.mem_flatMap.mp hc
    obtain ⟨pattern, hpattern, rfl⟩ := List.mem_map.mp hc
    exact ⟨(hknown arm hmem).1 pattern hpattern, (hknown arm hmem).2⟩

theorem attemptBlock {body handler : List (Stmt Nat)}
    (hbody : N.Knows (Located.stmts k.inLoop body))
    (hhandler : N.Knows (Located.stmts k.inLoop handler)) :
    k.Runs N n (Eval.attemptBlock k.scope body handler) (Value.Conforms N) := by
  have hsame : (k.inLoop || k.loops) = k.inLoop := by rw [hloops, Bool.or_false]
  refine enter_attempt (by rw [hloops]; rfl) (by rwa [hsame]) fun m o _ ho => ?_
  rw [hsame] at ho
  match o with
  | .error (.raised error) =>
    exact (declare (RuntimeError.caught_conforms ho)).bind fun _ _ _ _ => blockIn hloops hhandler
  | .error (.returned v) => exact throw fun _ hm => Signal.Conforms.mono hm ho
  | .error .broke => exact throw fun _ _ => ho
  | .error .continued => exact throw fun _ _ => ho
  | .ok v => exact value ho

theorem evaluate {e : Expr Nat} (he : N.Knows (e.located k.inLoop)) :
    k.Runs N n (Eval.evaluate k.scope e) (Value.Conforms N) := by
  cases e with
  | number x line => exact value (v := .number x) trivial
  | string text line => exact value (v := .string text) trivial
  | place p => exact read he
  | object properties line =>
    refine (fields he).bind fun m entries _ hentries => create fun s hs hm => ⟨?_, trivial⟩
    exact hs.conforms.progress_newObject (.ofList fun entry hentry => (hentries entry hentry).mono hm)
  | array elements line =>
    refine (expressions he).bind fun m items _ hitems => create fun s hs hm => ⟨?_, trivial⟩
    exact hs.conforms.progress_newArray fun v hv => (hitems v (by simpa using hv)).mono hm
  | binary operator left right line =>
    rw [Expr.located, Norm.knows_append] at he
    exact (expression he.1).bind fun _ a _ _ => (expression he.2).bind fun _ b _ _ =>
      inspect fun s _ _ => State.operate_finds
  | assign target v line =>
    rw [Expr.located, Norm.knows_append] at he
    refine (expression he.2).bind fun m v _ hv => ?_
    exact (store he.1 hv).bind fun m' _ hm' _ => value (hv.mono hm')
  | call callee arguments line =>
    rw [Expr.located, Norm.knows_append] at he
    exact (expressions he.2).bind fun m vs _ hvs => (expression he.1).bind fun m' v hm' hv =>
      callValue hv fun u hu => (hvs u hu).mono hm'
  | construct target arguments line =>
    rw [Expr.located, Norm.knows_append] at he
    exact (read he.1).bind fun m v _ hv => instantiate hv (expressions he.2)
  | select scrutinee arms line =>
    rw [Expr.located, Norm.knows_append] at he
    exact select hloops he.1 he.2
  | function f => exact makeFunction he
  | attempt body handler line =>
    rw [Expr.located, Norm.knows_append] at he
    exact attemptBlock hloops he.1 he.2

theorem branch {test : Expr Nat} {body : List (Stmt Nat)} {alternate : Option (List (Stmt Nat))}
    (htest : N.Knows (test.located k.inLoop)) (hbody : N.Knows (Located.stmts k.inLoop body))
    (halternate : ∀ body ∈ alternate, N.Knows (Located.stmts k.inLoop body)) :
    k.Runs N n (Eval.branch k.scope test body alternate) (Value.Conforms N) := by
  refine (expression htest).bind fun m v _ _ => ?_
  split
  · exact blockIn hloops hbody
  · cases alternate with
    | none => exact value (v := .null) trivial
    | some alternate => exact blockIn hloops (halternate alternate rfl)

theorem execute {s : Stmt Nat} (hs : N.known (k.inLoop, s)) (hinner : N.Knows (s.inner k.inLoop)) :
    k.Runs N n (Eval.execute k.scope s) (Value.Conforms N) := by
  match s with
  | .declare d => exact declareVariable hinner
  | .function f =>
    have hvalue : ∀ m, (Value.function ⟨f, k.scope, none⟩).Conforms N m :=
      fun _ => ⟨hinner, fun _ => nofun⟩
    exact (declare (hvalue n)).bind fun m _ _ _ => value (hvalue m)
  | .branch test body none line =>
    rw [Stmt.inner, Norm.knows_append] at hinner
    have hnone : ∀ b ∈ (none : Option (List (Stmt Nat))), N.Knows (Located.stmts k.inLoop b) :=
      fun _ => nofun
    exact branch hloops hinner.1 hinner.2 hnone
  | .branch test body (some alternate) line =>
    rw [Stmt.inner, Norm.knows_append, Norm.knows_append] at hinner
    exact branch hloops hinner.1.1 hinner.1.2 fun b hb => Option.mem_some.mp hb ▸ hinner.2
  | .forLoop start test update body line =>
    rw [Stmt.inner, Norm.knows_append] at hinner
    exact forLoop hinner.1 hinner.2
  | .whileLoop test body line =>
    exact perform (.of_not_isBlock rfl rfl hinner trivial)
  | .returns none line => exact throw fun _ _ => trivial
  | .returns (some e) line =>
    exact (expression hinner).bind fun _ v _ hv => throw fun _ hm => Value.Conforms.mono hm hv
  | .breaks line => exact loopControl (fun _ => id) fun h => .inl ⟨rfl, h ▸ hs⟩
  | .continues line => exact loopControl (fun _ => id) fun h => .inr ⟨rfl, h ▸ hs⟩
  | .throws e line =>
    exact (expression hinner).bind fun _ v _ hv => throw fun _ hm => Value.Conforms.mono hm hv
  | .declareClass c => exact declareClass hinner
  | .declareEnum name members line => exact declareEnum
  | .expression e line => exact expression hinner

theorem executeAll {body : List (Stmt Nat)} {last : Value} (hlast : last.Conforms N n)
    (hbody : N.Knows (Located.stmts k.inLoop body)) :
    k.Runs N n (Eval.executeAll k.scope last body) (Value.Conforms N) := by
  induction body generalizing last n with
  | nil => exact value hlast
  | cons s rest ih =>
    rw [Located.stmts, Norm.knows_cons, Norm.knows_append] at hbody
    obtain ⟨hs, hinner, hrest⟩ := hbody
    exact (execute hloops hs hinner).bind fun m v _ hv => ih hv hrest

end Blocks

/-! ### Loops -/

section Loops

variable (hloops : k.loops = true)

include hloops

theorem whileRounds {test : Expr Nat} {body : List (Stmt Nat)} {last : Value}
    (h : N.Knows ((Task.whileLoop k.scope test body last).located k.inLoop))
    (hlast : last.Conforms N n) :
    k.Runs N n (Eval.whileRounds k.scope test body last) (Value.Conforms N) := by
  have hagain : ∀ {m : Nat} {v : Value}, v.Conforms N m →
      k.Runs N m (Eval.perform (.whileLoop k.scope test body v)) (Value.Conforms N) :=
    fun hv => perform (.of_not_isBlock rfl rfl h hv)
  rw [Task.located, Norm.knows_append] at h
  obtain ⟨htest, hbody⟩ := h
  have hinside : (k.inLoop || k.loops) = true := by rw [hloops, Bool.or_true]
  refine (expression htest).bind fun m v hm _ => ?_
  split
  · exact value (hlast.mono hm)
  · refine enter_attempt (by rw [hloops]; rfl) (by rwa [hinside]) fun m' o hm' ho => ?_
    have hlast' := hlast.mono (Nat.le_trans hm hm')
    cases o with
    | ok v => exact hagain ho
    | error signal =>
      cases signal with
      | continued => exact hagain hlast'
      | broke => exact value hlast'
      | raised error => exact throw fun _ hm => Signal.Conforms.mono hm ho
      | returned v => exact throw fun _ hm => Signal.Conforms.mono hm ho

theorem forRounds {test update : Expr Nat} {body : List (Stmt Nat)}
    (h : N.Knows ((Task.forLoop k.scope test update body).located k.inLoop)) :
    k.Runs N n (Eval.forRounds k.scope test update body) (Value.Conforms N) := by
  have hloop := h
  rw [Task.located, Norm.knows_append, Norm.knows_append] at h
  obtain ⟨⟨htest, hupdate⟩, hbody⟩ := h
  have hagain : ∀ m, k.Runs N m (do
      let _ ← Eval.expression k.scope update
      Eval.perform (.forLoop k.scope test update body)) (Value.Conforms N) :=
    fun m => (expression hupdate).bind fun m' _ _ _ =>
      perform (.of_not_isBlock rfl rfl hloop trivial)
  have hinside : (k.inLoop || k.loops) = true := by rw [hloops, Bool.or_true]
  refine (expression htest).bind fun m v _ _ => ?_
  split
  · exact value (v := .null) trivial
  · refine enter_attempt (by rw [hloops]; rfl) (by rwa [hinside]) fun m' o _ ho => ?_
    cases o with
    | ok v => exact hagain m'
    | error signal =>
      cases signal with
      | continued => exact hagain m'
      | broke => exact value (v := .null) trivial
      | raised error => exact throw fun _ hm => Signal.Conforms.mono hm ho
      | returned v => exact throw fun _ hm => Signal.Conforms.mono hm ho

end Loops

end Spot.Runs

/-! ### Tasks -/

/-- Where the task's own code runs. -/
def Spot.ofTask (t : Task) (s : State) : Spot :=
  ⟨t.scope, s.permitsLoopControl t.scope, t.isLoop, s.depth⟩

theorem Norm.Begins.body_runs {t : Task} {s : State} (h : N.Begins t s) :
    (Spot.ofTask t s).Runs N s.classes.size (Eval.body t) (Value.Conforms N) := by
  have hcode := h.code
  cases t with
  | expression scope e => exact .evaluate rfl hcode
  | block scope body => exact .executeAll rfl trivial hcode
  | whileLoop scope test body last => exact .whileRounds rfl hcode h.pending
  | forLoop scope test update body => exact .forRounds rfl hcode

theorem Spot.Runs.meets {k : Spot} {c : Eval Value} {s : State}
    (h : k.Runs N n c (Value.Conforms N)) (hs : k.Ready N s) (hn : n ≤ s.classes.size) :
    c.Meets (k.contract N) s fun o s' =>
      s.Progress N s' ∧ Outcome.Conforms N s'.classes.size k.inLoop o := by
  refine (h s hs hn).mono ?_
  rintro (signal | value) s' ⟨hprogress, ho⟩
  · exact ⟨hprogress, ho⟩
  · exact ⟨hprogress, ho⟩

/-- A task that begins well asks only for tasks that do so and lie where the program has them, and
concludes well. -/
theorem Norm.Begins.body_meets {t : Task} {s : State} (h : N.Begins t s) :
    (Eval.body t).Meets ((Spot.ofTask t s).contract N) s (N.Concludes t s) :=
  h.body_runs.meets ⟨h.conforms, h.scope_lt, rfl, rfl⟩ (Nat.le_refl _)

theorem Norm.body_meets (t : Task) (s : State) (h : N.Begins t s) :
    (Eval.body t).Meets N.contract s (N.Concludes t s) :=
  h.body_meets.pre_mono fun _ _ hpre => hpre.1

theorem Spot.Runs.ends {k : Spot} {c : Eval Value} {s s' : State} {o : Outcome}
    (h : k.Runs N n c (Value.Conforms N)) (hs : k.Ready N s) (hn : n ≤ s.classes.size)
    (hends : c.Ends s o s') : s.Progress N s' ∧ o.Conforms N s'.classes.size k.inLoop :=
  hends.of_meets N.body_meets ((h.meets hs hn).pre_mono fun _ _ hpre => hpre.1)

end ScriptLang
