import ScriptLang.Proofs.Rules

/-! Evaluation follows the rules: from each site, every construct asks only for permitted tasks and
leaves a trail. The cases are those of the evaluator. -/

namespace ScriptLang

variable {D : Domain}

/-! ### Natives and arguments -/

def Returns.Within (D : Domain) : Except RuntimeError Value → Prop
  | .ok value => value.Within D
  | .error error => error.Within D

theorem Native.len_within {s : State} {name : String} {v : Value} :
    Returns.Within D (Native.len s name v) := by
  unfold Native.len
  split
  · trivial
  · split <;> trivial

theorem Native.assert_within {s : State} {name : String} {v : Value} :
    Returns.Within D (Native.assert s name v) := by
  unfold Native.assert
  split <;> trivial

theorem Native.call_trail {f : Native} {s : State} {arguments : List Value}
    {scope caller : ScopeId} {name : String → Prop} (hf : f.builtin.IsPrelude)
    (harguments : ∀ v ∈ arguments, v.Within D) :
    Trail D scope name s (f.call s arguments caller).2 ∧
      Returns.Within D (f.call s arguments caller).1 := by
  obtain ⟨serial, fname, builtin⟩ := f
  simp only [Builtin.IsPrelude, Builtin.prelude, List.map_cons, List.map_nil, List.mem_cons,
    List.not_mem_nil, or_false] at hf
  rcases hf with rfl | rfl | rfl | rfl | rfl | rfl
  · exact ⟨.change .refl (.print _), trivial⟩
  · rcases arguments with _ | ⟨v, _ | ⟨w, rest⟩⟩
    · exact ⟨.refl, trivial⟩
    · exact ⟨.refl, len_within⟩
    · exact ⟨.refl, trivial⟩
  · rcases arguments with _ | ⟨target, _ | ⟨item, _ | ⟨w, rest⟩⟩⟩
    · exact ⟨.refl, trivial⟩
    · exact ⟨.refl, trivial⟩
    · change Trail D scope name s (Native.push s fname target item).2 ∧
        Returns.Within D (Native.push s fname target item).1
      unfold Native.push
      split
      · exact ⟨.change .refl (.push (harguments item (by simp))), harguments _ (by simp)⟩
      · exact ⟨.refl, trivial⟩
    · exact ⟨.refl, trivial⟩
  · rcases arguments with _ | ⟨v, _ | ⟨w, rest⟩⟩
    · exact ⟨.refl, trivial⟩
    · exact ⟨.refl, trivial⟩
    · exact ⟨.refl, trivial⟩
  · rcases arguments with _ | ⟨v, _ | ⟨w, rest⟩⟩
    · exact ⟨.refl, trivial⟩
    · exact ⟨.refl, trivial⟩
    · exact ⟨.refl, trivial⟩
  · rcases arguments with _ | ⟨v, _ | ⟨w, rest⟩⟩
    · exact ⟨.refl, trivial⟩
    · exact ⟨.refl, assert_within⟩
    · exact ⟨.refl, trivial⟩

theorem Trail.bindReceiver {f : Closure} {scope : ScopeId} {s : State} (hf : f.Within D) :
    Trail D scope (fun _ => True) s (s.bindReceiver scope f.receiver) := by
  cases hreceiver : f.receiver with
  | none => exact .refl
  | some receiver =>
    exact .declare .refl trivial (Receiver.value_within.mpr (hf.2.2 receiver hreceiver))

theorem Trail.bindArguments {f : Closure} {scope : ScopeId} {s : State} {arguments : List Value}
    (hf : f.Within D) (harguments : ∀ v ∈ arguments, v.Within D) :
    Trail D scope (fun _ => True) s (s.bindArguments scope f arguments) := by
  refine State.bindArguments_induction (.bindReceiver hf) fun s' name v hv h => ?_
  exact h.declare trivial (harguments v hv)

theorem Outcome.result_within {o : Outcome} (h : o.Within D False) : Returns.Within D o.result := by
  match o with
  | .ok value => exact h
  | .error (.returned value) => exact h
  | .error (.raised error) => exact h
  | .error .broke => exact h.elim
  | .error .continued => exact h.elim

namespace Site.Runs

variable {k : Site D} {l : Limits}

/-! ### Places -/

theorem read {p : Place Nat} (hp : p.Permitted k.permit) (hsize : l.Covers D (sizeOf p)) :
    k.Runs l (Eval.read k.scope p) (·.Within D) := by
  match p with
  | .variable name line => exact inspect fun s v hs hv => hs.within.lookup k.cell hv
  | .dot container name nameLine line =>
    have hcontainer := expression hp (hsize.lt (by simp only [Place.dot.sizeOf_spec]; omega))
    exact hcontainer.bind fun target ht =>
      inspect fun s v hs hv => hs.within.getMember ht hv
  | .index container key line =>
    have hcontainer := expression hp.1 (hsize.lt (by simp only [Place.index.sizeOf_spec]; omega))
    have hkey := expression hp.2 (hsize.lt (by simp only [Place.index.sizeOf_spec]; omega))
    exact hcontainer.bind fun target ht => hkey.bind fun key _ =>
      inspect fun s v hs hv => hs.within.getMember ht hv

theorem store {p : Place Nat} {v : Value} {line : Nat} (hp : p.Permitted k.permit)
    (hsize : l.Covers D (sizeOf p)) (hv : v.Within D) :
    k.Runs l (Eval.store k.scope p v line) fun _ => True := by
  have hmember : ∀ target key : Value,
      k.Runs l (Eval.write (·.memberWrite target key v line)) fun _ => True := by
    intro target key
    refine write fun s w hs hw => ?_
    obtain ⟨hallowed, hvalue⟩ := State.memberWrite_allowed hw
    exact ⟨hallowed, hvalue ▸ hv⟩
  match p with
  | .variable name line =>
    refine write fun s w hs hw => ?_
    obtain ⟨hallowed, hvalue⟩ := State.assignment_allowed hw
    exact ⟨hallowed, hvalue ▸ hv⟩
  | .dot container name nameLine line =>
    have hcontainer := expression hp (hsize.lt (by simp only [Place.dot.sizeOf_spec]; omega))
    exact hcontainer.bind fun target _ => hmember target _
  | .index container key line =>
    have hcontainer := expression hp.1 (hsize.lt (by simp only [Place.index.sizeOf_spec]; omega))
    have hkey := expression hp.2 (hsize.lt (by simp only [Place.index.sizeOf_spec]; omega))
    exact hcontainer.bind fun target _ => hkey.bind fun key _ => hmember target key

/-! ### Calls -/

theorem callNative {f : Native} {arguments : List Value} {scope : ScopeId}
    (hf : f.builtin.IsPrelude) (harguments : ∀ v ∈ arguments, v.Within D) :
    k.Runs l (Eval.callNative f arguments scope) (·.Within D) := by
  have hcall : k.Runs l (Eval.create fun s => f.call s arguments scope) (Returns.Within D) :=
    create fun s _ => Native.call_trail hf harguments
  refine hcall.bind fun result hresult => ofExcept ?_
  cases result <;> exact hresult

/-- The call is a trail of its own, one call deeper, from a new scope inside of the closure's. -/
theorem callFunction {f : Closure} {arguments : List Value} {line : Nat} (hf : f.Within D)
    (harguments : ∀ v ∈ arguments, v.Within D) :
    k.Runs l (Eval.callFunction f arguments line) (·.Within D) := by
  intro s hs
  by_cases hdepth : s.maxDepth ≤ s.depth
  · simp only [Eval.callFunction, Eval.enterCall, Eval.meets_bind, Eval.meets_get, if_pos hdepth]
    exact ⟨.refl, trivial⟩
  simp only [Eval.callFunction, Eval.enterCall, Eval.meets_bind, Eval.meets_get, if_neg hdepth,
    Eval.meets_modify, Eval.meets_create, Eval.meets_attempt, Eval.leaveCall]
  have hlt : s.depth < s.maxDepth := Nat.lt_of_not_le hdepth
  have hbody := FunctionDecl.permitted_iff.mp hf.1
  let entered := s.deeper.enter .function f.scope
  let called := entered.2.bindArguments entered.1 f arguments
  let callee : Site D := ⟨entered.1, fun _ => True, False, hs.within.deeper.entered _ _⟩
  have hbound : Trail D callee.scope callee.name entered.2 called := .bindArguments hf harguments
  have hwithin : called.Within D :=
    hbound.within (hs.within.deeper.enter hf.2.1) callee.cell
  have hfits : callee.Fits called := by
    refine Fits.trail ⟨fun hpermits => ?_, .inr ?_⟩ hbound
    · cases State.permitsLoopControl_enter.symm.trans hpermits
    · exact State.enter_fst_lt
  have hdepth' : called.depth = s.depth + 1 := hbound.depth_eq
  have hmaxDepth' : called.maxDepth = s.maxDepth := hbound.maxDepth_eq
  refine ⟨⟨⟨hwithin, callee.cell, ⟨_, hbody⟩, trivial, fun _ => ?_⟩, ?_, ?_⟩, fun o s' hpost => ?_⟩
  · show called.depth ≤ called.maxDepth
    omega
  · exact hmaxDepth'.trans hs.maxDepth_eq
  · have hdepth_eq := hs.depth_eq
    exact .inr (.inl (by show l.depth < called.depth; omega))
  · obtain ⟨htrail, ho⟩ := hpost callee rfl hbody hfits
    have hcall : Trail D k.scope k.name s s'.shallower :=
      .call .refl hf.2.1 hlt (hbound.trans htrail)
    have hresult : k.Runs l (Eval.ofExcept o.result) (·.Within D) := by
      have hreturns := Outcome.result_within ho
      exact ofExcept (by cases hr : o.result <;> rw [hr] at hreturns <;> exact hreturns)
    refine (hresult _ (hs.trail hcall)).mono ?_
    rintro r s'' ⟨htrail', hr⟩
    exact ⟨hcall.trans htrail', hr⟩

theorem tag {m : Member} {arguments : List Value} {line : Nat}
    (harguments : ∀ v ∈ arguments, v.Within D) :
    k.Runs l (Eval.tag m arguments line) (·.Within D) := by
  unfold Eval.tag
  split
  · next payload => exact pure (harguments payload List.mem_cons_self)
  · exact fault

theorem callValue {callee : Value} {arguments : List Value} {scope : ScopeId} {line : Nat}
    (hcallee : callee.Within D) (harguments : ∀ v ∈ arguments, v.Within D) :
    k.Runs l (Eval.callValue callee arguments scope line) (·.Within D) := by
  unfold Eval.callValue
  split
  · exact callNative hcallee harguments
  · exact callFunction hcallee harguments
  · exact tag harguments
  · exact tag harguments
  · exact fault

theorem instantiate {target : Value} {arguments : Eval (List Value)} {line : Nat}
    (htarget : target.Within D)
    (harguments : k.Runs l arguments fun vs => ∀ v ∈ vs, v.Within D) :
    k.Runs l (Eval.instantiate target arguments line) (·.Within D) := by
  unfold Eval.instantiate
  split
  · next id =>
    have hnew : k.Runs l (Eval.create (·.newInstance id)) fun i => D.cell (.container (.inst i)) :=
      create fun s hs => ⟨.change .refl (.inst htarget), hs.within.fresh _ (Nat.lt_irrefl _)⟩
    refine harguments.bind fun vs hvs => hnew.bind fun i hi => get_bind fun s hs => ?_
    dsimp only
    split
    · next f hf =>
      obtain ⟨hpermitted, hscope⟩ :=
        (hs.within.classOf htarget).methods _ (Record.mem_entries_of_get? hf)
      have hcall : k.Runs l (Eval.callFunction ⟨f, (s.classOf id).scope, some (.ofInstance i)⟩ vs line)
          (·.Within D) :=
        callFunction ⟨hpermitted, hscope, fun receiver hr => Option.mem_some.mp hr ▸ hi⟩ hvs
      have hinst : (Value.inst i).Within D := hi
      exact (hcall.bind fun _ _ => pure hinst) s hs
    · exact pure (show (Value.inst i).Within D from hi) s hs
  · exact fault

/-! ### Choosing an arm -/

end Site.Runs

def PatternMatch.Within (D : Domain) : PatternMatch → Prop
  | miss => True
  | hit binding => ∀ pair ∈ binding, pair.2.Within D

theorem Member.destructure_within {m : Member} {name : String} {v : Value} (hv : v.Within D) :
    (m.destructure name v).Within D := by
  unfold Member.destructure
  split
  · split
    · exact fun pair hpair => Option.mem_some.mp hpair ▸ hv
    · trivial
  · trivial

namespace Site.Runs

variable {k : Site D} {l : Limits}

theorem compare {candidate scrutinee : Value} :
    k.Runs l (Eval.compare candidate scrutinee) (PatternMatch.Within D) := by
  refine get_bind fun s hs => ?_
  refine pure ?_ s hs
  split
  · exact fun _ => nofun
  · trivial

theorem tryPattern {scrutinee : Value} {pattern : Expr Nat} (hscrutinee : scrutinee.Within D)
    (hpattern : pattern.Permitted k.permit) (hsize : l.Covers D (sizeOf pattern + 1)) :
    k.Runs l (Eval.tryPattern k.scope scrutinee pattern) (PatternMatch.Within D) := by
  unfold Eval.tryPattern
  split
  · exact (expression hpattern (hsize.lt (Nat.lt_succ_self _))).bind fun _ _ => compare
  · next callee name nameLine line hcall =>
    obtain rfl := Expr.nameCall?_eq_some hcall
    obtain ⟨hcallee, hargument, -⟩ := hpattern
    have hcalleeSize := hsize.lt (m := sizeOf callee)
      (by simp only [Expr.call.sizeOf_spec]; omega)
    have hargumentSize := hsize.lt (m := sizeOf (Expr.place (.variable name nameLine) : Expr Nat))
      (by simp only [Expr.call.sizeOf_spec, List.cons.sizeOf_spec]; omega)
    refine (expression hcallee hcalleeSize).bind fun value hvalue => ?_
    split
    · exact pure (Member.destructure_within hscrutinee)
    · exact pure (Member.destructure_within hscrutinee)
    · refine (expression hargument hargumentSize).bind fun argument hargument => ?_
      have harguments : ∀ v ∈ [argument], v.Within D := by simpa using hargument
      exact (callValue hvalue harguments).bind fun _ _ => compare

theorem runArm {binding : Option (String × Value)} {body : List (Stmt Nat)}
    (hbinding : ∀ pair ∈ binding, pair.2.Within D) (hbody : Permit.Stmts k.permit.inside body)
    (hsize : D.loop ∨ sizeOf body < l.size) :
    k.Runs l (Eval.runArm k.scope binding body) (·.Within D) := by
  refine enter fun inner cell => ?_
  have hrun : (k.inside .child inner cell).Runs l (Eval.perform (.block inner body))
      (·.Within D) :=
    perform ⟨rfl, hbody, trivial, hsize⟩
  cases binding with
  | none => exact hrun
  | some pair =>
    have hdeclare : (k.inside .child inner cell).Runs l
        (Eval.declare inner pair.1 pair.2 false) fun _ => True :=
      declare trivial (hbinding pair rfl)
    exact hdeclare.bind fun _ _ => hrun

theorem tryPatterns {scrutinee : Value} {default : Option (List (Stmt Nat))}
    {cases : List (Expr Nat × List (Stmt Nat))} (hscrutinee : scrutinee.Within D)
    (hdefault : ∀ body ∈ default,
      Permit.Stmts k.permit.inside body ∧ (D.loop ∨ sizeOf body < l.size))
    (hcases : ∀ c ∈ cases, c.1.Permitted k.permit ∧ l.Covers D (sizeOf c.1 + 1) ∧
      Permit.Stmts k.permit.inside c.2 ∧ (D.loop ∨ sizeOf c.2 < l.size)) :
    k.Runs l (Eval.tryPatterns k.scope scrutinee default cases) (·.Within D) := by
  induction cases with
  | nil =>
    cases default with
    | none => exact pure trivial
    | some body =>
      obtain ⟨hbody, hsize⟩ := hdefault body rfl
      have hrun : k.Runs l (Eval.runArm k.scope none body) (·.Within D) :=
        runArm (by simp) hbody hsize
      exact hrun
  | cons c rest ih =>
    obtain ⟨pattern, body⟩ := c
    obtain ⟨hpattern, hpatternSize, hbody, hbodySize⟩ := hcases _ List.mem_cons_self
    refine (tryPattern hscrutinee hpattern hpatternSize).bind fun found hfound => ?_
    cases found with
    | miss => exact ih fun c hc => hcases c (List.mem_cons_of_mem _ hc)
    | hit binding => exact runArm hfound hbody hbodySize

theorem select {scrutinee : Expr Nat} {arms : List (Arm Nat)}
    (hscrutinee : scrutinee.Permitted k.permit.inside) (harms : Permit.Arms k.permit.inside arms)
    (hsize : l.Covers D (1 + sizeOf scrutinee + sizeOf arms)) :
    k.Runs l (Eval.select k.scope scrutinee arms) (·.Within D) := by
  refine enter fun inner cell => ?_
  have hvalue : (k.inside .child inner cell).Runs l (Eval.expression inner scrutinee)
      (·.Within D) :=
    expression hscrutinee (hsize.lt (by omega))
  have harm : ∀ arm ∈ arms, sizeOf arm.patterns + sizeOf arm.body < sizeOf arms := by
    intro arm harm
    have hlt := List.sizeOf_lt_of_mem harm
    obtain ⟨patterns, isDefault, body⟩ := arm
    simp only [Arm.mk.sizeOf_spec, Arm.patterns, Arm.body] at hlt ⊢
    omega
  rw [Permit.arms_iff] at harms
  refine hvalue.bind fun v hv => tryPatterns hv ?_ ?_
  · intro body hbody
    obtain ⟨arm, hfind, rfl⟩ := Option.map_eq_some_iff.mp hbody
    have hmem := List.mem_of_find?_eq_some hfind
    have hlt := harm arm hmem
    exact ⟨(harms arm hmem).2, hsize.lt (by omega)⟩
  · intro c hc
    obtain ⟨arm, hmem, hc⟩ := List.mem_flatMap.mp hc
    obtain ⟨pattern, hpattern, rfl⟩ := List.mem_map.mp hc
    have hlt := harm arm hmem
    have hltPattern := List.sizeOf_lt_of_mem hpattern
    have hpatternSize : l.Covers D (sizeOf pattern + 1) :=
      hsize.imp_right fun hle => by omega
    have hbodySize : D.loop ∨ sizeOf arm.body < l.size := hsize.lt (by omega)
    exact ⟨(harms arm hmem).1 pattern hpattern, hpatternSize, (harms arm hmem).2, hbodySize⟩

/-! ### Expressions -/

theorem makeFunction {f : FunctionDecl Nat} (hf : (Expr.function f).Permitted k.permit) :
    k.Runs l (Eval.makeFunction k.scope f) (·.Within D) := by
  have hvalue : (Value.function ⟨f, k.scope, none⟩).Within D :=
    ⟨hf.1.inside, k.cell, fun _ => nofun⟩
  unfold Eval.makeFunction
  dsimp only
  split
  · next hname => exact (declare (hf.2 hname) hvalue).bind fun _ _ => pure hvalue
  · exact pure hvalue

theorem attemptBlock {body handler : List (Stmt Nat)} {line : Nat}
    (h : (Expr.attempt body handler line).Permitted k.permit)
    (hsize : l.Covers D (sizeOf (Expr.attempt body handler line))) :
    k.Runs l (Eval.attemptBlock k.scope body handler) (·.Within D) := by
  obtain ⟨herror, hbody, hhandler⟩ := h
  have hbodySize := hsize.lt (m := sizeOf body) (by simp only [Expr.attempt.sizeOf_spec]; omega)
  have hhandlerSize := hsize.lt (m := sizeOf handler)
    (by simp only [Expr.attempt.sizeOf_spec]; omega)
  refine enter_attempt hbody hbodySize fun o inner cell ho => ?_
  match o with
  | .error (.raised error) =>
    exact (declare herror (RuntimeError.caught_within ho)).bind fun _ _ =>
      blockIn hhandler hhandlerSize
  | .error (.returned value) => exact throw ho
  | .error .broke => exact throw ho
  | .error .continued => exact throw ho
  | .ok value => exact pure ho

theorem evaluate {e : Expr Nat} (he : e.Permitted k.permit) (hsize : l.Covers D (sizeOf e)) :
    k.Runs l (Eval.evaluate k.scope e) (·.Within D) := by
  have hle : ∀ {n}, n ≤ sizeOf e → l.Covers D n := fun h => hsize.imp_right (Nat.le_trans h)
  -- The parts are smaller than `e`, and the tasks that `e` asks for are about its parts.
  cases e with
  | number x line => exact pure trivial
  | string text line => exact pure trivial
  | place p => exact read he (hle (by simp only [Expr.place.sizeOf_spec]; omega))
  | object properties line =>
    have hfields := fields (k := k) he (hle (by simp only [Expr.object.sizeOf_spec]; omega))
    refine hfields.bind fun entries hentries => create fun s hs => ?_
    have hrecord : (Record.ofList entries).Within D :=
      fun entry hentry => hentries entry (Record.mem_ofList hentry)
    exact ⟨.change .refl (.object hrecord), hs.within.fresh _ (Nat.lt_irrefl _)⟩
  | array elements line =>
    have hitems := expressions (k := k) he (hle (by simp only [Expr.array.sizeOf_spec]; omega))
    refine hitems.bind fun items hitems => create fun s hs => ?_
    have harray : ∀ v ∈ items.toArray, v.Within D := by simpa using hitems
    exact ⟨.change .refl (.array harray), hs.within.fresh _ (Nat.lt_irrefl _)⟩
  | binary operator left right line =>
    have hleft := expression he.1 (hsize.lt (by simp only [Expr.binary.sizeOf_spec]; omega))
    have hright := expression he.2 (hsize.lt (by simp only [Expr.binary.sizeOf_spec]; omega))
    exact hleft.bind fun a _ => hright.bind fun b _ =>
      inspect fun s v _ hv => State.operate_within hv
  | assign target value line =>
    have hvalue := expression he.2 (hsize.lt (by simp only [Expr.assign.sizeOf_spec]; omega))
    refine hvalue.bind fun v hv => ?_
    have hstore : k.Runs l (Eval.store k.scope target v line) fun _ => True :=
      store he.1 (hle (by simp only [Expr.assign.sizeOf_spec]; omega)) hv
    exact hstore.bind fun _ _ => pure hv
  | call callee arguments line =>
    have harguments := expressions (k := k) he.2
      (hle (by simp only [Expr.call.sizeOf_spec]; omega))
    have hcallee := expression he.1 (hsize.lt (by simp only [Expr.call.sizeOf_spec]; omega))
    exact harguments.bind fun vs hvs => hcallee.bind fun v hv => callValue hv hvs
  | construct target arguments line =>
    have htarget := read (k := k) he.1 (hle (by simp only [Expr.construct.sizeOf_spec]; omega))
    have harguments := expressions (k := k) he.2
      (hle (by simp only [Expr.construct.sizeOf_spec]; omega))
    exact htarget.bind fun v hv => instantiate hv harguments
  | select scrutinee arms line =>
    exact select he.1 he.2 (hle (by simp only [Expr.select.sizeOf_spec]; omega))
  | function f => exact makeFunction he
  | attempt body handler line => exact attemptBlock he hsize

/-! ### Statements -/

theorem declareVariable {d : VariableDecl Nat} (hd : d.Permitted k.permit)
    (hsize : l.Covers D (sizeOf d)) :
    k.Runs l (Eval.declareVariable k.scope d) (·.Within D) := by
  match d with
  | .variable name none line =>
    have hnull : Value.null.Within D := trivial
    exact (declare hd hnull).bind fun _ _ => pure hnull
  | .variable name (some value) line =>
    have hvalue := expression hd.2 (hsize.lt
      (by simp only [VariableDecl.variable.sizeOf_spec, Option.some.sizeOf_spec]; omega))
    exact hvalue.bind fun v hv => (declare hd.1 hv).bind fun _ _ => pure hv
  | .constant name value line =>
    have hvalue := expression hd.2
      (hsize.lt (by simp only [VariableDecl.constant.sizeOf_spec]; omega))
    exact hvalue.bind fun v hv => (declare hd.1 hv).bind fun _ _ => pure hv

theorem branch {test : Expr Nat} {body : List (Stmt Nat)} {alternate : Option (List (Stmt Nat))}
    {line : Nat} (h : (Stmt.branch test body alternate line).Permitted k.permit)
    (hsize : l.Covers D (sizeOf (Stmt.branch test body alternate line))) :
    k.Runs l (Eval.branch k.scope test body alternate) (·.Within D) := by
  have hbodySize := hsize.lt (m := sizeOf body) (by simp only [Stmt.branch.sizeOf_spec]; omega)
  have htestSize := hsize.lt (m := sizeOf test) (by simp only [Stmt.branch.sizeOf_spec]; omega)
  cases alternate with
  | none =>
    refine (expression h.1 htestSize).bind fun v _ => ?_
    split
    · exact blockIn h.2 hbodySize
    · exact pure trivial
  | some alternate =>
    have halternateSize := hsize.lt (m := sizeOf alternate)
      (by simp only [Stmt.branch.sizeOf_spec, Option.some.sizeOf_spec]; omega)
    refine (expression h.1 htestSize).bind fun v _ => ?_
    split
    · exact blockIn h.2.1 hbodySize
    · exact blockIn h.2.2 halternateSize

theorem forLoop {start : VariableDecl Nat} {test update : Expr Nat} {body : List (Stmt Nat)}
    {line : Nat} (h : (Stmt.forLoop start test update body line).Permitted k.permit) :
    k.Runs l (Eval.forLoop k.scope start test update body) (·.Within D) := by
  obtain ⟨hloop, hstart, htest, hupdate, hbody⟩ := h
  refine enter fun inner cell => ?_
  have hdeclare : (k.inside .child inner cell).Runs l (Eval.declareVariable inner start)
      (·.Within D) :=
    declareVariable hstart (.inl hloop)
  exact hdeclare.bind fun _ _ =>
    perform ⟨rfl, ⟨hloop, htest, hupdate, hbody⟩, trivial, .inl hloop⟩

theorem loopControl {word : String} {signal : Signal} {line : Nat}
    (h : k.control → signal.Within D k.control) :
    k.Runs l (Eval.loopControl k.scope word signal line) (·.Within D) := by
  refine get_bind fun s hs => ?_
  split
  · next hpermits => exact throw (h (hs.fits.control hpermits)) s hs
  · exact fault s hs

theorem methodTable_within {methods : List (FunctionDecl Nat)} {p : Permit} {scope : ScopeId}
    (hscope : D.cell (.scope scope)) (h : Permit.Functions p methods) (hloop : p.loop = D.loop) :
    ∀ entry ∈ (Eval.methodTable methods).entries,
      entry.2.Permitted (.anyName D.loop) ∧ D.cell (.scope scope) := by
  intro entry hentry
  obtain ⟨f, hf, rfl⟩ := List.mem_map.mp (Record.mem_ofList hentry)
  exact ⟨hloop ▸ (Permit.functions_iff.mp h f hf).inside, hscope⟩

theorem declareClass {c : ClassDecl Nat} (hc : c.Permitted k.permit)
    (hsize : l.Covers D (sizeOf c)) :
    k.Runs l (Eval.declareClass k.scope c) (·.Within D) := by
  obtain ⟨name, fieldNames, staticFields, methods, staticMethods, line⟩ := c
  obtain ⟨hname, hfields, hmethods, hstaticMethods⟩ := hc
  have hfieldsSize : l.Covers D (sizeOf staticFields) :=
    hsize.imp_right fun h => by simp only [ClassDecl.mk.sizeOf_spec] at h; omega
  have hvalues := fields (k := k) hfields hfieldsSize
  refine hvalues.bind fun values hvalues => ?_
  have hrecord : (Record.ofList values).Within D :=
    fun entry hentry => hvalues entry (Record.mem_ofList hentry)
  have hnew : k.Runs l (Eval.create (·.newClass ⟨name, fieldNames, .ofList values,
      Eval.methodTable methods, Eval.methodTable staticMethods, k.scope⟩)) (·.Within D) := by
    refine create fun s hs => ⟨.change .refl (.classRef ?_), hs.within.fresh _ (Nat.lt_irrefl _)⟩
    exact ⟨hrecord, methodTable_within k.cell hmethods rfl,
      methodTable_within k.cell hstaticMethods rfl⟩
  exact hnew.bind fun v hv => (declare hname hv).bind fun _ _ => pure trivial

theorem declareEnum {name : String} {members : List String} (hname : k.name name) :
    k.Runs l (Eval.declareEnum k.scope name members) (·.Within D) := by
  have hserial : k.Runs l (Eval.create State.newSerial) fun _ => True :=
    create fun s _ => ⟨.change .refl .serial, trivial⟩
  refine hserial.bind fun serial _ => ?_
  have henumeration : (Value.enumeration ⟨serial, name, members⟩).Within D := trivial
  exact (declare hname henumeration).bind fun _ _ => pure trivial

theorem execute {s : Stmt Nat} (hs : s.Permitted k.permit) (hsize : l.Covers D (sizeOf s)) :
    k.Runs l (Eval.execute k.scope s) (·.Within D) := by
  match s with
  | .declare d =>
    exact declareVariable hs (hsize.imp_right fun h => by
      simp only [Stmt.declare.sizeOf_spec] at h; omega)
  | .function f =>
    have hvalue : (Value.function ⟨f, k.scope, none⟩).Within D :=
      ⟨hs.2.inside, k.cell, fun _ => nofun⟩
    exact (declare hs.1 hvalue).bind fun _ _ => pure hvalue
  | .branch test body alternate line => exact branch hs hsize
  | .forLoop start test update body line => exact forLoop hs
  | .whileLoop test body line =>
    exact perform ⟨rfl, hs, trivial, .inl hs.1⟩
  | .returns none line => exact throw trivial
  | .returns (some value) line =>
    have hvalue := expression hs
      (hsize.lt (by simp only [Stmt.returns.sizeOf_spec, Option.some.sizeOf_spec]; omega))
    exact hvalue.bind fun v hv => throw hv
  | .breaks line => exact loopControl id
  | .continues line => exact loopControl id
  | .throws value line =>
    have hvalue := expression hs (hsize.lt (by simp only [Stmt.throws.sizeOf_spec]; omega))
    exact hvalue.bind fun v hv => throw hv
  | .declareClass c =>
    exact declareClass hs (hsize.imp_right fun h => by
      simp only [Stmt.declareClass.sizeOf_spec] at h; omega)
  | .declareEnum name members line => exact declareEnum hs
  | .expression e line =>
    exact expression hs (hsize.lt (by simp only [Stmt.expression.sizeOf_spec]; omega))

theorem executeAll {body : List (Stmt Nat)} {last : Value} (hlast : last.Within D)
    (hbody : Permit.Stmts k.permit body) (hsize : l.Covers D (sizeOf body)) :
    k.Runs l (Eval.executeAll k.scope last body) (·.Within D) := by
  induction body generalizing last with
  | nil => exact pure hlast
  | cons s rest ih =>
    simp only [Limits.Covers, List.cons.sizeOf_spec] at hsize
    have hfirstSize : l.Covers D (sizeOf s) := hsize.imp_right fun h => by omega
    have hrestSize : l.Covers D (sizeOf rest) := hsize.imp_right fun h => by omega
    exact (execute hbody.1 hfirstSize).bind fun v hv => ih hv hbody.2 hrestSize

/-! ### Loops -/

theorem whileRounds {test : Expr Nat} {body : List (Stmt Nat)} {last : Value}
    (h : (Task.whileLoop k.scope test body last).Permitted k.permit) (hlast : last.Within D) :
    k.Runs l (Eval.whileRounds k.scope test body last) (·.Within D) := by
  obtain ⟨hloop, htest, hbody⟩ := h
  have hagain : ∀ {v : Value}, v.Within D →
      k.Runs l (Eval.perform (.whileLoop k.scope test body v)) (·.Within D) :=
    fun hv => perform ⟨rfl, ⟨hloop, htest, hbody⟩, hv, .inl hloop⟩
  refine (expression htest (.inl hloop)).bind fun v _ => ?_
  split
  · exact pure hlast
  · refine enter_attempt hbody (.inl hloop) fun o inner cell ho => ?_
    match o with
    | .ok value => exact hagain ho
    | .error .continued => exact hagain hlast
    | .error .broke => exact pure hlast
    | .error (.raised error) => exact throw ho
    | .error (.returned value) => exact throw ho

theorem forRounds {test update : Expr Nat} {body : List (Stmt Nat)}
    (h : (Task.forLoop k.scope test update body).Permitted k.permit) :
    k.Runs l (Eval.forRounds k.scope test update body) (·.Within D) := by
  obtain ⟨hloop, htest, hupdate, hbody⟩ := h
  have hagain : k.Runs l (do
      let _ ← Eval.expression k.scope update
      Eval.perform (.forLoop k.scope test update body)) (·.Within D) :=
    (expression hupdate (.inl hloop)).bind fun _ _ =>
      perform ⟨rfl, ⟨hloop, htest, hupdate, hbody⟩, trivial, .inl hloop⟩
  refine (expression htest (.inl hloop)).bind fun v _ => ?_
  split
  · exact pure trivial
  · refine enter_attempt hbody (.inl hloop) fun o inner cell ho => ?_
    match o with
    | .ok value => exact hagain
    | .error .continued => exact hagain
    | .error .broke => exact pure trivial
    | .error (.raised error) => exact throw ho
    | .error (.returned value) => exact throw ho

theorem body {t : Task} (hscope : k.scope = t.scope) (ht : t.Permitted k.permit)
    (hpending : t.pending.Within D) (hsize : l.Covers D t.size) :
    k.Runs l (Eval.body t) (·.Within D) := by
  cases t with
  | expression scope e =>
    obtain rfl : k.scope = scope := hscope
    exact evaluate ht hsize
  | block scope body =>
    obtain rfl : k.scope = scope := hscope
    exact executeAll trivial ht hsize
  | whileLoop scope test body last =>
    obtain rfl : k.scope = scope := hscope
    exact whileRounds ht hpending
  | forLoop scope test update body =>
    obtain rfl : k.scope = scope := hscope
    exact forRounds ht

end Site.Runs

/-! ### Runs to the end -/

theorem Site.Runs.meets {k : Site D} {l : Limits} {c : Eval Value} {s : State}
    (h : k.Runs l c (·.Within D)) (hs : k.Ready l s) :
    c.Meets (l.contract D) s fun o s' =>
      Trail D k.scope k.name s s' ∧ Outcome.Within D k.control o := by
  refine (h s hs).mono ?_
  rintro (signal | value) s' ⟨htrail, ho⟩
  · exact ⟨htrail, ho⟩
  · exact ⟨htrail, ho⟩

/-- The limits of all that a task asks for. -/
noncomputable def Domain.Starts.limits {limited : Prop} {t : Task} {s : State}
    (h : D.Starts limited t s) : Limits :=
  ⟨limited, s.depth, s.maxDepth, t.size, h.depth_le⟩

theorem Domain.Starts.body_meets {limited : Prop} {t : Task} {s : State}
    (h : D.Starts limited t s) :
    (Eval.body t).Meets (h.limits.contract D) s (D.Finishes t s) := by
  obtain ⟨name, hname⟩ := h.permitted
  let Fitting := { k : Site D // k.scope = t.scope ∧ t.Permitted k.permit ∧ k.Fits s }
  have : Nonempty Fitting :=
    ⟨⟨t.scope, name, True, h.cell⟩, rfl, hname, fun _ => trivial, .inl trivial⟩
  have hall : (Eval.body t).Meets (h.limits.contract D) s fun o s' => ∀ k : Fitting,
      Trail D k.1.scope k.1.name s s' ∧ Outcome.Within D k.1.control o := by
    refine Eval.Meets.all fun k => ?_
    obtain ⟨k, hscope, hpermitted, hfits⟩ := k
    have hruns : k.Runs h.limits (Eval.body t) (·.Within D) :=
      .body hscope hpermitted h.pending (.inr (Nat.le_refl _))
    exact hruns.meets ⟨h.within, hfits, rfl, rfl⟩
  exact hall.mono fun o s' hgood k hscope hpermitted hfits =>
    hgood ⟨k, hscope, hpermitted, hfits⟩

namespace Site.Runs

variable {k : Site D} {l : Limits} {c : Eval Value} {s : State}

theorem trail {o : Outcome} {s' : State} (h : k.Runs l c (·.Within D)) (hs : k.Ready l s)
    (hends : c.Ends s o s') : Trail D k.scope k.name s s' ∧ o.Within D k.control := by
  have hbody : ∀ t s, D.Starts l.limited t s →
      (Eval.body t).Meets (D.contract l.limited) s (D.Finishes t s) :=
    fun t s hstarts => hstarts.body_meets.pre_mono fun _ _ hpre => hpre.1
  exact hends.of_meets hbody ((h.meets hs).pre_mono fun _ _ hpre => hpre.1)

/-- How far calls may still go and then the size of the code, both of which bound a task. -/
noncomputable def measure (q : Task × State) : Nat × Nat :=
  (q.2.maxDepth - q.2.depth, q.1.size)

def Less : Task × State → Task × State → Prop :=
  InvImage (Prod.Lex (· < ·) (· < ·)) measure

theorem less_wellFounded : WellFounded Less :=
  InvImage.wf measure (Prod.lex Nat.lt_wfRel Nat.lt_wfRel).wf

/-- Without loops, every task asks for smaller ones. -/
theorem exists_ends (hloop : ¬ D.loop) (hlimited : l.limited) (h : k.Runs l c (·.Within D))
    (hs : k.Ready l s) :
    ∃ o s', c.Ends s o s' ∧ Trail D k.scope k.name s s' ∧ o.Within D k.control := by
  have hmeets : c.Meets (D.contract l.limited) s fun o s' =>
      Trail D k.scope k.name s s' ∧ Outcome.Within D k.control o :=
    (h.meets hs).pre_mono fun _ _ hpre => hpre.1
  refine Eval.exists_ends_of_wellFounded less_wellFounded (fun t s hstarts => ?_) hmeets
  refine hstarts.body_meets.pre_mono fun t' s' hpre => ?_
  obtain ⟨hstarts', hmaxDepth, hsmaller⟩ := hpre
  have hle := hstarts'.depth_le hlimited
  change s'.maxDepth = s.maxDepth at hmaxDepth
  refine ⟨hstarts', ?_⟩
  -- Lexicographically: less room for calls, or the same room and smaller code.
  rcases hsmaller with hl | hdepth | ⟨hdepth, hsize⟩
  · exact absurd hl hloop
  · change s.depth < s'.depth at hdepth
    have hless : s'.maxDepth - s'.depth < s.maxDepth - s.depth := by omega
    exact Prod.Lex.left _ _ hless
  · change s'.depth = s.depth at hdepth
    rw [Less, InvImage, measure, measure, hmaxDepth, hdepth]
    exact Prod.Lex.right _ hsize

end Site.Runs

end ScriptLang
