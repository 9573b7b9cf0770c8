import ScriptLang.Proofs.Contract
import ScriptLang.Proofs.Steady

/-! All code is evaluated by operations that do not see how deep calls are, by calls of functions, and by
tasks. So what holds of these, and of computations as they are joined, holds of all code. The code may be
confined to some scopes, which are its own: names are declared in own scopes only, and every scope that is
entered is one of them. -/

namespace ScriptLang

namespace State

/-- The operations on the state that code is evaluated by when it runs in own scopes. -/
inductive Operation (own : ScopeId → Prop) : ∀ {α : Type}, (State → α × State) → Prop
  | enter (kind : ScopeKind) (parent : ScopeId) : Operation own (·.enter kind parent)
  | declare {scope : ScopeId} (hscope : own scope) (name : String) (v : Value) (constant : Bool) :
      Operation own fun s => ((), s.declare scope name v constant)
  | write (w : Write) : Operation own fun s => ((), s.write w)
  | newArray (items : Array Value) : Operation own (·.newArray items)
  | newObject (record : Record Value) : Operation own (·.newObject record)
  | newClass (c : Class) : Operation own (·.newClass c)
  | newInstance (id : ClassId) : Operation own (·.newInstance id)
  | newSerial : Operation own (·.newSerial)
  | native (f : Native) (arguments : List Value) {scope : ScopeId} (hscope : own scope) :
      Operation own fun s => f.call s arguments scope

theorem Operation.steady {own : ScopeId → Prop} {α : Type} {f : State → α × State}
    (h : Operation own f) : Steady f := by
  cases h with
  | enter => exact steady_enter
  | write => exact steady_write
  | native => exact steady_native
  | declare | newArray | newObject | newClass | newInstance | newSerial => exact fun _ _ _ => rfl

end State

namespace Eval

/-- A property of computations with a rule for each operation, for calls, and for computations joined. -/
structure Operational (own : ScopeId → Prop) (P : ∀ ⦃α : Type⦄, Eval α → Prop) : Prop where
  pure {α : Type} (a : α) : P (Pure.pure a : Eval α)
  throw {α : Type} (signal : Signal) : P (MonadExcept.throw signal : Eval α)
  bind {α β : Type} {c : Eval α} {f : α → Eval β} : P c → (∀ a, P (f a)) → P (c >>= f)
  get_bind {α : Type} {f : State → Eval α} : State.Blind f → (∀ s, P (f s)) → P (get >>= f)
  create {α : Type} {f : State → α × State} : State.Operation own f → P (Eval.create f)
  enter_bind {α : Type} {kind : ScopeKind} {parent : ScopeId} {f : ScopeId → Eval α} :
    (∀ inner, own inner → P (f inner)) → P (Eval.create (·.enter kind parent) >>= f)
  callFunction (f : Closure) (arguments : List Value) (line : Nat) :
    P (Eval.callFunction f arguments line)

/-- What looks at how a task ended takes up the control of loops only, unless it is a `try` or a call. -/
structure Compositional (own : ScopeId → Prop) (P : ∀ ⦃α : Type⦄, Eval α → Prop) : Prop
    extends Operational own P where
  attempt_bind {α : Type} {task : Task} {f : Outcome → Eval α} : own task.scope →
    (∀ v, f (.error (.returned v)) = MonadExcept.throw (.returned v)) →
    (∀ error, f (.error (.raised error)) = MonadExcept.throw (.raised error)) →
    (∀ o, P (f o)) → P (Eval.attempt task >>= f)
  attemptBlock {scope : ScopeId} (body handler : List (Stmt Nat)) : own scope →
    P (Eval.attemptBlock scope body handler)

/-- Whatever looks at how a task ended, the property of the task itself is enough. -/
structure Uniform (own : ScopeId → Prop) (P : ∀ ⦃α : Type⦄, Eval α → Prop) : Prop
    extends Operational own P where
  attempt {task : Task} : own task.scope → P (Eval.attempt task)

variable {own : ScopeId → Prop}

theorem Operational.conclude {P : ∀ ⦃α : Type⦄, Eval α → Prop} (h : Operational own P)
    (outcome : Outcome) : P (Eval.conclude outcome) := by
  cases outcome with
  | ok v => exact h.pure v
  | error signal => exact h.throw signal

theorem attempt_conclude (task : Task) : attempt task >>= conclude = perform task := by
  funext s
  change Dialogue.ask (task, s) _ = Dialogue.ask (task, s) _
  congr 1
  funext ⟨o, s'⟩
  cases o <;> rfl

namespace Compositional

variable {P : ∀ ⦃α : Type⦄, Eval α → Prop} {α β : Type} (h : Compositional own P)

include h

/-! ### Operations -/

theorem ofExcept (result : Except RuntimeError α) : P (Eval.ofExcept result) := by
  cases result with
  | ok a => exact h.pure a
  | error error => exact h.throw _

theorem fault (f : Fault) : P (Eval.fault f : Eval α) :=
  h.throw _

theorem inspect {f : State → Except Fault α} (hf : State.Blind f) : P (Eval.inspect f) := by
  refine h.get_bind (fun s depth maxDepth => by rw [hf s]) fun s => ?_
  split
  · exact h.pure _
  · exact h.fault _

theorem write {find : State → Except Fault Write} (hfind : State.Blind find) :
    P (Eval.write find) :=
  h.bind (h.inspect hfind) fun _ => h.create (.write _)

theorem mapM {f : α → Eval β} (hf : ∀ a, P (f a)) (as : List α) : P (as.mapM f) := by
  induction as with
  | nil => exact h.pure []
  | cons a rest ih =>
    rw [List.mapM_cons]
    exact h.bind (hf a) fun _ => h.bind ih fun _ => h.pure _

theorem perform {task : Task} (htask : own task.scope) : P (Eval.perform task) := by
  rw [← attempt_conclude]
  exact h.attempt_bind htask (fun _ => rfl) (fun _ => rfl) h.conclude

theorem blockIn (kind : ScopeKind) (scope : ScopeId) (body : List (Stmt Nat)) :
    P (Eval.blockIn kind scope body) :=
  h.enter_bind fun _ hinner => h.perform hinner

theorem tag (m : Member) (arguments : List Value) (line : Nat) : P (Eval.tag m arguments line) := by
  unfold Eval.tag
  split
  · exact h.pure _
  · exact h.fault _

theorem instantiate (target : Value) {arguments : Eval (List Value)} (harguments : P arguments)
    (line : Nat) : P (Eval.instantiate target arguments line) := by
  unfold Eval.instantiate
  split
  · next id =>
    refine h.bind harguments fun vs => h.bind (h.create (.newInstance id)) fun i => ?_
    refine h.get_bind (fun _ _ _ => rfl) fun s => ?_
    dsimp only
    split
    · exact h.bind (h.callFunction _ _ _) fun _ => h.pure _
    · exact h.pure _
  · exact h.fault _

theorem compare (candidate scrutinee : Value) : P (Eval.compare candidate scrutinee) :=
  h.get_bind (fun _ _ _ => by rw [State.equal_limited]) fun _ => h.pure _

/-! ### Code in an own scope -/

variable {scope : ScopeId} (hscope : own scope)

include hscope

theorem declare (name : String) (v : Value) (constant : Bool) :
    P (Eval.declare scope name v constant) :=
  h.create (.declare hscope name v constant)

theorem expression (e : Expr Nat) : P (Eval.expression scope e) :=
  h.perform hscope

theorem expressions (es : List (Expr Nat)) : P (Eval.expressions scope es) :=
  h.mapM (h.expression hscope) es

theorem fields (fields : List (String × Expr Nat)) :
    P (fields.mapM fun (name, e) => return (name, ← Eval.expression scope e)) :=
  h.mapM (fun _ => h.bind (h.expression hscope _) fun _ => h.pure _) fields

theorem read (p : Place Nat) : P (Eval.read scope p) := by
  match p with
  | .variable name line => exact h.inspect State.blind_lookup
  | .dot container name nameLine line =>
    exact h.bind (h.expression hscope container) fun _ => h.inspect State.blind_getMember
  | .index container key line =>
    exact h.bind (h.expression hscope container) fun _ => h.bind (h.expression hscope key) fun _ =>
      h.inspect State.blind_getMember

theorem store (p : Place Nat) (v : Value) (line : Nat) : P (Eval.store scope p v line) := by
  match p with
  | .variable name nameLine => exact h.write State.blind_assignment
  | .dot container name nameLine _ =>
    exact h.bind (h.expression hscope container) fun _ => h.write State.blind_memberWrite
  | .index container key _ =>
    exact h.bind (h.expression hscope container) fun _ => h.bind (h.expression hscope key) fun _ =>
      h.write State.blind_memberWrite

theorem callValue (callee : Value) (arguments : List Value) (line : Nat) :
    P (Eval.callValue callee arguments scope line) := by
  unfold Eval.callValue
  split
  · exact h.bind (h.create (.native _ _ hscope)) h.ofExcept
  · exact h.callFunction _ _ _
  · exact h.tag _ _ _
  · exact h.tag _ _ _
  · exact h.fault _

/-! ### Choosing an arm -/

theorem tryPattern (scrutinee : Value) (pattern : Expr Nat) :
    P (Eval.tryPattern scope scrutinee pattern) := by
  unfold Eval.tryPattern
  split
  · exact h.bind (h.expression hscope _) fun _ => h.compare _ _
  · refine h.bind (h.expression hscope _) fun callee => ?_
    split
    · exact h.pure _
    · exact h.pure _
    · exact h.bind (h.expression hscope _) fun _ => h.bind (h.callValue hscope _ _ _) fun _ =>
        h.compare _ _

omit hscope in
theorem runArm (binding : Option (String × Value)) (body : List (Stmt Nat)) :
    P (Eval.runArm scope binding body) := by
  refine h.enter_bind fun inner hinner => ?_
  cases binding with
  | none => exact h.perform hinner
  | some pair => exact h.bind (h.declare hinner _ _ _) fun _ => h.perform hinner

theorem tryPatterns (scrutinee : Value) (default : Option (List (Stmt Nat)))
    (cases : List (Expr Nat × List (Stmt Nat))) :
    P (Eval.tryPatterns scope scrutinee default cases) := by
  induction cases with
  | nil =>
    cases default with
    | none => exact h.pure _
    | some body => exact h.runArm none body
  | cons c rest ih =>
    refine h.bind (h.tryPattern hscope _ _) fun found => ?_
    cases found with
    | miss => exact ih
    | hit binding => exact h.runArm _ _

omit hscope in
theorem select (scrutinee : Expr Nat) (arms : List (Arm Nat)) :
    P (Eval.select scope scrutinee arms) :=
  h.enter_bind fun _ hinner => h.bind (h.expression hinner _) fun _ => h.tryPatterns hinner _ _ _

/-! ### Expressions and statements -/

theorem makeFunction (f : FunctionDecl Nat) : P (Eval.makeFunction scope f) := by
  unfold Eval.makeFunction
  dsimp only
  split
  · exact h.bind (h.declare hscope _ _ _) fun _ => h.pure _
  · exact h.pure _

theorem evaluate (e : Expr Nat) : P (Eval.evaluate scope e) := by
  cases e with
  | number x line => exact h.pure _
  | string text line => exact h.pure _
  | place p => exact h.read hscope p
  | object properties line =>
    exact h.bind (h.fields hscope properties) fun _ => h.create (.newObject _)
  | array elements line =>
    exact h.bind (h.expressions hscope elements) fun _ => h.create (.newArray _)
  | binary operator left right line =>
    exact h.bind (h.expression hscope left) fun _ => h.bind (h.expression hscope right) fun _ =>
      h.inspect State.blind_operate
  | assign target value line =>
    exact h.bind (h.expression hscope value) fun _ => h.bind (h.store hscope target _ line) fun _ =>
      h.pure _
  | call callee arguments line =>
    exact h.bind (h.expressions hscope arguments) fun _ => h.bind (h.expression hscope callee)
      fun _ => h.callValue hscope _ _ _
  | construct target arguments line =>
    exact h.bind (h.read hscope target) fun _ =>
      h.instantiate _ (h.expressions hscope arguments) line
  | select scrutinee arms line => exact h.select _ _
  | function f => exact h.makeFunction hscope _
  | attempt body handler line => exact h.attemptBlock _ _ hscope

theorem declareVariable (d : VariableDecl Nat) : P (Eval.declareVariable scope d) := by
  match d with
  | .variable name none line => exact h.bind (h.declare hscope _ _ _) fun _ => h.pure _
  | .variable name (some value) line =>
    exact h.bind (h.expression hscope value) fun _ => h.bind (h.declare hscope _ _ _) fun _ => h.pure _
  | .constant name value line =>
    exact h.bind (h.expression hscope value) fun _ => h.bind (h.declare hscope _ _ _) fun _ => h.pure _

theorem branch (test : Expr Nat) (body : List (Stmt Nat)) (alternate : Option (List (Stmt Nat))) :
    P (Eval.branch scope test body alternate) := by
  refine h.bind (h.expression hscope test) fun v => ?_
  split
  · exact h.blockIn _ _ _
  · cases alternate with
    | none => exact h.pure _
    | some alternate => exact h.blockIn _ _ _

omit hscope in
theorem loopControl (word : String) (signal : Signal) (line : Nat) :
    P (Eval.loopControl scope word signal line) := by
  refine h.get_bind (fun _ _ _ => rfl) fun s => ?_
  split
  · exact h.throw _
  · exact h.fault _

theorem declareClass (c : ClassDecl Nat) : P (Eval.declareClass scope c) := by
  obtain ⟨name, fieldNames, staticFields, methods, staticMethods, line⟩ := c
  exact h.bind (h.fields hscope staticFields) fun _ => h.bind (h.create (.newClass _)) fun _ =>
    h.bind (h.declare hscope _ _ _) fun _ => h.pure _

theorem declareEnum (name : String) (members : List String) :
    P (Eval.declareEnum scope name members) :=
  h.bind (h.create .newSerial) fun _ => h.bind (h.declare hscope _ _ _) fun _ => h.pure _

theorem execute (s : Stmt Nat) : P (Eval.execute scope s) := by
  match s with
  | .declare d => exact h.declareVariable hscope d
  | .function f => exact h.bind (h.declare hscope _ _ _) fun _ => h.pure _
  | .branch test body alternate line => exact h.branch hscope _ _ _
  | .forLoop start test update body line =>
    exact h.enter_bind fun _ hinner =>
      h.bind (h.declareVariable hinner start) fun _ => h.perform hinner
  | .whileLoop test body line => exact h.perform hscope
  | .returns none line => exact h.throw _
  | .returns (some value) line => exact h.bind (h.expression hscope value) fun _ => h.throw _
  | .breaks line => exact h.loopControl _ _ _
  | .continues line => exact h.loopControl _ _ _
  | .throws value line => exact h.bind (h.expression hscope value) fun _ => h.throw _
  | .declareClass c => exact h.declareClass hscope c
  | .declareEnum name members line => exact h.declareEnum hscope _ _
  | .expression e line => exact h.expression hscope e

/-! ### Tasks -/

theorem executeAll (last : Value) (body : List (Stmt Nat)) : P (Eval.executeAll scope last body) := by
  induction body generalizing last with
  | nil => exact h.pure last
  | cons s rest ih => exact h.bind (h.execute hscope s) ih

theorem whileRounds (test : Expr Nat) (body : List (Stmt Nat)) (last : Value) :
    P (Eval.whileRounds scope test body last) := by
  refine h.bind (h.expression hscope test) fun v => ?_
  split
  · exact h.pure _
  · refine h.enter_bind fun inner hinner =>
      h.attempt_bind hinner (fun _ => rfl) (fun _ => rfl) fun o => ?_
    match o with
    | .ok value => exact h.perform hscope
    | .error .continued => exact h.perform hscope
    | .error .broke => exact h.pure _
    | .error (.raised error) => exact h.throw _
    | .error (.returned value) => exact h.throw _

theorem forRounds (test update : Expr Nat) (body : List (Stmt Nat)) :
    P (Eval.forRounds scope test update body) := by
  refine h.bind (h.expression hscope test) fun v => ?_
  split
  · exact h.pure _
  · refine h.enter_bind fun inner hinner =>
      h.attempt_bind hinner (fun _ => rfl) (fun _ => rfl) fun o => ?_
    match o with
    | .ok value => exact h.bind (h.expression hscope update) fun _ => h.perform hscope
    | .error .continued => exact h.bind (h.expression hscope update) fun _ => h.perform hscope
    | .error .broke => exact h.pure _
    | .error (.raised error) => exact h.throw _
    | .error (.returned value) => exact h.throw _

omit hscope in
theorem body (task : Task) (htask : own task.scope) : P (Eval.body task) := by
  cases task with
  | expression scope e => exact h.evaluate htask e
  | block scope body => exact h.executeAll htask _ body
  | whileLoop scope test body last => exact h.whileRounds htask _ _ _
  | forLoop scope test update body => exact h.forRounds htask _ _ _

end Compositional

end Eval

/-! ### Evaluations -/

/-- What can be evaluated. A program is a block. -/
inductive Evaluation
  | expression (scope : ScopeId) (e : Expr Nat)
  | statement (scope : ScopeId) (s : Stmt Nat)
  | block (scope : ScopeId) (body : List (Stmt Nat))
  | call (callee : Value) (arguments : List Value) (scope : ScopeId) (line : Nat)
  | construct (target : Value) (arguments : List (Expr Nat)) (scope : ScopeId) (line : Nat)

namespace Evaluation

def run : Evaluation → Eval Value
  | expression scope e => Eval.expression scope e
  | statement scope s => Eval.execute scope s
  | block scope body => Eval.perform (.block scope body)
  | call callee arguments scope line => Eval.callValue callee arguments scope line
  | construct target arguments scope line =>
    Eval.instantiate target (Eval.expressions scope arguments) line

def scope : Evaluation → ScopeId
  | expression scope _ | statement scope _ | block scope _ | call _ _ scope _
  | construct _ _ scope _ => scope

end Evaluation

theorem Eval.Compositional.run {own : ScopeId → Prop} {P : ∀ ⦃α : Type⦄, Eval α → Prop}
    (h : Compositional own P) (e : Evaluation) (he : own e.scope) : P e.run := by
  cases e with
  | expression scope e => exact h.expression he e
  | statement scope s => exact h.execute he s
  | block scope body => exact h.perform he
  | call callee arguments scope line => exact h.callValue he _ _ _
  | construct target arguments scope line => exact h.instantiate _ (h.expressions he arguments) _

namespace Eval.Uniform

variable {own : ScopeId → Prop} {P : ∀ ⦃α : Type⦄, Eval α → Prop} (h : Uniform own P)

include h

theorem attemptBlock {scope : ScopeId} (body handler : List (Stmt Nat)) (hscope : own scope) :
    P (Eval.attemptBlock scope body handler) := by
  have hhandler : ∀ inner, own inner → P (Eval.perform (.block inner handler)) := by
    intro inner hinner
    rw [← attempt_conclude]
    exact h.bind (h.attempt hinner) h.conclude
  refine h.enter_bind fun inner hinner => h.bind (h.attempt hinner) fun o => ?_
  match o with
  | .error (.raised error) =>
    have hcaught : P (Eval.declare scope "error" error.caught false) :=
      h.create (.declare hscope _ _ _)
    exact h.bind hcaught fun _ => h.enter_bind hhandler
  | .error (.returned _) => exact h.conclude _
  | .error .broke => exact h.conclude _
  | .error .continued => exact h.conclude _
  | .ok _ => exact h.conclude _

theorem compositional : Compositional own P where
  toOperational := h.toOperational
  attempt_bind htask _ _ hf := h.bind (h.attempt htask) hf
  attemptBlock := h.attemptBlock

end Eval.Uniform

/-! ### Code in all scopes -/

namespace Eval.Uniform

variable {P : ∀ ⦃α : Type⦄, Eval α → Prop} (h : Uniform (fun _ => True) P)

include h

theorem body (task : Task) : P (Eval.body task) :=
  h.compositional.body task trivial

theorem run (e : Evaluation) : P e.run :=
  h.compositional.run e trivial

end Eval.Uniform

end ScriptLang
