import ScriptLang.Evaluation.Place

/-! Calls and instantiations. The depth of nested calls is limited. -/

namespace ScriptLang

namespace State

def deeper (s : State) : State :=
  { s with depth := s.depth + 1 }

def shallower (s : State) : State :=
  { s with depth := s.depth - 1 }

def bindReceiver (s : State) (scope : ScopeId) (receiver : Option Receiver) : State :=
  match receiver with
  | some receiver => s.declare scope "this" receiver.value false
  | none => s

/-- Binds the receiver and then the parameters. A parameter without an argument stays unbound, an
argument without a parameter is dropped. -/
def bindArguments (s : State) (scope : ScopeId) (f : Closure) (arguments : List Value) : State :=
  (f.function.parameters.zip arguments).foldl
    (fun s pair => s.declare scope pair.1 pair.2 false) (s.bindReceiver scope f.receiver)

/-- What holds with the receiver bound and is kept when arguments are bound holds in the end. -/
theorem bindArguments_induction {holds : State → Prop} {s : State} {scope : ScopeId} {f : Closure}
    {arguments : List Value} (hreceiver : holds (s.bindReceiver scope f.receiver))
    (hdeclare : ∀ s' name v, v ∈ arguments → holds s' → holds (s'.declare scope name v false)) :
    holds (s.bindArguments scope f arguments) :=
  List.foldlRecOn (motive := holds) _ _ hreceiver fun s' hs' pair hpair =>
    hdeclare s' pair.1 pair.2 (List.of_mem_zip hpair).2 hs'

end State

namespace Eval

/-- Goes one call deeper, unless the limit is reached. -/
def enterCall (line : Nat) : Eval Unit := do
  let s ← get
  if s.maxDepth ≤ s.depth then fault (.recursionLimit s.maxDepth line)
  else modify State.deeper

def leaveCall : Eval Unit :=
  modify State.shallower

/-- Runs a function in a new scope inside of the one it was made in. -/
def callFunction (f : Closure) (arguments : List Value) (line : Nat) : Eval Value := do
  enterCall line
  let scope ← create (·.enter .function f.scope)
  modify (·.bindArguments scope f arguments)
  let outcome ← attempt (.block scope f.function.body)
  leaveCall
  ofExcept outcome.result

def callNative (f : Native) (arguments : List Value) (scope : ScopeId) : Eval Value := do
  ofExcept (← create fun s => f.call s arguments scope)

/-- A member of an enum is called to give it a payload. -/
def tag (m : Member) (arguments : List Value) (line : Nat) : Eval Value :=
  match arguments with
  | [payload] => return .tagged m payload
  | _ => fault (.tagArity arguments.length line)

def callValue (callee : Value) (arguments : List Value) (scope : ScopeId) (line : Nat) :
    Eval Value :=
  match callee with
  | .native f => callNative f arguments scope
  | .function f => callFunction f arguments line
  | .member m | .tagged m _ => tag m arguments line
  | other => fault (.notCallable other.typeName line)

/-- A new instance, after its constructor has run. -/
def instantiate (target : Value) (arguments : Eval (List Value)) (line : Nat) : Eval Value :=
  match target with
  | .classRef id => do
    let arguments ← arguments
    let i ← create (·.newInstance id)
    let c := (← get).classOf id
    if let some f := c.methods.get? "constructor" then
      let _ ← callFunction ⟨f, c.scope, some (.ofInstance i)⟩ arguments line
    return .inst i
  | other => fault (.notAClass other.typeName line)

end Eval

end ScriptLang
