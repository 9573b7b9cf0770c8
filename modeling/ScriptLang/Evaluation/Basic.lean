import ScriptLang.Dialogue
import ScriptLang.Native
import ScriptLang.Value.Operation

/-! Computations of a running program. They change the state, may be cut short by a signal, and ask
for the results of the tasks they are made of. -/

namespace ScriptLang

/-- What cuts a computation short. A loop takes up `broke` and `continued`, a call `returned`, and
a `try` takes up `raised`. -/
inductive Signal
  | raised (error : RuntimeError)
  | returned (value : Value)
  | broke
  | continued

/-- What a computation may ask for. -/
inductive Task
  | expression (scope : ScopeId) (e : Expr Nat)
  | block (scope : ScopeId) (body : List (Stmt Nat))
  | whileLoop (scope : ScopeId) (test : Expr Nat) (body : List (Stmt Nat)) (last : Value)
  | forLoop (scope : ScopeId) (test update : Expr Nat) (body : List (Stmt Nat))

/-- How a task ends. -/
abbrev Outcome : Type :=
  Except Signal Value

/-- The value of a task whose `return` ends it and whose loop control has no loop to end. -/
def Outcome.result : Outcome → Except RuntimeError Value
  | .ok value | .error (.returned value) => .ok value
  | .error .broke | .error .continued => .ok .null
  | .error (.raised error) => .error error

/-- A dialogue that asks for tasks, each to be done from a given state. -/
abbrev Steps : Type → Type :=
  Dialogue (Task × State) (Outcome × State)

abbrev Eval : Type → Type :=
  ExceptT Signal (StateT State Steps)

namespace Eval

variable {α : Type}

/-- Does a task and ends as it does. -/
def perform (task : Task) : Eval Value :=
  fun s => .ask (task, s) .answer

/-- Does a task and looks at how it ended. -/
def attempt (task : Task) : Eval Outcome :=
  fun s => .ask (task, s) fun (outcome, s) => .answer (.ok outcome, s)

def conclude (outcome : Outcome) : Eval Value :=
  match outcome with
  | .ok value => pure value
  | .error signal => throw signal

def raise (error : RuntimeError) : Eval α :=
  throw (.raised error)

def ofExcept (result : Except RuntimeError α) : Eval α :=
  match result with
  | .ok a => pure a
  | .error error => raise error

def fault (f : Fault) : Eval α :=
  raise (.fault f)

/-- What an operation finds in the state. -/
def inspect (f : State → Except Fault α) : Eval α := do
  match f (← get) with
  | .ok a => pure a
  | .error e => fault e

/-- An operation that makes something new. -/
def create (f : State → α × State) : Eval α :=
  modifyGet f

def write (find : State → Except Fault Write) : Eval Unit := do
  let w ← inspect find
  modify (·.write w)

def expression (scope : ScopeId) (e : Expr Nat) : Eval Value :=
  perform (.expression scope e)

def expressions (scope : ScopeId) (es : List (Expr Nat)) : Eval (List Value) :=
  es.mapM (expression scope)

/-- The statements in a new scope. -/
def blockIn (kind : ScopeKind) (scope : ScopeId) (body : List (Stmt Nat)) : Eval Value := do
  let inner ← create (·.enter kind scope)
  perform (.block inner body)

def declare (scope : ScopeId) (name : String) (value : Value) (constant : Bool) : Eval Unit :=
  modify (·.declare scope name value constant)

end Eval

end ScriptLang
