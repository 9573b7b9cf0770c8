import ScriptLang.Inspect
import ScriptLang.Value.Access

/-! Natives: the functions of every program, and those that a host may put at its disposal. A native
sees the values it is called with and the scope it is called in. -/

namespace ScriptLang

namespace Builtin

/-- The natives that every program has. -/
def prelude : List (String × Builtin) :=
  [("print", print), ("len", len), ("push", push), ("typeof", typeof), ("str", str),
    ("assert", assert)]

/-- The line of errors that the throwing native of a host raises. -/
def throwLine : Nat :=
  77

end Builtin

namespace Native

def refuse {α : Type} (name reason : String) : Except RuntimeError α :=
  .error (.fault (.native name reason))

def wrongCount {α : Type} (name : String) (expected : Nat) (arguments : List Value) :
    Except RuntimeError α :=
  refuse name
    ("expected " ++ toString expected ++ " argument(s), got " ++ toString arguments.length)

/-- The number of items, characters or entries. -/
def length? (s : State) : Value → Option Nat
  | .array id => some (s.array id).size
  | .string text => some text.length
  | .object id => some (s.object id).size
  | _ => none

def len (s : State) (name : String) (v : Value) : Except RuntimeError Value :=
  match length? s v with
  | none => refuse name ("cannot take the length of " ++ v.typeName)
  | some count =>
    match Number.ofCount? count with
    | some x => .ok (.number x)
    | none => refuse name "length is too large"

def sum (name : String) : Float → List Value → Except RuntimeError Value
  | total, [] => .ok (.number total)
  | total, .number x :: rest => sum name (total + x) rest
  | _, _ :: _ => refuse name "expected numbers"

def push (s : State) (name : String) (target item : Value) : Except RuntimeError Value × State :=
  match target with
  | .array id => (.ok target, s.updateArray id (·.push item))
  | _ => (refuse name ("expected an array, found " ++ target.typeName), s)

def assert (s : State) (name : String) (v : Value) : Except RuntimeError Value :=
  if v.isTrue then .ok .null else refuse name ("assertion failed, got " ++ s.display v)

def call (f : Native) (s : State) (arguments : List Value) (scope : ScopeId) :
    Except RuntimeError Value × State :=
  let first := arguments.headD .null
  match f.builtin, arguments with
  | .print, _ => (.ok .null, s.print (" ".intercalate (arguments.map s.display) ++ "\n"))
  | .len, [v] => (len s f.name v, s)
  | .len, _ => (wrongCount f.name 1 arguments, s)
  | .push, [target, item] => push s f.name target item
  | .push, _ => (wrongCount f.name 2 arguments, s)
  | .typeof, [v] => (.ok (.string v.typeName), s)
  | .typeof, _ => (wrongCount f.name 1 arguments, s)
  | .str, [v] => (.ok (.string (s.display v)), s)
  | .str, _ => (wrongCount f.name 1 arguments, s)
  | .assert, [v] => (assert s f.name v, s)
  | .assert, _ => (wrongCount f.name 1 arguments, s)
  | .sum, _ => (sum f.name 0 arguments, s)
  | .lookup, _ => ((s.lookup scope (s.display first) 0).mapError .fault, s)
  | .declare, _ =>
    let value := (arguments.drop 1).headD .null
    (.ok value, s.declare scope (s.display first) value false)
  | .inLoop, _ => (.ok (.bool (s.permitsLoopControl scope)), s)
  | .scope, _ => (.ok (.string (Inspect.scope s scope)), s)
  | .collect, _ =>
    let (items, s) := s.newArray arguments.toArray
    (.ok items, s)
  | .throw, _ => (.error (.thrown first Builtin.throwLine), s)

end Native

namespace State

def install (s : State) (name : String) (builtin : Builtin) : Native × State :=
  let (serial, s) := s.newSerial
  (⟨serial, name, builtin⟩, s)

def declareNative (s : State) (scope : ScopeId) (name : String) (builtin : Builtin) :
    Value × State :=
  let (f, s) := s.install name builtin
  (.native f, s.declare scope name (.native f) true)

/-- A scope with the constants `true`, `false` and `null` and the natives of every program. -/
def newGlobal (s : State) : ScopeId × State :=
  let (scope, s) := s.newRoot
  let s := s.declare scope "true" (.bool true) true
  let s := s.declare scope "false" (.bool false) true
  let s := s.declare scope "null" .null true
  (scope, Builtin.prelude.foldl (fun s entry => (s.declareNative scope entry.1 entry.2).2) s)

end State

end ScriptLang
