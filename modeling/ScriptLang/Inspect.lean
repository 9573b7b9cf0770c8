import ScriptLang.State.Scope
import ScriptLang.Text.Revealed
import ScriptLang.Value.Display

/-! Texts for whoever looks at a program from outside: the kind of a value with its contents, and
what a value refers to. Lists stand in brackets, parts have names, and a trailing `..` stands for
parts that are not shown. -/

namespace ScriptLang

namespace Inspect

open Text (revealed)

def list (items : List String) : String :=
  "[" ++ ", ".intercalate items ++ "]"

def names (texts : List String) : String :=
  list (texts.map revealed)

def parts (name : String) (fields : List (String × String)) (shortened : Bool) : String :=
  let shown := fields.map fun field => field.1 ++ ": " ++ field.2
  let all := if shortened then shown ++ [".."] else shown
  name ++ " \x7b " ++ ", ".intercalate all ++ " \x7d"

def call (name argument : String) : String :=
  name ++ "(" ++ argument ++ ")"

def bool (b : Bool) : String :=
  if b then "true" else "false"

def value (s : State) : Value → String
  | .null => "Null"
  | .bool b => call "Bool" (bool b)
  | .number x => call "Number" (Number.Style.debug.text x)
  | .string text => call "String" (revealed text)
  | v => call "Value" (s.display v)

def record (s : State) (r : Record Value) : String :=
  let entry (pair : String × Value) : String :=
    "(" ++ revealed pair.1 ++ ", " ++ value s pair.2 ++ ")"
  parts "Properties" [("entries", list (r.entries.map entry))] false

def cell (contents : String) : String :=
  parts "RefCell" [("value", contents)] false

def classParts (s : State) (c : Class) : String :=
  parts "StaticClass"
    [("name", revealed c.name), ("fields", names c.fields),
      ("static_fields", cell (record s c.staticFields))] true

def enumeration (e : Enumeration) : String :=
  parts "StaticEnum" [("name", revealed e.name), ("members", names e.members)] false

def member (m : Member) (tagged : String) : String :=
  parts "EnumValue"
    [("name", revealed m.name), ("parent", enumeration m.enumeration), ("tagged", tagged)] false

/-- What a value refers to; nothing for plain values and arrays. -/
def referent (s : State) : Value → String
  | .function f =>
    parts "FunctionValue"
      [("name", revealed f.function.name), ("params", names f.function.parameters),
        ("bound", bool f.receiver.isSome)] true
  | .native f => call "NativeFunction" (revealed f.name)
  | .classRef id => classParts s (s.classOf id)
  | .inst id =>
    let i := s.instanceOf id
    parts "Instance"
      [("class", classParts s (s.classOf i.classId)), ("fields", cell (record s i.fields))] false
  | .enumeration e => enumeration e
  | .member m => member m "None"
  | .tagged m payload => member m (call "Some" (value s payload))
  | .object id => record s (s.object id)
  | _ => ""

/-- The names of this very scope in order, and what the scope is. -/
def scope (s : State) (id : ScopeId) : String :=
  let c := s.scope id
  let bound := c.bindings.keys.mergeSort fun a b => decide (a ≤ b)
  parts "Environment"
    [("bindings", names bound), ("loop_permitted", bool c.permitsLoopControl),
      ("has_parent", bool c.parent.isSome)] false

end Inspect

end ScriptLang
