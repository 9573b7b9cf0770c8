import ScriptLang.Syntax

/-! Values. Scalars are plain data; arrays, objects, classes and instances are references to cells,
so every copy of a value sees the changes made through another. -/

namespace ScriptLang

structure ScopeId where
  index : Nat
  deriving DecidableEq, Inhabited, Repr

structure ArrayId where
  index : Nat
  deriving DecidableEq, Repr

structure ObjectId where
  index : Nat
  deriving DecidableEq, Repr

structure ClassId where
  index : Nat
  deriving DecidableEq, Inhabited, Repr

structure InstanceId where
  index : Nat
  deriving DecidableEq, Repr

/-- What `this` stands for in a method. -/
inductive Receiver
  | ofClass (id : ClassId)
  | ofInstance (id : InstanceId)
  deriving DecidableEq, Repr

/-- A function with the scope it was made in. A method also has a receiver. -/
structure Closure where
  function : FunctionDecl Nat
  scope : ScopeId
  receiver : Option Receiver

/-- An enum as declared; each evaluation of a declaration has its own serial number. -/
structure Enumeration where
  serial : Nat
  name : String
  members : List String
  deriving DecidableEq, Repr

structure Member where
  enumeration : Enumeration
  name : String
  deriving DecidableEq, Repr

/-- Whether two members are one name of one declaration. -/
def Member.isSame (m n : Member) : Bool :=
  m.enumeration.serial == n.enumeration.serial && m.name == n.name

/-- What a native does: the functions every program has, and those a host may add. -/
inductive Builtin
  | print | len | push | typeof | str | assert
  | sum | lookup | declare | inLoop | scope | collect | throw
  deriving DecidableEq, Repr

/-- A native as installed; each installation has its own serial number. -/
structure Native where
  serial : Nat
  name : String
  builtin : Builtin
  deriving DecidableEq, Repr

/-- The cells that can refer to themselves through their contents. -/
inductive Container
  | array (id : ArrayId)
  | object (id : ObjectId)
  | inst (id : InstanceId)
  deriving DecidableEq, Repr

inductive Value
  | null
  | bool (b : Bool)
  | number (x : Float)
  | string (s : String)
  | container (c : Container)
  | function (f : Closure)
  | native (f : Native)
  | classRef (id : ClassId)
  | enumeration (e : Enumeration)
  | member (m : Member)
  | tagged (m : Member) (payload : Value)

instance : Inhabited Value :=
  ⟨.null⟩

namespace Value

@[match_pattern]
def array (id : ArrayId) : Value :=
  container (.array id)

@[match_pattern]
def object (id : ObjectId) : Value :=
  container (.object id)

@[match_pattern]
def inst (id : InstanceId) : Value :=
  container (.inst id)

def typeName : Value → String
  | null => "null"
  | bool _ => "boolean"
  | number _ => "number"
  | string _ => "string"
  | array _ => "array"
  | object _ => "object"
  | inst _ => "instance"
  | function _ => "function"
  | native _ => "native-function"
  | classRef _ => "class"
  | enumeration _ => "enum"
  | member _ | tagged .. => "enum-member"

/-- Only the boolean `true` satisfies a condition. -/
def isTrue : Value → Bool
  | bool b => b
  | _ => false

theorem isTrue_of_ne {v : Value} (h : v ≠ .bool true) : v.isTrue = false := by
  cases v with
  | bool b => exact Bool.eq_false_iff.mpr fun hb => h (congrArg bool hb)
  | _ => rfl

end Value

def Receiver.value : Receiver → Value
  | ofClass id => .classRef id
  | ofInstance id => .inst id

end ScriptLang
