import ScriptLang.Record
import ScriptLang.RuntimeError

/-! The state of a running program: the cells that values refer to, the scopes, the printed text,
the depth of calls, and the next unused numbers. Cells are never removed; a reference to a cell that
does not exist reads as an empty one. -/

namespace ScriptLang

structure Binding where
  value : Value
  constant : Bool
  deriving Inhabited

structure Scope where
  parent : Option ScopeId
  bindings : Record Binding
  permitsLoopControl : Bool
  deriving Inhabited

structure Class where
  name : String
  fields : List String
  staticFields : Record Value
  methods : Record (FunctionDecl Nat)
  staticMethods : Record (FunctionDecl Nat)
  scope : ScopeId
  deriving Inhabited

structure Instance where
  classId : ClassId
  fields : Record Value
  deriving Inhabited

/-- A change that has been found to be permitted. -/
inductive Write
  | binding (id : ScopeId) (name : String) (value : Value)
  | item (id : ArrayId) (index : Nat) (value : Value)
  | property (id : ObjectId) (name : String) (value : Value)
  | field (id : InstanceId) (name : String) (value : Value)
  | staticField (id : ClassId) (name : String) (value : Value)

structure State where
  scopes : Array Scope
  arrays : Array (Array Value)
  objects : Array (Record Value)
  classes : Array Class
  instances : Array Instance
  output : String
  depth : Nat
  maxDepth : Nat
  nextSerial : Nat
  nextFunction : Nat
  deriving Inhabited

namespace State

def defaultMaxDepth : Nat :=
  256

def initial (maxDepth : Nat) : State :=
  ⟨#[], #[], #[], #[], #[], "", 0, maxDepth, 0, 0⟩

/-! ### Reading cells -/

def scope (s : State) (id : ScopeId) : Scope :=
  s.scopes.getD id.index default

def array (s : State) (id : ArrayId) : Array Value :=
  s.arrays.getD id.index #[]

def object (s : State) (id : ObjectId) : Record Value :=
  s.objects.getD id.index .empty

def classOf (s : State) (id : ClassId) : Class :=
  s.classes.getD id.index default

def instanceOf (s : State) (id : InstanceId) : Instance :=
  s.instances.getD id.index default

/-! ### New cells -/

def newScope (s : State) (scope : Scope) : ScopeId × State :=
  (⟨s.scopes.size⟩, { s with scopes := s.scopes.push scope })

def newArray (s : State) (items : Array Value) : Value × State :=
  (.array ⟨s.arrays.size⟩, { s with arrays := s.arrays.push items })

def newObject (s : State) (properties : Record Value) : Value × State :=
  (.object ⟨s.objects.size⟩, { s with objects := s.objects.push properties })

def newClass (s : State) (c : Class) : Value × State :=
  (.classRef ⟨s.classes.size⟩, { s with classes := s.classes.push c })

/-- A new instance has every field of its class, and each of them is null. -/
def newInstance (s : State) (id : ClassId) : InstanceId × State :=
  let fields := Record.ofKeys (s.classOf id).fields .null
  (⟨s.instances.size⟩, { s with instances := s.instances.push ⟨id, fields⟩ })

def newSerial (s : State) : Nat × State :=
  (s.nextSerial, { s with nextSerial := s.nextSerial + 1 })

/-! ### Writing cells -/

def updateArray (s : State) (id : ArrayId) (f : Array Value → Array Value) : State :=
  { s with arrays := s.arrays.modify id.index f }

def updateObject (s : State) (id : ObjectId) (f : Record Value → Record Value) : State :=
  { s with objects := s.objects.modify id.index f }

def updateStaticFields (s : State) (id : ClassId) (f : Record Value → Record Value) : State :=
  { s with classes := s.classes.modify id.index fun c => { c with staticFields := f c.staticFields } }

def updateFields (s : State) (id : InstanceId) (f : Record Value → Record Value) : State :=
  { s with instances := s.instances.modify id.index fun i => { i with fields := f i.fields } }

def updateBindings (s : State) (id : ScopeId) (f : Record Binding → Record Binding) : State :=
  { s with scopes := s.scopes.modify id.index fun c => { c with bindings := f c.bindings } }

/-- Stores `value` at `index`; the gap behind the last item is filled with null. -/
def storeAt (items : Array Value) (index : Nat) (value : Value) : Array Value :=
  if index < items.size then items.setIfInBounds index value
  else (items ++ Array.replicate (index - items.size) Value.null).push value

/-- Objects and classes gain the name they lack; a binding and a field have to be there. -/
def write (s : State) : Write → State
  | .binding id name value => s.updateBindings id (·.update name ⟨value, false⟩)
  | .item id index value => s.updateArray id (storeAt · index value)
  | .property id name value => s.updateObject id (·.insert name value)
  | .field id name value => s.updateFields id (·.update name value)
  | .staticField id name value => s.updateStaticFields id (·.insert name value)

def print (s : State) (text : String) : State :=
  { s with output := s.output ++ text }

end State

end ScriptLang
