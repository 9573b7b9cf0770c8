import ScriptLang.Number.Index
import ScriptLang.Value.Display

/-! Reading and writing members. Arrays and strings take indices; everything else takes names, and
any key that is not a string stands for its display form. -/

namespace ScriptLang

/-- Behind the end of an array, indices from this one on are refused. -/
def maxArrayLength : Nat :=
  1 <<< 24

def indexOfNumber (x : Float) (line : Nat) : Except Fault Nat :=
  match Number.index? x with
  | some index => .ok index
  | none => .error (.invalidIndex (Number.Style.display.text x) line)

namespace Class

def method? (c : Class) (name : String) (receiver : Receiver) : Option Value :=
  (c.methods.get? name).map fun f => .function ⟨f, c.scope, some receiver⟩

def staticMethod? (c : Class) (name : String) (receiver : Receiver) : Option Value :=
  (c.staticMethods.get? name).map fun f => .function ⟨f, c.scope, some receiver⟩

end Class

namespace State

def indexOf (s : State) (key : Value) (line : Nat) : Except Fault Nat :=
  match key with
  | .number x => indexOfNumber x line
  | key => .error (.invalidIndex (s.display key) line)

def keyName (s : State) (key : Value) : String :=
  match key with
  | .string name => name
  | key => s.display key

/-- The found member, or the fault that `target` has none of that name. -/
def required (s : State) (found : Option Value) (name : String) (target : Value) (line : Nat) :
    Except Fault Value :=
  match found with
  | some value => .ok value
  | none => .error (.unknownMember name (s.display target) line)

/-- The method of an instance's class, with the instance as its receiver. -/
def boundMethod? (s : State) (id : InstanceId) (name : String) : Option Value :=
  s.instances[id.index]?.bind fun i => (s.classOf i.classId).method? name (.ofInstance id)

/-- The member of `target` under `key`. Fields and static fields hide methods, an object lacks
nothing: what was never stored is null. -/
def getMember (s : State) (target key : Value) (line : Nat) : Except Fault Value :=
  match target with
  | .array id => do
    let items := s.array id
    let index ← s.indexOf key line
    match items[index]? with
    | some item => .ok item
    | none => .error (.indexOutOfBounds index items.size line)
  | .string text => do
    let characters := text.toList
    let index ← s.indexOf key line
    match characters[index]? with
    | some c => .ok (.string (String.singleton c))
    | none => .error (.indexOutOfBounds index characters.length line)
  | .object id => .ok (((s.object id).get? (s.keyName key)).getD .null)
  | .inst id =>
    let name := s.keyName key
    s.required (((s.instanceOf id).fields.get? name).or (s.boundMethod? id name)) name target line
  | .classRef id =>
    let name := s.keyName key
    let c := s.classOf id
    s.required ((c.staticFields.get? name).or (c.staticMethod? name (.ofClass id))) name target line
  | .enumeration e =>
    let name := s.keyName key
    let found := if name ∈ e.members then some (.member ⟨e, name⟩) else none
    s.required found name target line
  | target =>
    .error (.typeError ("cannot read member '" ++ s.keyName key ++ "' of " ++ target.typeName) line)

/-- The write that stores `value` in `target` under `key`. An instance has the fields of its class
and no others. -/
def memberWrite (s : State) (target key value : Value) (line : Nat) : Except Fault Write :=
  match target with
  | .array id => do
    let index ← s.indexOf key line
    let length := (s.array id).size
    if length ≤ index && maxArrayLength ≤ index then
      .error (.indexOutOfBounds index length line)
    else .ok (.item id index value)
  | .object id => .ok (.property id (s.keyName key) value)
  | .inst id =>
    let name := s.keyName key
    if (s.instanceOf id).fields.contains name then .ok (.field id name value)
    else .error (.unknownMember name (s.display target) line)
  | .classRef id => .ok (.staticField id (s.keyName key) value)
  | target =>
    let details := "cannot assign member '" ++ s.keyName key ++ "' of " ++ target.typeName
    .error (.typeError details line)

end State

end ScriptLang
