import ScriptLang.State

/-! Names. A scope binds names and hands others on to its parent, which is always older. -/

namespace ScriptLang

/-- How a new scope is made from the one around it. Loop bodies permit `break` and `continue`,
function bodies do not, and any other scope does what its parent does. -/
inductive ScopeKind
  | child | loop | function
  deriving DecidableEq, Repr

namespace State

def newRoot (s : State) : ScopeId × State :=
  s.newScope ⟨none, .empty, false⟩

def permitsLoopControl (s : State) (id : ScopeId) : Bool :=
  (s.scope id).permitsLoopControl

def enter (s : State) (kind : ScopeKind) (parent : ScopeId) : ScopeId × State :=
  let permits :=
    match kind with
    | .child => s.permitsLoopControl parent
    | .loop => true
    | .function => false
  s.newScope ⟨some parent, .empty, permits⟩

/-- Binds `name` in this very scope, whatever it was bound to there. -/
def declare (s : State) (id : ScopeId) (name : String) (value : Value) (constant : Bool) : State :=
  s.updateBindings id (·.insert name ⟨value, constant⟩)

def isLocal (s : State) (id : ScopeId) (name : String) : Bool :=
  (s.scope id).bindings.contains name

def owner? (s : State) (id : ScopeId) (name : String) : Option ScopeId :=
  if s.isLocal id name then some id
  else
    match (s.scope id).parent with
    | some parent => if parent.index < id.index then s.owner? parent name else none
    | none => none
termination_by id.index

def binding? (s : State) (id : ScopeId) (name : String) : Option Binding :=
  (s.owner? id name).bind fun owner => (s.scope owner).bindings.get? name

def lookup (s : State) (id : ScopeId) (name : String) (line : Nat) : Except Fault Value :=
  match s.binding? id name with
  | some binding => .ok binding.value
  | none => .error (.unknownVariable name line)

/-- The write that gives the nearest binding of `name` a new value, unless it is constant. -/
def assignment (s : State) (id : ScopeId) (name : String) (value : Value) (line : Nat) :
    Except Fault Write :=
  match s.owner? id name with
  | none => .error (.unknownVariable name line)
  | some owner =>
    match (s.scope owner).bindings.get? name with
    | none => .error (.unknownVariable name line)
    | some binding =>
      if binding.constant then .error (.constantReassignment name line)
      else .ok (.binding owner name value)

variable {s : State} {id id' : ScopeId}

theorem lookup_of_get? {name : String} {b : Binding} {line : Nat}
    (h : (s.scope id).bindings.get? name = some b) : s.lookup id name line = .ok b.value := by
  have hlocal : s.isLocal id name = true := by rw [isLocal, Record.contains, h, Option.isSome_some]
  have howner : s.owner? id name = some id := by rw [owner?, if_pos hlocal]
  rw [lookup, binding?, howner, Option.bind_some, h]

/-! ### Reading scopes after a change -/

theorem scope_newScope_of_lt {c : Scope} (h : id.index < s.scopes.size) :
    (s.newScope c).2.scope id = s.scope id := by
  simp only [newScope, scope, Array.getD_eq_getD_getElem?, Array.getElem?_push_lt h,
    Array.getElem?_eq_getElem h]

theorem scope_newScope {c : Scope} : (s.newScope c).2.scope (s.newScope c).1 = c := by
  simp [newScope, scope]

theorem scope_updateBindings_self {f : Record Binding → Record Binding}
    (h : id.index < s.scopes.size) :
    (s.updateBindings id f).scope id = { s.scope id with bindings := f (s.scope id).bindings } := by
  simp only [updateBindings, scope, Array.getD_eq_getD_getElem?, Array.getElem?_modify, if_true,
    Array.getElem?_eq_getElem h, Option.map_some, Option.getD_some]

theorem scope_updateBindings_of_ne {f : Record Binding → Record Binding} (h : id' ≠ id) :
    (s.updateBindings id f).scope id' = s.scope id' := by
  have hindex : id.index ≠ id'.index := fun he => h (congrArg ScopeId.mk he.symm)
  simp [updateBindings, scope, Array.getElem?_modify, hindex]

theorem permitsLoopControl_updateBindings {f : Record Binding → Record Binding} :
    (s.updateBindings id f).permitsLoopControl id' = s.permitsLoopControl id' := by
  simp only [updateBindings, permitsLoopControl, scope, Array.getD_eq_getD_getElem?,
    Array.getElem?_modify]
  split
  · cases s.scopes[id'.index]? <;> rfl
  · rfl

theorem permitsLoopControl_enter {kind : ScopeKind} {parent : ScopeId} :
    (s.enter kind parent).2.permitsLoopControl (s.enter kind parent).1 =
      match kind with
      | .child => s.permitsLoopControl parent
      | .loop => true
      | .function => false :=
  congrArg Scope.permitsLoopControl scope_newScope

@[simp]
theorem size_enter {kind : ScopeKind} {parent : ScopeId} :
    (s.enter kind parent).2.scopes.size = s.scopes.size + 1 := by
  simp [enter, newScope]

theorem enter_fst_lt {kind : ScopeKind} {parent : ScopeId} :
    (s.enter kind parent).1.index < (s.enter kind parent).2.scopes.size := by
  rw [size_enter]
  exact Nat.lt_succ_self _

@[simp]
theorem size_updateBindings {f : Record Binding → Record Binding} :
    (s.updateBindings id f).scopes.size = s.scopes.size := by
  simp [updateBindings]

/-! ### Reading a scope after a declaration in it -/

section Declared

variable {name other : String} {v : Value} {constant : Bool}

@[simp]
theorem size_declare : (s.declare id name v constant).scopes.size = s.scopes.size :=
  size_updateBindings

theorem get?_declare_self (h : id.index < s.scopes.size) :
    ((s.declare id name v constant).scope id).bindings.get? name = some ⟨v, constant⟩ := by
  rw [declare, scope_updateBindings_self h]
  exact Record.get?_insert_self

theorem get?_declare_of_ne (hne : other ≠ name) (h : id.index < s.scopes.size) :
    ((s.declare id name v constant).scope id).bindings.get? other =
      (s.scope id).bindings.get? other := by
  rw [declare, scope_updateBindings_self h]
  exact Record.get?_insert_of_ne hne

end Declared

end State

end ScriptLang
