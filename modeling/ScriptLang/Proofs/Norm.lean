import ScriptLang.Proofs.Located
import ScriptLang.Proofs.Trail

/-! Norms for all that a program makes. A norm says which statements code consists of, and whether the
heap is tidy: the names of properties are distinct, instances have the fields of their classes, and
members of enums are declared. What conforms to a norm still does when there are more classes. -/

namespace ScriptLang

structure Norm where
  known : Bool × Stmt Nat → Prop
  tidy : Prop

def Member.Declared (m : Member) : Prop :=
  m.name ∈ m.enumeration.members

variable {N : Norm} {n n' : Nat}

namespace Norm

def Knows (N : Norm) (code : List (Bool × Stmt Nat)) : Prop :=
  ∀ x ∈ code, N.known x

theorem knows_append {code code' : List (Bool × Stmt Nat)} :
    N.Knows (code ++ code') ↔ N.Knows code ∧ N.Knows code' :=
  List.forall_mem_append

theorem knows_cons {x : Bool × Stmt Nat} {code : List (Bool × Stmt Nat)} :
    N.Knows (x :: code) ↔ N.known x ∧ N.Knows code :=
  List.forall_mem_cons

end Norm

/-! ### Values and cells -/

/-- With `n` classes. -/
def Receiver.Conforms (N : Norm) (n : Nat) : Receiver → Prop
  | ofClass id => N.tidy → id.index < n
  | ofInstance _ => True

structure Closure.Conforms (N : Norm) (n : Nat) (f : Closure) : Prop where
  code : N.Knows f.function.located
  receiver : ∀ receiver ∈ f.receiver, receiver.Conforms N n

def Value.Conforms (N : Norm) (n : Nat) : Value → Prop
  | function f => f.Conforms N n
  | classRef id => N.tidy → id.index < n
  | member m => N.tidy → m.Declared
  | tagged m payload => (N.tidy → m.Declared) ∧ payload.Conforms N n
  | null | bool _ | number _ | string _ | container _ | native _ | enumeration _ => True

/-- What a record of properties holds; a scope is no such record. -/
structure Record.Conforms (N : Norm) (n : Nat) (r : Record Value) : Prop where
  values : ∀ entry ∈ r.entries, entry.2.Conforms N n
  distinct : N.tidy → r.keys.Nodup

structure Class.Conforms (N : Norm) (n : Nat) (c : Class) : Prop where
  staticFields : c.staticFields.Conforms N n
  methods : ∀ entry ∈ c.methods.entries, N.Knows entry.2.located
  staticMethods : ∀ entry ∈ c.staticMethods.entries, N.Knows entry.2.located

/-- The fields are those of the class, each once and where it is declared first. -/
def Instance.FieldsOf (i : Instance) (classes : Array Class) : Prop :=
  ∃ c, classes[i.classId.index]? = some c ∧ i.fields.keys = c.fields.eraseDups

structure State.Conforms (N : Norm) (s : State) : Prop where
  bindings : ∀ (i : Nat) (c : Scope), s.scopes[i]? = some c → ∀ entry ∈ c.bindings.entries,
    entry.2.value.Conforms N s.classes.size
  items : ∀ (i : Nat) (items : Array Value), s.arrays[i]? = some items → ∀ v ∈ items,
    v.Conforms N s.classes.size
  properties : ∀ (i : Nat) (r : Record Value), s.objects[i]? = some r →
    r.Conforms N s.classes.size
  classes : ∀ (i : Nat) (c : Class), s.classes[i]? = some c → c.Conforms N s.classes.size
  fields : ∀ (i : Nat) (x : Instance), s.instances[i]? = some x →
    x.fields.Conforms N s.classes.size ∧ (N.tidy → x.FieldsOf s.classes)

theorem Receiver.value_conforms {receiver : Receiver} :
    receiver.value.Conforms N n ↔ receiver.Conforms N n := by
  cases receiver <;> rfl

/-! ### More classes -/

section More

variable (h : n ≤ n')

include h

theorem Receiver.Conforms.mono {receiver : Receiver} (hr : receiver.Conforms N n) :
    receiver.Conforms N n' := by
  cases receiver with
  | ofClass id => exact fun htidy => Nat.lt_of_lt_of_le (hr htidy) h
  | ofInstance id => trivial

theorem Closure.Conforms.mono {f : Closure} (hf : f.Conforms N n) : f.Conforms N n' :=
  ⟨hf.code, fun receiver hreceiver => (hf.receiver receiver hreceiver).mono h⟩

theorem Value.Conforms.mono {v : Value} (hv : v.Conforms N n) : v.Conforms N n' := by
  induction v with
  | function f => exact Closure.Conforms.mono h hv
  | classRef id => exact fun htidy => Nat.lt_of_lt_of_le (hv htidy) h
  | tagged m payload ih => exact ⟨hv.1, ih hv.2⟩
  | member m => exact hv
  | null | bool | number | string | container | native | enumeration => trivial

theorem Record.Conforms.mono {r : Record Value} (hr : r.Conforms N n) : r.Conforms N n' :=
  ⟨fun entry hentry => (hr.values entry hentry).mono h, hr.distinct⟩

theorem Class.Conforms.mono {c : Class} (hc : c.Conforms N n) : c.Conforms N n' :=
  ⟨hc.staticFields.mono h, hc.methods, hc.staticMethods⟩

end More

/-! ### Records -/

namespace Record.Conforms

variable {r : Record Value} {key : String} {value : Value}

theorem empty : (Record.empty : Record Value).Conforms N n :=
  ⟨fun _ => nofun, fun _ => .nil⟩

theorem get? (h : r.Conforms N n) (hget : r.get? key = some value) : value.Conforms N n :=
  h.values _ (mem_entries_of_get? hget)

theorem insert (h : r.Conforms N n) (hv : value.Conforms N n) :
    (r.insert key value).Conforms N n := by
  refine ⟨fun entry hentry => ?_, fun htidy => nodup_keys_insert (h.distinct htidy)⟩
  rcases mem_insert hentry with hentry | rfl
  · exact h.values entry hentry
  · exact hv

theorem update (h : r.Conforms N n) (hv : value.Conforms N n) :
    (r.update key value).Conforms N n := by
  refine ⟨fun entry hentry => ?_, fun htidy => ?_⟩
  · rcases mem_update hentry with hentry | rfl
    · exact h.values entry hentry
    · exact hv
  · rw [keys_update]
    exact h.distinct htidy

theorem ofList {pairs : List (String × Value)} (h : ∀ pair ∈ pairs, pair.2.Conforms N n) :
    (Record.ofList pairs).Conforms N n :=
  ⟨fun entry hentry => h entry (mem_ofList hentry), fun _ => nodup_keys_ofList⟩

end Record.Conforms

/-! ### Faults -/

/-- Loop control is refused only where a known statement lies outside of loops. -/
def Fault.Conforms (N : Norm) : Fault → Prop
  | loopControlOutsideLoop word line =>
    (word = "break" ∧ N.known (false, .breaks line)) ∨
      (word = "continue" ∧ N.known (false, .continues line))
  | _ => True

/-- What is found is good, and so is the fault if nothing is. -/
def Finds {α : Type} (N : Norm) (r : Except Fault α) (good : α → Prop) : Prop :=
  match r with
  | .ok a => good a
  | .error f => f.Conforms N

theorem Finds.bind {α β : Type} {r : Except Fault α} {f : α → Except Fault β} {good : α → Prop}
    {good' : β → Prop} (hr : Finds N r good) (hf : ∀ a, good a → Finds N (f a) good') :
    Finds N (r >>= f) good' := by
  cases r with
  | error e => exact hr
  | ok a => exact hf a hr

/-! ### Reading -/

namespace State

variable {s : State}

theorem indexOf_finds {key : Value} {line : Nat} : Finds N (s.indexOf key line) fun _ => True := by
  have hnumber : ∀ x, Finds N (indexOfNumber x line) fun _ => True := by
    intro x
    unfold indexOfNumber
    split <;> trivial
  cases key with
  | number x => exact hnumber x
  | _ => trivial

theorem required_finds {found : Option Value} {name : String} {target : Value} {line : Nat}
    (h : ∀ v ∈ found, v.Conforms N n) :
    Finds N (s.required found name target line) (·.Conforms N n) := by
  cases found with
  | none => trivial
  | some v => exact h v rfl

namespace Conforms

variable (h : s.Conforms N)

include h

theorem binding {id : ScopeId} {name : String} {b : Binding}
    (hget : (s.scope id).bindings.get? name = some b) : b.value.Conforms N s.classes.size := by
  have hmem := Record.mem_entries_of_get? hget
  unfold State.scope at hmem
  rw [Array.getD_eq_getD_getElem?] at hmem
  cases hscope : s.scopes[id.index]? with
  | none =>
    rw [hscope] at hmem
    cases hmem
  | some c =>
    rw [hscope] at hmem
    exact h.bindings _ c hscope _ hmem

theorem array (id : ArrayId) : ∀ v ∈ s.array id, v.Conforms N s.classes.size := by
  unfold State.array
  rw [Array.getD_eq_getD_getElem?]
  cases hget : s.arrays[id.index]? with
  | none => simp
  | some items => exact h.items _ items hget

theorem object (id : ObjectId) : (s.object id).Conforms N s.classes.size := by
  unfold State.object
  rw [Array.getD_eq_getD_getElem?]
  cases hget : s.objects[id.index]? with
  | none => exact .empty
  | some record => exact h.properties _ record hget

theorem classOf (id : ClassId) : (s.classOf id).Conforms N s.classes.size := by
  unfold State.classOf
  rw [Array.getD_eq_getD_getElem?]
  cases hget : s.classes[id.index]? with
  | none => exact ⟨.empty, fun _ => nofun, fun _ => nofun⟩
  | some c => exact h.classes _ c hget

theorem instanceOf (id : InstanceId) :
    (s.instanceOf id).fields.Conforms N s.classes.size := by
  unfold State.instanceOf
  rw [Array.getD_eq_getD_getElem?]
  cases hget : s.instances[id.index]? with
  | none => exact .empty
  | some i => exact (h.fields _ i hget).1

theorem lookup {id : ScopeId} {name : String} {line : Nat} :
    Finds N (s.lookup id name line) (·.Conforms N s.classes.size) := by
  unfold State.lookup
  split
  · next b hb =>
    obtain ⟨owner, -, hget⟩ := Option.bind_eq_some_iff.mp hb
    exact h.binding hget
  · trivial

theorem method {id : ClassId} {name : String} {receiver : Receiver} {v : Value}
    (hreceiver : receiver.Conforms N s.classes.size)
    (hv : (s.classOf id).method? name receiver = some v) : v.Conforms N s.classes.size := by
  obtain ⟨f, hf, rfl⟩ := Option.map_eq_some_iff.mp hv
  exact ⟨(h.classOf id).methods _ (Record.mem_entries_of_get? hf), by simpa using hreceiver⟩

theorem staticMethod {id : ClassId} {name : String} {receiver : Receiver} {v : Value}
    (hreceiver : receiver.Conforms N s.classes.size)
    (hv : (s.classOf id).staticMethod? name receiver = some v) :
    v.Conforms N s.classes.size := by
  obtain ⟨f, hf, rfl⟩ := Option.map_eq_some_iff.mp hv
  exact ⟨(h.classOf id).staticMethods _ (Record.mem_entries_of_get? hf), by simpa using hreceiver⟩

theorem getMember {target key : Value} {line : Nat} (ht : target.Conforms N s.classes.size) :
    Finds N (s.getMember target key line) (·.Conforms N s.classes.size) := by
  unfold State.getMember
  split
  · next id =>
    refine indexOf_finds.bind fun index _ => ?_
    split
    · next item hitem => exact h.array id _ (Array.mem_of_getElem? hitem)
    · trivial
  · refine indexOf_finds.bind fun index _ => ?_
    split <;> trivial
  · next id =>
    cases hget : (s.object id).get? (s.keyName key) with
    | none => trivial
    | some value => exact (h.object id).get? hget
  · next id =>
    refine required_finds fun v hv => ?_
    rcases Option.or_eq_some_iff.mp hv with hfield | ⟨-, hmethod⟩
    · exact (h.instanceOf id).get? hfield
    · obtain ⟨i, -, hmethod⟩ := Option.bind_eq_some_iff.mp hmethod
      have hreceiver : (Receiver.ofInstance id).Conforms N s.classes.size := trivial
      exact h.method hreceiver hmethod
  · next id =>
    refine required_finds fun v hv => ?_
    rcases Option.or_eq_some_iff.mp hv with hfield | ⟨-, hmethod⟩
    · exact (h.classOf id).staticFields.get? hfield
    · have hreceiver : (Receiver.ofClass id).Conforms N s.classes.size := ht
      exact h.staticMethod hreceiver hmethod
  · next e =>
    refine required_finds fun v hv => ?_
    split at hv
    · next hmem =>
      cases hv
      exact fun _ => hmem
    · cases hv
  · trivial

end Conforms

theorem operate_finds {operator : Operator} {a b : Value} {line : Nat} :
    Finds N (s.operate operator a b line) (·.Conforms N n) := by
  have harithmetic : ∀ (operator : Operator) (x y : Float),
      Finds N (arithmetic operator x y line) (·.Conforms N n) := by
    intro operator x y
    unfold arithmetic
    split <;> (try split) <;> trivial
  unfold operate
  split
  case h_7 => exact harithmetic _ _ _
  all_goals trivial

theorem assignment_finds {id : ScopeId} {name : String} {v : Value} {line : Nat} :
    Finds N (s.assignment id name v line) (·.value = v) := by
  unfold assignment
  split
  · trivial
  · split
    · trivial
    · split
      · trivial
      · rfl

theorem memberWrite_finds {target key v : Value} {line : Nat} :
    Finds N (s.memberWrite target key v line) (·.value = v) := by
  unfold memberWrite
  split
  · refine indexOf_finds.bind fun index _ => ?_
    dsimp only
    split
    · trivial
    · rfl
  · rfl
  · dsimp only
    split
    · rfl
    · trivial
  · rfl
  · trivial

end State

end ScriptLang
