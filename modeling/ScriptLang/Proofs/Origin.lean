import ScriptLang.Proofs.Marks
import ScriptLang.Proofs.Trail

/-! Where code comes from. An origin says which lines code may be on and which functions there may be. The
functions that values and classes hold stem from it, and so do the lines of faults. -/

namespace ScriptLang

structure Origin where
  line : Nat → Prop
  function : FunctionDecl Nat → Prop

variable {O : Origin}

namespace Origin

def Has (O : Origin) : Mark Nat → Prop
  | .line n => O.line n
  | .function f => O.function f

/-- Code with these marks stems from the origin. -/
def Covers (O : Origin) (marks : List (Mark Nat)) : Prop :=
  ∀ m ∈ marks, O.Has m

variable {m : Mark Nat} {marks others : List (Mark Nat)}

theorem covers_cons : O.Covers (m :: marks) ↔ O.Has m ∧ O.Covers marks :=
  List.forall_mem_cons

theorem covers_append : O.Covers (marks ++ others) ↔ O.Covers marks ∧ O.Covers others :=
  List.forall_mem_append

theorem covers_flatMap {α : Type} {l : List α} {f : α → List (Mark Nat)} :
    O.Covers (l.flatMap f) ↔ ∀ a ∈ l, O.Covers (f a) :=
  List.forall_mem_flatMap

end Origin

/-! ### Values and cells -/

/-- Natives are those of every program. -/
def Value.StemsFrom (O : Origin) : Value → Prop
  | function f => O.Covers f.function.marks
  | native f => f.builtin.IsPrelude
  | tagged _ payload => payload.StemsFrom O
  | null | bool _ | number _ | string _ | container _ | classRef _ | enumeration _ | member _ => True

def Record.StemsFrom (O : Origin) (r : Record Value) : Prop :=
  ∀ entry ∈ r.entries, entry.2.StemsFrom O

structure Class.StemsFrom (O : Origin) (c : Class) : Prop where
  staticFields : c.staticFields.StemsFrom O
  methods : ∀ entry ∈ c.methods.entries, O.Covers entry.2.marks
  staticMethods : ∀ entry ∈ c.staticMethods.entries, O.Covers entry.2.marks

structure State.StemsFrom (O : Origin) (s : State) : Prop where
  bindings : ∀ (i : Nat) (c : Scope), s.scopes[i]? = some c → ∀ entry ∈ c.bindings.entries,
    entry.2.value.StemsFrom O
  items : ∀ (i : Nat) (items : Array Value), s.arrays[i]? = some items → ∀ v ∈ items, v.StemsFrom O
  properties : ∀ (i : Nat) (r : Record Value), s.objects[i]? = some r → r.StemsFrom O
  classes : ∀ (i : Nat) (c : Class), s.classes[i]? = some c → c.StemsFrom O
  fields : ∀ (i : Nat) (x : Instance), s.instances[i]? = some x → x.fields.StemsFrom O

theorem Receiver.value_stemsFrom {receiver : Receiver} : receiver.value.StemsFrom O := by
  cases receiver <;> trivial

namespace Record.StemsFrom

variable {r : Record Value} {key : String} {value : Value}

theorem get? (h : r.StemsFrom O) (hget : r.get? key = some value) : value.StemsFrom O :=
  h _ (mem_entries_of_get? hget)

theorem insert (h : r.StemsFrom O) (hv : value.StemsFrom O) : (r.insert key value).StemsFrom O := by
  intro entry hentry
  rcases mem_insert hentry with hentry | rfl
  · exact h entry hentry
  · exact hv

theorem update (h : r.StemsFrom O) (hv : value.StemsFrom O) : (r.update key value).StemsFrom O := by
  intro entry hentry
  rcases mem_update hentry with hentry | rfl
  · exact h entry hentry
  · exact hv

theorem ofList {pairs : List (String × Value)} (h : ∀ pair ∈ pairs, pair.2.StemsFrom O) :
    (Record.ofList pairs).StemsFrom O :=
  fun entry hentry => h entry (mem_ofList hentry)

end Record.StemsFrom

/-! ### Faults -/

/-- The line that a fault names. Natives name none. -/
def Fault.line? : Fault → Option Nat
  | unknownVariable _ line | constantReassignment _ line | notCallable _ line | notAClass _ line
  | indexOutOfBounds _ _ line | invalidIndex _ line | unknownMember _ _ line | typeError _ line
  | divisionByZero line | loopControlOutsideLoop _ line | tagArity _ line | recursionLimit _ line =>
    some line
  | native .. => none

def RuntimeError.line? : RuntimeError → Option Nat
  | thrown _ line => some line
  | fault f => f.line?

theorem RuntimeError.eq_native_of_line?_eq_none {e : RuntimeError} (h : e.line? = none) :
    ∃ name reason, e = .fault (.native name reason) := by
  match e with
  | .fault (.native name reason) => exact ⟨name, reason, rfl⟩

def Fault.StemsFrom (O : Origin) (f : Fault) : Prop :=
  ∀ line ∈ f.line?, O.line line

theorem Fault.StemsFrom.of_line? {f : Fault} {line : Nat} (hline : O.line line) (h : f.line? = some line) :
    f.StemsFrom O :=
  fun _ hn => Option.some.inj (h.symm.trans hn) ▸ hline

/-- What is found is good, or else the line of the fault stems from the origin. -/
def Origin.Finds {α : Type} (O : Origin) (r : Except Fault α) (good : α → Prop) : Prop :=
  match r with
  | .ok a => good a
  | .error f => f.StemsFrom O

namespace Origin.Finds

variable {α β : Type} {good : α → Prop} {line : Nat} {f : Fault}

theorem error (hline : O.line line) (h : f.line? = some line) : O.Finds (.error f) good :=
  Fault.StemsFrom.of_line? hline h

theorem bind {r : Except Fault α} {f : α → Except Fault β} {good' : β → Prop} (hr : O.Finds r good)
    (hf : ∀ a, good a → O.Finds (f a) good') : O.Finds (r >>= f) good' := by
  cases r with
  | error e => exact hr
  | ok a => exact hf a hr

end Origin.Finds

/-! ### Operations on values -/

namespace State

variable {s : State} {line : Nat} (hline : O.line line)

include hline

theorem indexOf_stems {key : Value} : O.Finds (s.indexOf key line) fun _ => True := by
  have hnumber : ∀ x, O.Finds (indexOfNumber x line) fun _ => True := by
    intro x
    unfold indexOfNumber
    split
    · trivial
    · exact .error hline rfl
  cases key with
  | number x => exact hnumber x
  | _ => exact .error hline rfl

theorem required_stems {found : Option Value} {name : String} {target : Value}
    (h : ∀ v ∈ found, v.StemsFrom O) : O.Finds (s.required found name target line) (·.StemsFrom O) := by
  cases found with
  | none => exact .error hline rfl
  | some v => exact h v rfl

theorem operate_stems {operator : Operator} {a b : Value} :
    O.Finds (s.operate operator a b line) (·.StemsFrom O) := by
  have harithmetic : ∀ (operator : Operator) (x y : Float),
      O.Finds (arithmetic operator x y line) (·.StemsFrom O) := by
    intro operator x y
    unfold arithmetic
    split <;> (try split) <;> first | trivial | exact .error hline rfl
  unfold operate
  split
  case h_7 => exact harithmetic _ _ _
  all_goals trivial

theorem assignment_stems {id : ScopeId} {name : String} {v : Value} :
    O.Finds (s.assignment id name v line) (·.value = v) := by
  unfold assignment
  split
  · exact .error hline rfl
  · split
    · exact .error hline rfl
    · split
      · exact .error hline rfl
      · rfl

theorem memberWrite_stems {target key v : Value} :
    O.Finds (s.memberWrite target key v line) (·.value = v) := by
  unfold memberWrite
  split
  · refine (indexOf_stems hline).bind fun index _ => ?_
    dsimp only
    split
    · exact .error hline rfl
    · rfl
  · rfl
  · dsimp only
    split
    · rfl
    · exact .error hline rfl
  · rfl
  · exact .error hline rfl

end State

/-! ### Reading -/

namespace State.StemsFrom

variable {s : State} (h : s.StemsFrom O)

include h

theorem binding {id : ScopeId} {name : String} {b : Binding}
    (hget : (s.scope id).bindings.get? name = some b) : b.value.StemsFrom O := by
  have hmem := Record.mem_entries_of_get? hget
  unfold State.scope at hmem
  rw [Array.getD_eq_getD_getElem?] at hmem
  cases hscope : s.scopes[id.index]? with
  | none =>
    rw [hscope] at hmem
    cases hmem
  | some c =>
    rw [hscope] at hmem
    exact h.bindings _ c hscope _ hmem

theorem array (id : ArrayId) : ∀ v ∈ s.array id, v.StemsFrom O := by
  unfold State.array
  rw [Array.getD_eq_getD_getElem?]
  cases hget : s.arrays[id.index]? with
  | none => simp
  | some items => exact h.items _ items hget

theorem object (id : ObjectId) : (s.object id).StemsFrom O := by
  unfold State.object
  rw [Array.getD_eq_getD_getElem?]
  cases hget : s.objects[id.index]? with
  | none => exact fun _ => nofun
  | some record => exact h.properties _ record hget

theorem classOf (id : ClassId) : (s.classOf id).StemsFrom O := by
  unfold State.classOf
  rw [Array.getD_eq_getD_getElem?]
  cases hget : s.classes[id.index]? with
  | none => exact ⟨fun _ => nofun, fun _ => nofun, fun _ => nofun⟩
  | some c => exact h.classes _ c hget

theorem instanceOf (id : InstanceId) : (s.instanceOf id).fields.StemsFrom O := by
  unfold State.instanceOf
  rw [Array.getD_eq_getD_getElem?]
  cases hget : s.instances[id.index]? with
  | none => exact fun _ => nofun
  | some i => exact h.fields _ i hget

theorem lookup {id : ScopeId} {name : String} {line : Nat} (hline : O.line line) :
    O.Finds (s.lookup id name line) (·.StemsFrom O) := by
  unfold State.lookup
  split
  · next b hb =>
    obtain ⟨owner, -, hget⟩ := Option.bind_eq_some_iff.mp hb
    exact h.binding hget
  · exact .error hline rfl

theorem method {id : ClassId} {name : String} {receiver : Receiver} {v : Value}
    (hv : (s.classOf id).method? name receiver = some v) : v.StemsFrom O := by
  obtain ⟨f, hf, rfl⟩ := Option.map_eq_some_iff.mp hv
  exact (h.classOf id).methods _ (Record.mem_entries_of_get? hf)

theorem staticMethod {id : ClassId} {name : String} {receiver : Receiver} {v : Value}
    (hv : (s.classOf id).staticMethod? name receiver = some v) : v.StemsFrom O := by
  obtain ⟨f, hf, rfl⟩ := Option.map_eq_some_iff.mp hv
  exact (h.classOf id).staticMethods _ (Record.mem_entries_of_get? hf)

theorem getMember {target key : Value} {line : Nat} (hline : O.line line) :
    O.Finds (s.getMember target key line) (·.StemsFrom O) := by
  unfold State.getMember
  split
  · next id =>
    refine (indexOf_stems hline).bind fun index _ => ?_
    split
    · next item hitem => exact h.array id _ (Array.mem_of_getElem? hitem)
    · exact .error hline rfl
  · refine (indexOf_stems hline).bind fun index _ => ?_
    split
    · trivial
    · exact .error hline rfl
  · next id =>
    cases hget : (s.object id).get? (s.keyName key) with
    | none => trivial
    | some value => exact (h.object id).get? hget
  · next id =>
    refine required_stems hline fun v hv => ?_
    rcases Option.or_eq_some_iff.mp hv with hfield | ⟨-, hmethod⟩
    · exact (h.instanceOf id).get? hfield
    · obtain ⟨i, -, hmethod⟩ := Option.bind_eq_some_iff.mp hmethod
      exact h.method hmethod
  · next id =>
    refine required_stems hline fun v hv => ?_
    rcases Option.or_eq_some_iff.mp hv with hfield | ⟨-, hmethod⟩
    · exact (h.classOf id).staticFields.get? hfield
    · exact h.staticMethod hmethod
  · refine required_stems hline fun v hv => ?_
    split at hv
    · cases hv
      trivial
    · cases hv
  · exact .error hline rfl

/-! ### Changes -/

theorem newScope {c : Scope} (hc : ∀ entry ∈ c.bindings.entries, entry.2.value.StemsFrom O) :
    (s.newScope c).2.StemsFrom O := by
  refine ⟨fun i c' hget => ?_, h.items, h.properties, h.classes, h.fields⟩
  rcases mem_of_getElem?_push hget with hget | rfl
  · exact h.bindings i c' hget
  · exact hc

theorem newArray {items : Array Value} (hitems : ∀ v ∈ items, v.StemsFrom O) :
    (s.newArray items).2.StemsFrom O := by
  refine ⟨h.bindings, fun i items' hget => ?_, h.properties, h.classes, h.fields⟩
  rcases mem_of_getElem?_push hget with hget | rfl
  · exact h.items i items' hget
  · exact hitems

theorem newObject {record : Record Value} (hrecord : record.StemsFrom O) :
    (s.newObject record).2.StemsFrom O := by
  refine ⟨h.bindings, h.items, fun i record' hget => ?_, h.classes, h.fields⟩
  rcases mem_of_getElem?_push hget with hget | rfl
  · exact h.properties i record' hget
  · exact hrecord

theorem newClass {c : Class} (hc : c.StemsFrom O) : (s.newClass c).2.StemsFrom O := by
  refine ⟨h.bindings, h.items, h.properties, fun i c' hget => ?_, h.fields⟩
  rcases mem_of_getElem?_push hget with hget | rfl
  · exact h.classes i c' hget
  · exact hc

theorem newInstance {id : ClassId} : (s.newInstance id).2.StemsFrom O := by
  refine ⟨h.bindings, h.items, h.properties, h.classes, fun i x hget => ?_⟩
  rcases mem_of_getElem?_push hget with hget | rfl
  · exact h.fields i x hget
  · refine .ofList fun pair hpair => ?_
    obtain ⟨name, -, rfl⟩ := List.mem_map.mp hpair
    trivial

theorem updateArray {id : ArrayId} {f : Array Value → Array Value}
    (hf : ∀ items, (∀ v ∈ items, v.StemsFrom O) → ∀ v ∈ f items, v.StemsFrom O) :
    (s.updateArray id f).StemsFrom O := by
  refine ⟨h.bindings, fun i items hget => ?_, h.properties, h.classes, h.fields⟩
  rcases mem_of_getElem?_modify hget with hget | ⟨-, old, hold, rfl⟩
  · exact h.items i items hget
  · exact hf old (h.items i old hold)

theorem push {id : ArrayId} {item : Value} (hitem : item.StemsFrom O) :
    (s.updateArray id (·.push item)).StemsFrom O := by
  refine h.updateArray fun items hitems v hv => ?_
  rcases Array.mem_push.mp hv with hv | rfl
  · exact hitems v hv
  · exact hitem

theorem updateBindings {id : ScopeId} {f : Record Binding → Record Binding}
    (hf : ∀ r : Record Binding, (∀ entry ∈ r.entries, entry.2.value.StemsFrom O) →
      ∀ entry ∈ (f r).entries, entry.2.value.StemsFrom O) :
    (s.updateBindings id f).StemsFrom O := by
  refine ⟨fun i c hget => ?_, h.items, h.properties, h.classes, h.fields⟩
  rcases mem_of_getElem?_modify hget with hget | ⟨-, old, hold, rfl⟩
  · exact h.bindings i c hget
  · exact hf _ (h.bindings i old hold)

theorem declare {id : ScopeId} {name : String} {v : Value} {constant : Bool} (hv : v.StemsFrom O) :
    (s.declare id name v constant).StemsFrom O := by
  refine h.updateBindings fun r hr entry hentry => ?_
  rcases Record.mem_insert hentry with hentry | rfl
  · exact hr entry hentry
  · exact hv

theorem write {w : Write} (hw : w.value.StemsFrom O) : (s.write w).StemsFrom O := by
  cases w with
  | binding id name v =>
    show (s.updateBindings id (·.update name ⟨v, false⟩)).StemsFrom O
    refine h.updateBindings fun r hr entry hentry => ?_
    rcases Record.mem_update hentry with hentry | rfl
    · exact hr entry hentry
    · exact hw
  | item id index v =>
    show (s.updateArray id (storeAt · index v)).StemsFrom O
    refine h.updateArray fun items hitems u hu => ?_
    rcases mem_storeAt hu with hu | rfl | rfl
    · exact hitems u hu
    · trivial
    · exact hw
  | property id name v =>
    refine ⟨h.bindings, h.items, fun i record hget => ?_, h.classes, h.fields⟩
    rcases mem_of_getElem?_modify hget with hget | ⟨-, old, hold, rfl⟩
    · exact h.properties i record hget
    · exact (h.properties i old hold).insert hw
  | field id name v =>
    refine ⟨h.bindings, h.items, h.properties, h.classes, fun i x hget => ?_⟩
    rcases mem_of_getElem?_modify hget with hget | ⟨-, old, hold, rfl⟩
    · exact h.fields i x hget
    · exact (h.fields i old hold).update hw
  | staticField id name v =>
    refine ⟨h.bindings, h.items, h.properties, fun i c hget => ?_, h.fields⟩
    rcases mem_of_getElem?_modify hget with hget | ⟨-, old, hold, rfl⟩
    · exact h.classes i c hget
    · have hclass := h.classes i old hold
      exact ⟨hclass.staticFields.insert hw, hclass.methods, hclass.staticMethods⟩

theorem enter {kind : ScopeKind} {parent : ScopeId} : (s.enter kind parent).2.StemsFrom O :=
  h.newScope fun _ => nofun

theorem bindArguments {f : Closure} {scope : ScopeId} {arguments : List Value}
    (harguments : ∀ v ∈ arguments, v.StemsFrom O) : (s.bindArguments scope f arguments).StemsFrom O := by
  refine bindArguments_induction ?_ fun s' name v hv hs' => hs'.declare (harguments v hv)
  cases f.receiver with
  | none => exact h
  | some receiver => exact h.declare Receiver.value_stemsFrom

end State.StemsFrom

end ScriptLang
