import Mathlib.Logic.Relation
import ScriptLang.Proofs.Domain

/-! What can be reached by following references. The reachable cells of a state, together with those
that do not exist yet, are a domain. -/

namespace ScriptLang

/-- A cell, a value, or the code of a function. -/
inductive Node
  | cell (c : Cell)
  | value (v : Value)
  | code (f : FunctionDecl Nat)

namespace State

/-- The one leads directly to the other. -/
inductive Refers (s : State) : Node → Node → Prop
  | parent {id parent : ScopeId} {c : Scope} (hc : s.scopes[id.index]? = some c)
      (hparent : c.parent = some parent) : Refers s (.cell (.scope id)) (.cell (.scope parent))
  | binding {id : ScopeId} {c : Scope} {entry : String × Binding}
      (hc : s.scopes[id.index]? = some c) (hentry : entry ∈ c.bindings.entries) :
      Refers s (.cell (.scope id)) (.value entry.2.value)
  | item {id : ArrayId} {items : Array Value} {v : Value}
      (hitems : s.arrays[id.index]? = some items) (hv : v ∈ items) :
      Refers s (.cell (.container (.array id))) (.value v)
  | property {id : ObjectId} {record : Record Value} {entry : String × Value}
      (hrecord : s.objects[id.index]? = some record) (hentry : entry ∈ record.entries) :
      Refers s (.cell (.container (.object id))) (.value entry.2)
  | instanceClass {id : InstanceId} {i : Instance} (hi : s.instances[id.index]? = some i) :
      Refers s (.cell (.container (.inst id))) (.cell (.classRef i.classId))
  | field {id : InstanceId} {i : Instance} {entry : String × Value}
      (hi : s.instances[id.index]? = some i) (hentry : entry ∈ i.fields.entries) :
      Refers s (.cell (.container (.inst id))) (.value entry.2)
  | staticField {id : ClassId} {c : Class} {entry : String × Value}
      (hc : s.classes[id.index]? = some c) (hentry : entry ∈ c.staticFields.entries) :
      Refers s (.cell (.classRef id)) (.value entry.2)
  | method {id : ClassId} {c : Class} {entry : String × FunctionDecl Nat}
      (hc : s.classes[id.index]? = some c)
      (hentry : entry ∈ c.methods.entries ∨ entry ∈ c.staticMethods.entries) :
      Refers s (.cell (.classRef id)) (.code entry.2)
  | methodScope {id : ClassId} {c : Class} {entry : String × FunctionDecl Nat}
      (hc : s.classes[id.index]? = some c)
      (hentry : entry ∈ c.methods.entries ∨ entry ∈ c.staticMethods.entries) :
      Refers s (.cell (.classRef id)) (.cell (.scope c.scope))
  | container {c : Container} : Refers s (.value (.container c)) (.cell (.container c))
  | classRef {id : ClassId} : Refers s (.value (.classRef id)) (.cell (.classRef id))
  | function {f : Closure} : Refers s (.value (.function f)) (.code f.function)
  | functionScope {f : Closure} : Refers s (.value (.function f)) (.cell (.scope f.scope))
  | receiver {f : Closure} {receiver : Receiver} (hreceiver : f.receiver = some receiver) :
      Refers s (.value (.function f)) (.cell receiver.cell)
  | payload {m : Member} {v : Value} : Refers s (.value (.tagged m v)) (.value v)

/-- References lead from one of the roots to the node. -/
def Reaches (s : State) (roots : List Node) (node : Node) : Prop :=
  ∃ root ∈ roots, Relation.ReflTransGen s.Refers root node

theorem Reaches.tail {s : State} {roots : List Node} {a b : Node} (h : s.Reaches roots a)
    (hab : s.Refers a b) : s.Reaches roots b := by
  obtain ⟨root, hroot, h⟩ := h
  exact ⟨root, hroot, h.tail hab⟩

theorem Reaches.root {s : State} {roots : List Node} {root : Node} (h : root ∈ roots) :
    s.Reaches roots root :=
  ⟨root, h, .refl⟩

/-- All that can be reached from the roots, and all that is yet to be made. -/
def reachable (s : State) (roots : List Node) (loop : Prop) : Domain where
  cell c := s.Reaches roots (.cell c) ∨ ¬ c.In s
  loop

end State

def Node.Within (D : Domain) : Node → Prop
  | cell c => D.cell c
  | value v => v.Within D
  | code f => f.Permitted (.anyName D.loop)

theorem State.Refers.within {D : Domain} {s : State} {a b : Node} (h : s.Refers a b)
    (hs : s.Within D) (ha : a.Within D) : b.Within D := by
  cases h with
  | parent hc hparent => exact (hs.scopes _ _ ha hc).parent _ hparent
  | binding hc hentry => exact (hs.scopes _ _ ha hc).bindings _ hentry
  | item hitems hv => exact hs.arrays _ _ ha hitems _ hv
  | property hrecord hentry => exact hs.objects _ _ ha hrecord _ hentry
  | instanceClass hi => exact (hs.instances _ _ ha hi).classId
  | field hi hentry => exact (hs.instances _ _ ha hi).fields _ hentry
  | staticField hc hentry => exact (hs.classes _ _ ha hc).staticFields _ hentry
  | method hc hentry =>
    have hclass := hs.classes _ _ ha hc
    rcases hentry with hentry | hentry
    · exact (hclass.methods _ hentry).1
    · exact (hclass.staticMethods _ hentry).1
  | methodScope hc hentry =>
    have hclass := hs.classes _ _ ha hc
    rcases hentry with hentry | hentry
    · exact (hclass.methods _ hentry).2
    · exact (hclass.staticMethods _ hentry).2
  | container | classRef | payload => exact ha
  | function => exact ha.1
  | functionScope => exact ha.2.1
  | receiver hreceiver => exact ha.2.2 _ hreceiver

theorem State.Within.reaches {D : Domain} {s : State} {roots : List Node} {node : Node}
    (hs : s.Within D) (hroots : ∀ root ∈ roots, root.Within D) (h : s.Reaches roots node) :
    node.Within D := by
  obtain ⟨root, hroot, h⟩ := h
  induction h with
  | refl => exact hroots root hroot
  | tail _ hlast ih => exact hlast.within hs ih

section Reachable

variable {s : State} {roots : List Node} {loop : Prop}

theorem State.reachable_value
    (hcode : ∀ f, s.Reaches roots (.code f) → f.Permitted (.anyName loop))
    (hnative : ∀ f, s.Reaches roots (.value (.native f)) → f.builtin.IsPrelude) {v : Value}
    (hv : s.Reaches roots (.value v)) : v.Within (s.reachable roots loop) := by
  induction v with
  | container c => exact .inl (hv.tail .container)
  | function f =>
    refine ⟨hcode _ (hv.tail .function), .inl (hv.tail .functionScope), fun receiver hr => ?_⟩
    exact .inl (hv.tail (.receiver hr))
  | native f => exact hnative f hv
  | classRef id => exact .inl (hv.tail .classRef)
  | tagged m v ih => exact ih (hv.tail .payload)
  | null | bool | number | string | enumeration | member => trivial

/-- If no reachable code loops unless it may, and all reachable natives are those of every program,
then the state is within what is reachable. -/
theorem State.within_reachable
    (hcode : ∀ f, s.Reaches roots (.code f) → f.Permitted (.anyName loop))
    (hnative : ∀ f, s.Reaches roots (.value (.native f)) → f.builtin.IsPrelude) :
    s.Within (s.reachable roots loop) := by
  have hvalue : ∀ {v : Value}, s.Reaches roots (.value v) → v.Within (s.reachable roots loop) :=
    reachable_value hcode hnative
  have hreaches : ∀ {c : Cell}, (s.reachable roots loop).cell c → c.In s → s.Reaches roots (.cell c) :=
    fun h hin => h.resolve_right (absurd hin)
  have hin : ∀ {α : Type} {xs : Array α} {i : Nat} {a : α}, xs[i]? = some a → i < xs.size :=
    fun h => (Array.getElem?_eq_some_iff.mp h).1
  -- Whatever a reachable cell holds is reached through it, one reference further on.
  constructor
  · intro id c hid hc
    have hid := hreaches hid (hin hc)
    exact ⟨fun entry hentry => hvalue (hid.tail (.binding hc hentry)),
      fun parent hparent => .inl (hid.tail (.parent hc hparent))⟩
  · intro id items hid hitems v hv
    exact hvalue ((hreaches hid (hin hitems)).tail (.item hitems hv))
  · intro id record hid hrecord entry hentry
    exact hvalue ((hreaches hid (hin hrecord)).tail (.property hrecord hentry))
  · intro id c hid hc
    have hid := hreaches hid (hin hc)
    refine ⟨fun entry hentry => hvalue (hid.tail (.staticField hc hentry)),
      fun entry hentry => ?_, fun entry hentry => ?_⟩
    · exact ⟨hcode _ (hid.tail (.method hc (.inl hentry))),
        .inl (hid.tail (.methodScope hc (.inl hentry)))⟩
    · exact ⟨hcode _ (hid.tail (.method hc (.inr hentry))),
        .inl (hid.tail (.methodScope hc (.inr hentry)))⟩
  · intro id i hid hi
    have hid := hreaches hid (hin hi)
    exact ⟨.inl (hid.tail (.instanceClass hi)),
      fun entry hentry => hvalue (hid.tail (.field hi hentry))⟩
  · exact fun cell hcell => .inr hcell

end Reachable

end ScriptLang
