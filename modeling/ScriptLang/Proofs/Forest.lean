import ScriptLang.Proofs.Parameters
import ScriptLang.Proofs.Storing

/-! Trees of scopes as a host makes them. What a name means in a scope is told by the requests of the host
alone: the nearest scope that has declared the name gives the value that was stored there last. -/

namespace ScriptLang

namespace State

variable {s s' : State} {id : ScopeId}

/-! ### Reading any scope -/

theorem scope_of_size_le (h : s.scopes.size ≤ id.index) : s.scope id = default := by
  rw [scope, Array.getD_eq_getD_getElem?, Array.getElem?_eq_none h, Option.getD_none]

theorem lt_size_of_parent {parent : ScopeId} (h : (s.scope id).parent = some parent) :
    id.index < s.scopes.size := by
  by_contra hge
  rw [scope_of_size_le (Nat.le_of_not_lt hge)] at h
  cases h

theorem lt_size_of_get? {name : String} {b : Binding} (h : (s.scope id).bindings.get? name = some b) :
    id.index < s.scopes.size := by
  by_contra hge
  rw [scope_of_size_le (Nat.le_of_not_lt hge)] at h
  cases h

theorem scope_newScope_eq {c : Scope} :
    (s.newScope c).2.scope id = if id = (s.newScope c).1 then c else s.scope id := by
  split
  · next h => exact h ▸ scope_newScope
  · next h =>
    rcases Nat.lt_trichotomy id.index s.scopes.size with hlt | heq | hgt
    · exact scope_newScope_of_lt hlt
    · exact absurd (congrArg ScopeId.mk heq) h
    · have hsize : (s.newScope c).2.scopes.size ≤ id.index := by simpa [newScope] using hgt
      rw [scope_of_size_le hsize, scope_of_size_le (Nat.le_of_lt hgt)]

/-- Nothing is different but what the name is bound to in the scope. -/
structure Rebinds (s : State) (scope : ScopeId) (name : String) (b : Binding) (s' : State) : Prop where
  stored : (s.scope scope).bindings.Stored (s'.scope scope).bindings name b
  rest : s'.scope scope = { s.scope scope with bindings := (s'.scope scope).bindings }
  others : ∀ id, id ≠ scope → s'.scope id = s.scope id
  size_eq : s'.scopes.size = s.scopes.size
  state_eq : s' = { s with scopes := s'.scopes }

theorem rebinds_updateBindings {f : Record Binding → Record Binding} {name : String} {b : Binding}
    (hid : id.index < s.scopes.size)
    (h : (s.scope id).bindings.Stored (f (s.scope id).bindings) name b) :
    s.Rebinds id name b (s.updateBindings id f) := by
  have hscope := scope_updateBindings_self (f := f) hid
  refine ⟨?_, ?_, fun other hne => scope_updateBindings_of_ne hne, size_updateBindings, rfl⟩
  · rwa [hscope]
  · rw [hscope]

theorem rebinds_declare {name : String} {value : Value} {constant : Bool} (hid : id.index < s.scopes.size) :
    s.Rebinds id name ⟨value, constant⟩ (s.declare id name value constant) :=
  rebinds_updateBindings (f := (·.insert name ⟨value, constant⟩)) hid Record.stored_insert

theorem rebinds_write {name : String} {value : Value} {b : Binding}
    (h : (s.scope id).bindings.get? name = some b) :
    s.Rebinds id name ⟨value, false⟩ (s.write (.binding id name value)) :=
  rebinds_updateBindings (f := (·.update name ⟨value, false⟩)) (lt_size_of_get? h)
    (Record.stored_update (Record.mem_keys_of_get? h))

theorem Rebinds.get?_eq {scope : ScopeId} {name x : String} {b : Binding} (h : s.Rebinds scope name b s') :
    (s'.scope id).bindings.get? x =
      if id = scope ∧ x = name then some b else (s.scope id).bindings.get? x := by
  by_cases hid : id = scope
  · subst hid
    by_cases hx : x = name
    · rw [if_pos ⟨rfl, hx⟩, hx, h.stored.value]
    · rw [if_neg fun hboth => hx hboth.2, h.stored.others x hx]
  · rw [if_neg fun hboth => hid hboth.1, h.others id hid]

theorem Rebinds.parent_eq {scope : ScopeId} {name : String} {b : Binding} (h : s.Rebinds scope name b s') :
    (s'.scope id).parent = (s.scope id).parent := by
  by_cases hid : id = scope
  · rw [hid, h.rest]
  · rw [h.others id hid]

theorem assignment_cases (s : State) (id : ScopeId) (name : String) (value : Value) (line : Nat) :
    (s.owner? id name = none ∧
      s.assignment id name value line = .error (.unknownVariable name line)) ∨
    ∃ owner b, s.owner? id name = some owner ∧ (s.scope owner).bindings.get? name = some b ∧
      s.assignment id name value line =
        if b.constant then .error (.constantReassignment name line)
        else .ok (.binding owner name value) := by
  cases howner : s.owner? id name with
  | none => exact .inl ⟨rfl, by rw [assignment, howner]⟩
  | some owner =>
    obtain ⟨b, hb⟩ := exists_binding_of_owner? howner
    exact .inr ⟨owner, b, rfl, hb, by simp only [assignment, howner, hb]⟩

end State

/-- What a host does with a scope. -/
inductive ScopeAct
  | enter (kind : ScopeKind)
  | clone
  | declare (name : String) (value : Value) (constant : Bool)
  | assign (name : String) (value : Value) (line : Nat)

/-- A host knows scopes by their handles. These are counted as they are handed out. -/
inductive Request
  | root
  | via (handle : Nat) (act : ScopeAct)

structure Forest where
  state : State
  handles : Array ScopeId

namespace Forest

def scope? (f : Forest) (handle : Nat) : Option ScopeId :=
  f.handles[handle]?

/-- Hands out a handle for a scope. -/
def grant (f : Forest) (made : ScopeId × State) : Forest :=
  ⟨made.2, f.handles.push made.1⟩

def act (f : Forest) (scope : ScopeId) : ScopeAct → Forest
  | .enter kind => f.grant (f.state.enter kind scope)
  | .clone => f.grant (scope, f.state)
  | .declare name value constant => { f with state := f.state.declare scope name value constant }
  | .assign name value line =>
    match f.state.assignment scope name value line with
    | .ok w => { f with state := f.state.write w }
    | .error _ => f

/-- A handle that has not been handed out is good for nothing. -/
def serve (f : Forest) : Request → Forest
  | .root => f.grant f.state.newRoot
  | .via handle act =>
    match f.scope? handle with
    | some scope => f.act scope act
    | none => f

/-- What the requests, of which the latest comes first, have made of nothing. -/
def after : List Request → Forest
  | [] => ⟨State.initial State.defaultMaxDepth, #[]⟩
  | r :: past => (after past).serve r

/-! ### What the requests tell -/

/-- The latest request at which something happens, in view of those before it. -/
inductive Latest {α : Type} (happens : List Request → Request → α → Prop) : List Request → α → Prop
  | now {past : List Request} {r : Request} {a : α} (h : happens past r a) : Latest happens (r :: past) a
  | before {past : List Request} {r : Request} {a : α} (h : Latest happens past a)
      (hr : ∀ b, ¬happens past r b) : Latest happens (r :: past) a

/-- A scope has been made inside of a parent. -/
inductive Parent : List Request → ScopeId → ScopeId → Prop
  | made {past : List Request} {handle : Nat} {kind : ScopeKind} {parent : ScopeId}
      (h : (after past).scope? handle = some parent) :
      Parent (.via handle (.enter kind) :: past) ((after past).state.enter kind parent).1 parent
  | before {past : List Request} {r : Request} {scope parent : ScopeId} (h : Parent past scope parent) :
      Parent (r :: past) scope parent

/-- The request declares the name in the very scope. -/
def Declares (scope : ScopeId) (name : String) (past : List Request) (r : Request) (value : Value)
    (constant : Bool) : Prop :=
  ∃ handle, (after past).scope? handle = some scope ∧ r = .via handle (.declare name value constant)

/-- The last declaration of the name in the very scope makes it a constant, or not. -/
def LastDeclared (scope : ScopeId) (name : String) : List Request → Bool → Prop :=
  Latest fun past r constant => ∃ value, Declares scope name past r value constant

/-- The nearest scope from the inner one outward that has declared the name. -/
inductive Nearest (past : List Request) (name : String) : (inner owner : ScopeId) → Prop
  | here {scope : ScopeId} (h : ∃ constant, LastDeclared scope name past constant) :
      Nearest past name scope scope
  | outward {scope parent owner : ScopeId} (h : ¬∃ constant, LastDeclared scope name past constant)
      (hparent : Parent past scope parent) (howner : Nearest past name parent owner) :
      Nearest past name scope owner

/-- The request assigns to the name, which leads to the scope and is not constant there. -/
def Assigns (scope : ScopeId) (name : String) (past : List Request) (r : Request) (value : Value) : Prop :=
  ∃ handle line inner, (after past).scope? handle = some inner ∧ Nearest past name inner scope ∧
    LastDeclared scope name past false ∧ r = .via handle (.assign name value line)

/-- The value stored last under the name in the very scope. -/
def LastStored (scope : ScopeId) (name : String) : List Request → Value → Prop :=
  Latest fun past r value =>
    (∃ constant, Declares scope name past r value constant) ∨ Assigns scope name past r value

theorem Assigns.declared {scope : ScopeId} {name : String} {past : List Request} {r : Request} {value : Value}
    (h : Assigns scope name past r value) : LastDeclared scope name past false := by
  obtain ⟨_, _, _, -, -, h, -⟩ := h
  exact h

theorem latest_cons {α : Type} {happens : List Request → Request → α → Prop} {past : List Request}
    {r : Request} {a : α} :
    Latest happens (r :: past) a ↔ happens past r a ∨ Latest happens past a ∧ ∀ b, ¬happens past r b := by
  constructor
  · rintro (h | ⟨h, hr⟩)
    · exact .inl h
    · exact .inr ⟨h, hr⟩
  · rintro (h | ⟨h, hr⟩)
    · exact .now h
    · exact .before h hr

variable {past : List Request} {r : Request} {scope parent inner owner : ScopeId} {name : String}
  {value : Value} {constant : Bool}

theorem Latest.unique {α : Type} {happens : List Request → Request → α → Prop} {a b : α}
    (hunique : ∀ past r a b, happens past r a → happens past r b → a = b)
    (ha : Latest happens past a) (hb : Latest happens past b) : a = b := by
  induction ha with
  | @now past r a h =>
    cases hb with
    | now h' => exact hunique _ _ _ _ h h'
    | before _ hr => exact absurd h (hr a)
  | before _ hr ih =>
    cases hb with
    | now h' => exact absurd h' (hr b)
    | before hb _ => exact ih hb

theorem LastDeclared.unique {constant' : Bool} (h : LastDeclared scope name past constant)
    (h' : LastDeclared scope name past constant') : constant = constant' := by
  refine Latest.unique (fun past r a b ha hb => ?_) h h'
  obtain ⟨v, handle, -, rfl⟩ := ha
  obtain ⟨w, handle', -, heq⟩ := hb
  cases heq
  rfl

theorem LastDeclared.exists_lastStored (h : LastDeclared scope name past constant) :
    ∃ value, LastStored scope name past value := by
  induction h with
  | @now past r constant h =>
    obtain ⟨value, h⟩ := h
    exact ⟨value, .now (.inl ⟨constant, h⟩)⟩
  | @before past r _ _ _ ih =>
    obtain ⟨value, ih⟩ := ih
    by_cases hr : ∃ w, (∃ constant, Declares scope name past r w constant) ∨ Assigns scope name past r w
    · obtain ⟨w, hr⟩ := hr
      exact ⟨w, .now hr⟩
    · exact ⟨value, .before ih fun w hw => hr ⟨w, hw⟩⟩

/-! ### What a request does to a binding -/

/-- The request binds the name in the scope so. -/
def Binds (scope : ScopeId) (name : String) (past : List Request) (r : Request) (b : Binding) : Prop :=
  Declares scope name past r b.value b.constant ∨ Assigns scope name past r b.value ∧ b.constant = false

theorem Declares.unique {value' : Value} {constant' : Bool} (h : Declares scope name past r value constant)
    (h' : Declares scope name past r value' constant') : value = value' ∧ constant = constant' := by
  obtain ⟨handle, -, rfl⟩ := h
  obtain ⟨handle', -, heq⟩ := h'
  cases heq
  exact ⟨rfl, rfl⟩

theorem Declares.not_assigns {value' : Value} (h : Declares scope name past r value constant) :
    ¬Assigns scope name past r value' := by
  obtain ⟨handle, -, rfl⟩ := h
  rintro ⟨_, _, _, -, -, -, heq⟩
  cases heq

/-- What is told of a binding changes by the requests that bind the name, and by no others. -/
theorem told_cons {b : Binding} :
    LastStored scope name (r :: past) b.value ∧ LastDeclared scope name (r :: past) b.constant ↔
      Binds scope name past r b ∨
        (LastStored scope name past b.value ∧ LastDeclared scope name past b.constant) ∧
          ∀ b, ¬Binds scope name past r b := by
  rw [LastStored, LastDeclared, latest_cons, latest_cons, ← LastStored, ← LastDeclared]
  constructor
  · rintro ⟨(⟨k, hdeclares⟩ | hassigns) | ⟨hstored, hnone⟩, ⟨v, hdeclares'⟩ | ⟨hdeclared, hnone'⟩⟩
    · obtain ⟨rfl, -⟩ := hdeclares.unique hdeclares'
      exact .inl (.inl hdeclares')
    · exact absurd ⟨_, hdeclares⟩ (hnone' k)
    · exact absurd hassigns hdeclares'.not_assigns
    · exact .inl (.inr ⟨hassigns, hdeclared.unique hassigns.declared⟩)
    · exact absurd (.inl ⟨_, hdeclares'⟩) (hnone v)
    · refine .inr ⟨⟨hstored, hdeclared⟩, fun b hb => ?_⟩
      rcases hb with hb | ⟨hb, -⟩
      · exact hnone _ (.inl ⟨_, hb⟩)
      · exact hnone _ (.inr hb)
  · rintro ((hdeclares | ⟨hassigns, hconstant⟩) | ⟨⟨hstored, hdeclared⟩, hnone⟩)
    · exact ⟨.inl (.inl ⟨_, hdeclares⟩), .inl ⟨_, hdeclares⟩⟩
    · refine ⟨.inl (.inr hassigns), .inr ⟨hconstant ▸ hassigns.declared, ?_⟩⟩
      rintro k ⟨v, hdeclares⟩
      exact hdeclares.not_assigns hassigns
    · refine ⟨.inr ⟨hstored, ?_⟩, .inr ⟨hdeclared, ?_⟩⟩
      · rintro v (⟨k, hdeclares⟩ | hassigns)
        · exact hnone ⟨v, k⟩ (.inl hdeclares)
        · exact hnone ⟨v, false⟩ (.inr ⟨hassigns, rfl⟩)
      · rintro k ⟨v, hdeclares⟩
        exact hnone ⟨v, k⟩ (.inl hdeclares)

/-- The request makes a scope inside of the parent. -/
def Enters (past : List Request) (r : Request) (parent : ScopeId) : Prop :=
  ∃ handle kind, (after past).scope? handle = some parent ∧ r = .via handle (.enter kind)

theorem parent_cons : Parent (r :: past) scope parent ↔
    Enters past r parent ∧ scope = ⟨(after past).state.scopes.size⟩ ∨ Parent past scope parent := by
  constructor
  · intro h
    cases h with
    | made h => exact .inl ⟨⟨_, _, h, rfl⟩, rfl⟩
    | before h => exact .inr h
  · rintro (⟨⟨handle, kind, h, rfl⟩, rfl⟩ | h)
    · exact .made h
    · exact .before h

end Forest

end ScriptLang
