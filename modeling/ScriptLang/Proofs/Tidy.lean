import ScriptLang.Proofs.Session

/-! Tidy heaps. A name stands only once in a map of properties, an instance has the fields of its class and
no others, and an enum declares all of its members that are about. -/

namespace ScriptLang

/-- The members in the value, which may be tagged with one another, are declared by their enums. -/
def Value.MembersDeclared : Value → Prop
  | member m => m.Declared
  | tagged m payload => m.Declared ∧ payload.MembersDeclared
  | null | bool _ | number _ | string _ | container _ | function _ | native _ | classRef _
  | enumeration _ => True

/-- The value stands in some cell of the state. -/
inductive State.Holds (s : State) : Value → Prop
  | binding {i : Nat} {c : Scope} {entry : String × Binding} (hscope : s.scopes[i]? = some c)
      (h : entry ∈ c.bindings.entries) : Holds s entry.2.value
  | item {i : Nat} {items : Array Value} {v : Value} (harray : s.arrays[i]? = some items)
      (h : v ∈ items) : Holds s v
  | property {i : Nat} {r : Record Value} {entry : String × Value} (hobject : s.objects[i]? = some r)
      (h : entry ∈ r.entries) : Holds s entry.2
  | staticField {i : Nat} {c : Class} {entry : String × Value} (hclass : s.classes[i]? = some c)
      (h : entry ∈ c.staticFields.entries) : Holds s entry.2
  | field {i : Nat} {x : Instance} {entry : String × Value} (hinstance : s.instances[i]? = some x)
      (h : entry ∈ x.fields.entries) : Holds s entry.2

structure State.Tidy (s : State) : Prop where
  objects : ∀ (i : Nat) (r : Record Value), s.objects[i]? = some r → r.keys.Nodup
  staticFields : ∀ (i : Nat) (c : Class), s.classes[i]? = some c → c.staticFields.keys.Nodup
  fields : ∀ (i : Nat) (x : Instance), s.instances[i]? = some x →
    x.fields.keys.Nodup ∧ x.FieldsOf s.classes
  members : ∀ v, s.Holds v → v.MembersDeclared

/-- The value that an end carries along. -/
def Outcome.value? : Outcome → Option Value
  | .ok v | .error (.returned v) | .error (.raised (.thrown v _)) => some v
  | .error .broke | .error .continued | .error (.raised (.fault _)) => none

/-! ### Conforming to a tidy norm -/

section

variable {N : Norm} {n : Nat} (htidy : N.tidy)

include htidy

theorem Value.Conforms.membersDeclared {v : Value} (h : v.Conforms N n) : v.MembersDeclared := by
  induction v with
  | member m => exact h htidy
  | tagged m payload ih => exact ⟨h.1 htidy, ih h.2⟩
  | null | bool | number | string | container | function | native | classRef | enumeration => trivial

theorem Outcome.Conforms.membersDeclared {o : Outcome} {control : Bool} (h : o.Conforms N n control) :
    ∀ v ∈ o.value?, v.MembersDeclared := by
  intro v hv
  match o with
  | .ok u | .error (.returned u) | .error (.raised (.thrown u line)) =>
    obtain rfl : u = v := Option.mem_some.mp hv
    exact Value.Conforms.membersDeclared htidy h
  | .error .broke | .error .continued | .error (.raised (.fault f)) => cases hv

theorem State.Conforms.tidy {s : State} (h : s.Conforms N) : s.Tidy := by
  refine ⟨fun i r hr => (h.properties i r hr).distinct htidy,
    fun i c hc => (h.classes i c hc).staticFields.distinct htidy,
    fun i x hx => ⟨(h.fields i x hx).1.distinct htidy, (h.fields i x hx).2 htidy⟩, fun v hv => ?_⟩
  have hconforms : v.Conforms N s.classes.size := by
    cases hv with
    | binding hscope hmem => exact h.bindings _ _ hscope _ hmem
    | item harray hmem => exact h.items _ _ harray _ hmem
    | property hobject hmem => exact (h.properties _ _ hobject).values _ hmem
    | staticField hclass hmem => exact (h.classes _ _ hclass).staticFields.values _ hmem
    | field hinstance hmem => exact (h.fields _ _ hinstance).1.values _ hmem
  exact hconforms.membersDeclared htidy

end

/-- Whatever programs are run one after another, the heap is tidy in between and at every moment of every
run, and members of enums that tasks end with are declared. -/
theorem State.Session.heap_tidy {s : State} (h : s.Session fun _ => True) :
    s.Tidy ∧
    ∀ (scope : ScopeId) (source : Source), scope.index < s.scopes.size →
      s.permitsLoopControl scope = false →
      ∀ waiting running, Dialogue.Moment Eval.answer
          ((Eval.perform (.block scope (s.load source).1)).run.run (s.load source).2) waiting running →
        (Steps.state running).Tidy ∧
        ∀ o s', running = .answer (o, s') → ∀ v ∈ o.value?, v.MembersDeclared := by
  refine ⟨h.conforms.tidy trivial, fun scope source hscope hpermits waiting running hmoment => ?_⟩
  obtain ⟨hconforms, hends⟩ := (h.begins hscope hpermits trivial).moment hmoment
  refine ⟨hconforms.tidy trivial, fun o s' heq => ?_⟩
  obtain ⟨control, ho⟩ := hends o s' heq
  exact ho.membersDeclared trivial

/-- A class that repeats fields, and an object that repeats a property. -/
def repeating : Source :=
  [.declareClass (.mk "C" ["a", "b", "a"] [("x", .string "one" 1), ("x", .string "two" 1)] [] [] 1),
    .expression (.object [("k", .string "one" 2), ("k", .string "two" 2)] 2) 2]

/-- Once the program has run, nothing is repeated in the heap. -/
theorem repeating_tidy :
    let s := (State.initial 0).newGlobal.2
    ∃ o s', (Eval.perform (.block ⟨0⟩ (s.load repeating).1)).Ends (s.load repeating).2 o s' ∧ s'.Tidy := by
  intro s
  have hends : (Eval.perform (.block ⟨0⟩ (s.load repeating).1)).Ends (s.load repeating).2
      (.ok (.object ⟨0⟩)) _ :=
    ⟨20, rfl⟩
  have hs : s.Session fun _ => True := .global (.initial 0)
  have hmoments := hs.heap_tidy.2 ⟨0⟩ repeating (by decide) rfl
  exact ⟨_, _, hends, (hmoments _ _ hends.moment).1⟩

end ScriptLang
