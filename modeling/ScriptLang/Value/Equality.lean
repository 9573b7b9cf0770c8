import ScriptLang.State.Container

/-! Structural equality. Two containers that are being compared further out are taken as equal: any
real difference shows elsewhere. -/

namespace ScriptLang

/-- The values of two records under the same names, in the order of the first. There are none
unless the records have the same names. -/
def Record.matched? (a b : Record Value) : Option (List (Value × Value)) :=
  if a.size = b.size then a.entries.mapM fun entry => (b.get? entry.1).map (entry.2, ·) else none

/-- The parts of two containers that have to be equal. There are none if their shapes differ. -/
def Contents.matched? : Contents → Contents → Option (List (Value × Value))
  | elements a, elements b => if a.length = b.length then some (a.zip b) else none
  | properties a, properties b => a.matched? b
  | fields c a, fields d b => if c = d then a.matched? b else none
  | _, _ => none

namespace State

def containerPairs (s : State) : List (Container × Container) :=
  s.containers.flatMap fun c => s.containers.map (c, ·)

theorem mem_containerPairs {s : State} {c d : Container} (hc : c ∈ s.containers)
    (hd : d ∈ s.containers) : (c, d) ∈ s.containerPairs :=
  List.mem_flatMap.mpr ⟨c, hc, List.mem_map.mpr ⟨d, hd, rfl⟩⟩

/-- Equality of two values inside of the pairs of containers `path`. -/
def equalIn (s : State) (path : List (Container × Container)) (a b : Value) : Bool :=
  match a, b with
  | .null, .null => true
  | .bool a, .bool b => a == b
  | .number x, .number y => x == y
  | .string a, .string b => a == b
  | .function f, .function g => f.function.identity == g.function.identity
  | .native f, .native g => f.serial == g.serial
  | .classRef c, .classRef d => c == d
  | .enumeration e, .enumeration f => e.serial == f.serial
  | .member m, .member n => m.isSame n
  | .tagged m a, .tagged n b => m.isSame n && s.equalIn path a b
  | .container c, .container d =>
    if c = d then true
    else if _ : (c, d) ∈ path then true
    else
      match _ : s.contents? c, _ : s.contents? d with
      | some a, some b =>
        match a.matched? b with
        | some pairs => pairs.all fun pair => s.equalIn ((c, d) :: path) pair.1 pair.2
        | none => false
      | _, _ => false
  | _, _ => false
termination_by (unseen s.containerPairs path, sizeOf a)
decreasing_by
  · exact Prod.Lex.right _ (by simp only [Value.tagged.sizeOf_spec]; omega)
  · exact Prod.Lex.left _ _ (unseen_cons_lt (mem_containerPairs
      (mem_containers_of_contents? ‹_›) (mem_containers_of_contents? ‹_›)) ‹_›)

def equal (s : State) (a b : Value) : Bool :=
  s.equalIn [] a b

def equalRecords (s : State) (a b : Record Value) : Bool :=
  match a.matched? b with
  | some pairs => pairs.all fun pair => s.equal pair.1 pair.2
  | none => false

end State

end ScriptLang
