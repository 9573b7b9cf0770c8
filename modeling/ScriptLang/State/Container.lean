import ScriptLang.State

/-! What containers hold, and how many of finitely many things have not been seen. The latter is
what walks through cyclic values make smaller. -/

namespace ScriptLang

inductive Contents
  | elements (items : List Value)
  | properties (record : Record Value)
  | fields (id : ClassId) (record : Record Value)

namespace State

def contents? (s : State) : Container → Option Contents
  | .array id => s.arrays[id.index]?.map fun items => .elements items.toList
  | .object id => s.objects[id.index]?.map .properties
  | .inst id => s.instances[id.index]?.map fun i => .fields i.classId i.fields

def containers (s : State) : List Container :=
  (List.range s.arrays.size).map (.array ⟨·⟩) ++ (List.range s.objects.size).map (.object ⟨·⟩) ++
    (List.range s.instances.size).map (.inst ⟨·⟩)

theorem mem_containers_of_contents? {s : State} {c : Container} {contents : Contents}
    (h : s.contents? c = some contents) : c ∈ s.containers := by
  cases c with
  | array id =>
    obtain ⟨items, hitems, -⟩ := Option.map_eq_some_iff.mp h
    have bound := (Array.getElem?_eq_some_iff.mp hitems).1
    simp only [containers, List.mem_append, List.mem_map, List.mem_range]
    exact .inl (.inl ⟨_, bound, rfl⟩)
  | object id =>
    obtain ⟨record, hrecord, -⟩ := Option.map_eq_some_iff.mp h
    have bound := (Array.getElem?_eq_some_iff.mp hrecord).1
    simp only [containers, List.mem_append, List.mem_map, List.mem_range]
    exact .inl (.inr ⟨_, bound, rfl⟩)
  | inst id =>
    obtain ⟨i, hi, -⟩ := Option.map_eq_some_iff.mp h
    have bound := (Array.getElem?_eq_some_iff.mp hi).1
    simp only [containers, List.mem_append, List.mem_map, List.mem_range]
    exact .inr ⟨_, bound, rfl⟩

end State

variable {α : Type} [DecidableEq α]

def unseen (all seen : List α) : Nat :=
  (all.filter (· ∉ seen)).length

theorem unseen_cons_lt {all seen : List α} {a : α} (ha : a ∈ all) (hs : a ∉ seen) :
    unseen all (a :: seen) < unseen all seen := by
  have split : all.filter (· ∉ a :: seen) = (all.filter (· ∉ seen)).filter (· ≠ a) := by
    rw [List.filter_filter]
    congr 1
    funext b
    simp
  rw [unseen, split]
  exact List.length_filter_lt_length_iff_exists.mpr
    ⟨a, List.mem_filter.mpr ⟨ha, by simpa using hs⟩, by simp⟩

end ScriptLang
