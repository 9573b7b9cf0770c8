import Mathlib
import ScriptLang.Proofs.Bisimulation

/-! Maps of properties under edits. The edits that a map has seen tell all that it holds: its names stand in
the order in which they were first inserted, and each has the value that was stored under it last. An update
of a name that has not been inserted is void. -/

namespace ScriptLang

namespace Record

/-- Stores a value under a name. An insertion brings in a name that is not there, an update does not. -/
structure Edit where
  inserts : Bool
  name : String
  value : Value

def Edit.insert (name : String) (value : Value) : Edit :=
  ⟨true, name, value⟩

def edit (r : Record Value) (e : Edit) : Record Value :=
  if e.inserts then r.insert e.name e.value else r.update e.name e.value

/-- The map after the edits, one after the other. -/
def after (r : Record Value) (edits : List Edit) : Record Value :=
  edits.foldl edit r

/-- How a map starts out: with null under each name, or with the pairs of a list. -/
inductive Start
  | nullFields (names : List String)
  | collected (pairs : List (String × Value))

namespace Start

def record : Start → Record Value
  | nullFields names => .ofKeys names .null
  | collected pairs => .ofList pairs

/-- The insertions that a map starts out with. -/
def insertions : Start → List Edit
  | nullFields names => names.map (.insert · .null)
  | collected pairs => pairs.map fun pair => .insert pair.1 pair.2

end Start

/-! ### What the edits tell -/

/-- The names that are inserted, in turn. -/
def insertedNames (edits : List Edit) : List String :=
  (edits.filter Edit.inserts).map Edit.name

/-- The edits of the name from its first insertion on. -/
def storesOf (edits : List Edit) (name : String) : List Edit :=
  (edits.filter (·.name = name)).dropWhile (!·.inserts)

/-- What has been stored last under the name. -/
def lastStored? (edits : List Edit) (name : String) : Option Value :=
  (storesOf edits name).getLast?.map Edit.value

/-- The map is what the edits tell. -/
structure Reflects (r : Record Value) (edits : List Edit) : Prop where
  keys_eq : r.keys = (insertedNames edits).eraseDups
  distinct : r.keys.Nodup
  get?_eq : ∀ name, r.get? name = lastStored? edits name
  get?_eq_none_iff : ∀ name, r.get? name = none ↔ name ∉ insertedNames edits
  update_eq : ∀ name value, name ∉ insertedNames edits → r.update name value = r
  size_eq : r.size = (insertedNames edits).toFinset.card

variable {r : Record Value} {edits : List Edit} {e : Edit} {name : String} {value : Value}

theorem insertedNames_concat : insertedNames (edits ++ [e]) =
    if e.inserts then insertedNames edits ++ [e.name] else insertedNames edits := by
  cases h : e.inserts <;> simp [insertedNames, h]

theorem storesOf_concat_of_ne (h : e.name ≠ name) :
    storesOf (edits ++ [e]) name = storesOf edits name := by
  simp [storesOf, h]

theorem storesOf_concat_self : storesOf (edits ++ [e]) e.name =
    if e.inserts || !(storesOf edits e.name).isEmpty then storesOf edits e.name ++ [e] else [] := by
  have hself : [e].filter (·.name = e.name) = [e] := by simp
  rw [storesOf, List.filter_append, hself, List.dropWhile_append, ← storesOf]
  cases he : e.inserts <;> cases storesOf edits e.name <;> simp [he]

theorem lastStored?_isSome : (lastStored? edits name).isSome = !(storesOf edits name).isEmpty := by
  rw [lastStored?, Option.isSome_map, Bool.eq_iff_iff, List.getLast?_isSome]
  simp

theorem lastStored?_concat_of_ne (h : e.name ≠ name) :
    lastStored? (edits ++ [e]) name = lastStored? edits name := by
  rw [lastStored?, storesOf_concat_of_ne h, lastStored?]

/-- An edit stores its value, unless it updates a name that has not been inserted. -/
theorem lastStored?_concat_self : lastStored? (edits ++ [e]) e.name =
    if e.inserts || (lastStored? edits e.name).isSome then some e.value else none := by
  rw [lastStored?, storesOf_concat_self, lastStored?_isSome]
  split
  · rw [List.getLast?_concat, Option.map_some]
  · rfl

/-! ### Single edits -/

theorem update_of_notMem (h : name ∉ r.keys) : r.update name value = r := by
  obtain ⟨entries⟩ := r
  refine congrArg Record.mk ((List.map_congr_left fun entry hentry => if_neg ?_).trans (List.map_id _))
  rintro rfl
  exact h (List.mem_map_of_mem hentry)

theorem keys_edit : (r.edit e).keys = if e.inserts ∧ e.name ∉ r.keys then r.keys ++ [e.name] else r.keys := by
  cases he : e.inserts with
  | false => simp [edit, he]
  | true => by_cases hname : e.name ∈ r.keys <;> simp [edit, he, keys_insert, hname]

theorem nodup_keys_edit (h : r.keys.Nodup) : (r.edit e).keys.Nodup := by
  rw [edit]
  split
  · exact nodup_keys_insert h
  · rwa [keys_update]

theorem get?_edit_self : (r.edit e).get? e.name =
    if e.inserts || (r.get? e.name).isSome then some e.value else none := by
  cases he : e.inserts with
  | true => simp [edit, he, get?_insert_self]
  | false =>
    rw [edit, he, if_neg Bool.false_ne_true, Bool.false_or]
    by_cases hname : e.name ∈ r.keys
    · rw [get?_update_self hname, if_pos (get?_isSome_iff.mpr hname)]
    · have hnone : ¬(r.get? e.name).isSome := mt get?_isSome_iff.mp hname
      rw [update_of_notMem hname, if_neg hnone, Option.not_isSome_iff_eq_none.mp hnone]

theorem get?_edit_of_ne (h : e.name ≠ name) : (r.edit e).get? name = r.get? name := by
  rw [edit]
  split
  · exact get?_insert_of_ne h.symm
  · exact get?_update_of_ne h.symm

/-! ### All edits -/

theorem after_concat : r.after (edits ++ [e]) = (r.after edits).edit e := by
  rw [after, List.foldl_concat, ← after]

theorem keys_after : (empty.after edits).keys = (insertedNames edits).eraseDups := by
  induction edits using List.reverseRecOn with
  | nil => rfl
  | append_singleton edits e ih =>
    rw [after_concat, insertedNames_concat, keys_edit, ih]
    cases he : e.inserts with
    | false => simp
    | true => by_cases hname : e.name ∈ insertedNames edits <;>
        simp [List.eraseDups_append, List.removeAll, List.eraseDups_cons, hname]

theorem mem_keys_after : name ∈ (empty.after edits).keys ↔ name ∈ insertedNames edits := by
  rw [keys_after, List.mem_eraseDups]

theorem nodup_keys_after : (empty.after edits).keys.Nodup :=
  List.foldlRecOn (motive := fun r : Record Value => r.keys.Nodup) edits edit .nil
    fun _ h _ _ => nodup_keys_edit h

theorem get?_after : (empty.after edits).get? name = lastStored? edits name := by
  induction edits using List.reverseRecOn with
  | nil => rfl
  | append_singleton edits e ih =>
    rw [after_concat]
    by_cases hname : e.name = name
    · subst hname
      rw [get?_edit_self, lastStored?_concat_self, ih]
    · rw [get?_edit_of_ne hname, lastStored?_concat_of_ne hname, ih]

theorem reflects_after : (empty.after edits).Reflects edits where
  keys_eq := keys_after
  distinct := nodup_keys_after
  get?_eq _ := get?_after
  get?_eq_none_iff name := by
    rw [← mem_keys_after, ← get?_isSome_iff, Option.not_isSome_iff_eq_none]
  update_eq _ _ h := update_of_notMem (mt mem_keys_after.mp h)
  size_eq := by
    have hsame : (insertedNames edits).toFinset = (empty.after edits).keys.toFinset := by
      ext name
      rw [List.mem_toFinset, List.mem_toFinset, mem_keys_after]
    rw [hsame, List.toFinset_card_of_nodup nodup_keys_after, keys, List.length_map, size]

theorem Start.after_record (start : Start) (edits : List Edit) :
    start.record.after edits = empty.after (start.insertions ++ edits) := by
  have hstart : start.record = empty.after start.insertions := by
    cases start with
    | nullFields names =>
      rw [record, ofKeys, ofList, insertions, after, List.foldl_map, List.foldl_map]
      rfl
    | collected pairs =>
      rw [record, ofList, insertions, after, List.foldl_map]
      rfl
  rw [hstart, after, after, after, List.foldl_append]

end Record

theorem State.equalRecords_iff {s : State} {a b : Record Value} (ha : a.keys.Nodup) (hb : b.keys.Nodup) :
    s.equalRecords a b = true ↔ a.Related (fun x y => s.equal x y = true) b := by
  rw [Record.related_iff ha hb, equalRecords]
  cases a.matched? b <;> simp

open Record (insertedNames lastStored?) in
/-- However a map starts out and whatever edits follow, it is what all of them tell. Two maps are equal
exactly if the same names have been inserted in them, in any order, and what has been stored last under each
name is equal. -/
theorem Record.Start.edited (start : Record.Start) (edits : List Record.Edit) :
    (start.record.after edits).Reflects (start.insertions ++ edits) ∧
      ∀ (s : State) (other : Record.Start) (more : List Record.Edit),
        s.equalRecords (start.record.after edits) (other.record.after more) = true ↔
          (∀ name, name ∈ insertedNames (start.insertions ++ edits) ↔
            name ∈ insertedNames (other.insertions ++ more)) ∧
          ∀ name v w, lastStored? (start.insertions ++ edits) name = some v →
            lastStored? (other.insertions ++ more) name = some w → s.equal v w = true := by
  refine ⟨?_, fun s other more => ?_⟩
  · rw [start.after_record]
    exact reflects_after
  · rw [start.after_record, other.after_record, State.equalRecords_iff nodup_keys_after nodup_keys_after]
    simp only [Related, mem_keys_after, get?_after]

end ScriptLang
