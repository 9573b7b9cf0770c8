import ScriptLang.Proofs.Bisimulation
import ScriptLang.Proofs.Trail

/-! What storing a member changes. A store is refused before anything is written. One that is
permitted leaves all but its target alone, and in the target it changes one member. Arrays are
padded up to it, and behind the end of one the index is compared with a limit. -/

namespace ScriptLang

/-! ### Records and arrays -/

/-- The record `new` is `old` with `value` under `name`. A name that was not there comes last. -/
structure Record.Stored {α : Type} (old new : Record α) (name : String) (value : α) : Prop where
  value : new.get? name = some value
  others : ∀ other, other ≠ name → new.get? other = old.get? other
  keys : new.keys = if name ∈ old.keys then old.keys else old.keys ++ [name]

namespace Record

variable {α : Type} {r old new : Record α} {name : String} {value : α}

theorem stored_insert : r.Stored (r.insert name value) name value :=
  ⟨get?_insert_self, fun _ => get?_insert_of_ne, keys_insert⟩

theorem stored_update (h : name ∈ r.keys) : r.Stored (r.update name value) name value :=
  ⟨get?_update_self h, fun _ => get?_update_of_ne, by rw [keys_update, if_pos h]⟩

end Record

/-- The array `new` is `old` with `value` at `index`. What lies between them is null. -/
structure StoredAt (old new : Array Value) (index : Nat) (value : Value) : Prop where
  size : new.size = max old.size (index + 1)
  value : new[index]? = some value
  others : ∀ i < old.size, i ≠ index → new[i]? = old[i]?
  gap : ∀ i, old.size ≤ i → i < index → new[i]? = some .null

theorem State.storedAt_storeAt {items : Array Value} {index : Nat} {value : Value} :
    StoredAt items (storeAt items index value) index value := by
  unfold storeAt
  split
  · next hlt =>
    refine ⟨?_, ?_, fun i _ hne => ?_, fun i hle hgap => ?_⟩
    · rw [Array.size_setIfInBounds]
      omega
    · exact Array.getElem?_setIfInBounds_self_of_lt hlt
    · exact Array.getElem?_setIfInBounds_ne hne.symm
    · omega
  · next hlt =>
    have hsize : (items ++ Array.replicate (index - items.size) Value.null).size = index := by
      rw [Array.size_append, Array.size_replicate]
      omega
    refine ⟨?_, ?_, fun i hi hne => ?_, fun i hle hgap => ?_⟩
    · rw [Array.size_push, hsize]
      omega
    · rw [Array.getElem?_push, if_pos hsize.symm]
    · rw [Array.getElem?_push, if_neg (by omega), Array.getElem?_append_left hi]
    · rw [Array.getElem?_push, if_neg (by omega), Array.getElem?_append_right hle,
        Array.getElem?_replicate, if_pos (by omega)]

/-! ### Keys -/

/-- The values that mean the same as a key in every state. -/
def Value.IsScalar : Value → Prop
  | null | bool _ | number _ | string _ => True
  | _ => False

theorem State.keyName_eq {key : Value} (h : key.IsScalar) (s s' : State) :
    s.keyName key = s'.keyName key := by
  cases key with
  | null | bool | number | string => simp [keyName, display, displayIn]
  | _ => cases h

/-- The cell that a store to the value writes to. -/
def Value.cell? : Value → Option Cell
  | container c => some (.container c)
  | classRef id => some (.classRef id)
  | _ => none

namespace State

variable {s s' : State} {target key value : Value} {line : Nat} {w : Write}

theorem indexOf_eq_ok {index : Nat} (h : s.indexOf key line = .ok index) :
    ∃ x, key = .number x ∧ Number.index? x = some index := by
  unfold indexOf at h
  split at h
  · next x =>
    unfold indexOfNumber at h
    split at h
    · next hindex =>
      cases h
      exact ⟨x, rfl, hindex⟩
    · cases h
  · cases h

theorem indexOf_number {x : Float} {index : Nat} (h : Number.index? x = some index) :
    s.indexOf (.number x) line = .ok index := by
  rw [indexOf, indexOfNumber, h]

/-! ### Permitted stores -/

/-- The stores that are not refused, each with what it writes. -/
inductive Permits (s : State) (key value : Value) : Value → Write → Prop
  | item {id : ArrayId} {x : Float} {index : Nat} (hkey : key = .number x)
      (hindex : Number.index? x = some index)
      (hfits : index < (s.array id).size ∨ index < maxArrayLength) :
      Permits s key value (.array id) (.item id index value)
  | property {id : ObjectId} : Permits s key value (.object id) (.property id (s.keyName key) value)
  | field {id : InstanceId} (hname : s.keyName key ∈ (s.instanceOf id).fields.keys) :
      Permits s key value (.inst id) (.field id (s.keyName key) value)
  | staticField {id : ClassId} :
      Permits s key value (.classRef id) (.staticField id (s.keyName key) value)

theorem memberWrite_array {id : ArrayId} {index : Nat} (h : s.indexOf key line = .ok index) :
    s.memberWrite (.array id) key value line =
      if (s.array id).size ≤ index && maxArrayLength ≤ index then
        .error (.indexOutOfBounds index (s.array id).size line)
      else .ok (.item id index value) := by
  change (s.indexOf key line >>= fun _ => _) = _
  rw [h]
  rfl

theorem getMember_array {id : ArrayId} {index : Nat} {item : Value}
    (hindex : s.indexOf key line = .ok index) (hitem : (s.array id)[index]? = some item) :
    s.getMember (.array id) key line = .ok item := by
  simp only [getMember, bind, Except.bind, hindex, hitem]

theorem permits_of_memberWrite (h : s.memberWrite target key value line = .ok w) :
    s.Permits key value target w := by
  unfold memberWrite at h
  split at h
  · cases hindex : s.indexOf key line with
    | error fault =>
      rw [hindex] at h
      cases h
    | ok index =>
      obtain ⟨x, hkey, hx⟩ := indexOf_eq_ok hindex
      replace h := (memberWrite_array hindex).symm.trans h
      split at h
      · cases h
      · next hfits =>
        cases h
        simp only [Bool.and_eq_true, decide_eq_true_eq] at hfits
        exact .item hkey hx (by omega)
  · cases h
    exact .property
  · dsimp only at h
    split at h
    · next hname =>
      cases h
      exact .field (Record.get?_isSome_iff.mp hname)
    · cases h
  · cases h
    exact .staticField
  · cases h

/-! ### Cells behind an update -/

theorem getD_modify {α : Type} {xs : Array α} {f : α → α} {i : Nat} {a : α} (h : i < xs.size) :
    (xs.modify i f).getD i a = f (xs.getD i a) := by
  simp only [Array.getD_eq_getD_getElem?, Array.getElem?_modify, if_true,
    Array.getElem?_eq_getElem h, Option.map_some, Option.getD_some]

theorem getElem?_modify_of_ne {α : Type} {xs : Array α} {f : α → α} {i j : Nat} (h : i ≠ j) :
    (xs.modify i f)[j]? = xs[j]? := by
  rw [Array.getElem?_modify, if_neg h]

theorem forall_mem_modify {α : Type} {p : α → Prop} {xs : Array α} {f : α → α} (i : Nat)
    (h : ∀ a ∈ xs, p a) (hf : ∀ a, p a → p (f a)) : ∀ a ∈ xs.modify i f, p a := by
  intro a ha
  obtain ⟨j, hj⟩ := Array.mem_iff_getElem?.mp ha
  obtain hj | ⟨-, old, hold, rfl⟩ := mem_of_getElem?_modify hj
  · exact h a (Array.mem_of_getElem? hj)
  · exact hf old (h old (Array.mem_of_getElem? hold))

section Cells

variable {f : Array Value → Array Value} {g : Record Value → Record Value}

theorem array_updateArray {id : ArrayId} (h : id.index < s.arrays.size) :
    (s.updateArray id f).array id = f (s.array id) :=
  getD_modify h

theorem object_updateObject {id : ObjectId} (h : id.index < s.objects.size) :
    (s.updateObject id g).object id = g (s.object id) :=
  getD_modify h

theorem instanceOf_updateFields {id : InstanceId} (h : id.index < s.instances.size) :
    (s.updateFields id g).instanceOf id =
      { s.instanceOf id with fields := g (s.instanceOf id).fields } :=
  getD_modify h

theorem classOf_updateStaticFields {id : ClassId} (h : id.index < s.classes.size) :
    (s.updateStaticFields id g).classOf id =
      { s.classOf id with staticFields := g (s.classOf id).staticFields } :=
  getD_modify h

end Cells

/-- Nothing is different but the cell that `target` refers to. -/
structure SameBut (s : State) (target : Value) (s' : State) : Prop where
  arrays : ∀ id, target ≠ .array id → s'.arrays[id.index]? = s.arrays[id.index]?
  objects : ∀ id, target ≠ .object id → s'.objects[id.index]? = s.objects[id.index]?
  instances : ∀ id, target ≠ .inst id → s'.instances[id.index]? = s.instances[id.index]?
  classes : ∀ id, target ≠ .classRef id → s'.classes[id.index]? = s.classes[id.index]?
  rest :
    { s' with
      arrays := s.arrays, objects := s.objects, instances := s.instances, classes := s.classes } = s

namespace SameBut

variable {f : Array Value → Array Value} {g : Record Value → Record Value}

theorem updateArray {id : ArrayId} : s.SameBut (.array id) (s.updateArray id f) where
  arrays other hne := by
    have hindex : id.index ≠ other.index :=
      fun he => hne (congrArg (fun i => Value.array ⟨i⟩) he)
    exact getElem?_modify_of_ne hindex
  objects _ _ := rfl
  instances _ _ := rfl
  classes _ _ := rfl
  rest := rfl

theorem updateObject {id : ObjectId} : s.SameBut (.object id) (s.updateObject id g) where
  arrays _ _ := rfl
  objects other hne := by
    have hindex : id.index ≠ other.index :=
      fun he => hne (congrArg (fun i => Value.object ⟨i⟩) he)
    exact getElem?_modify_of_ne hindex
  instances _ _ := rfl
  classes _ _ := rfl
  rest := rfl

theorem updateFields {id : InstanceId} : s.SameBut (.inst id) (s.updateFields id g) where
  arrays _ _ := rfl
  objects _ _ := rfl
  instances other hne := by
    have hindex : id.index ≠ other.index :=
      fun he => hne (congrArg (fun i => Value.inst ⟨i⟩) he)
    exact getElem?_modify_of_ne hindex
  classes _ _ := rfl
  rest := rfl

theorem updateStaticFields {id : ClassId} :
    s.SameBut (.classRef id) (s.updateStaticFields id g) where
  arrays _ _ := rfl
  objects _ _ := rfl
  instances _ _ := rfl
  classes other hne := by
    have hindex : id.index ≠ other.index :=
      fun he => hne (congrArg (fun i => Value.classRef ⟨i⟩) he)
    exact getElem?_modify_of_ne hindex
  rest := rfl

end SameBut

/-- How the cell of the target itself has changed. -/
inductive Stored (s s' : State) (key value : Value) : Value → Prop
  | array {id : ArrayId} {x : Float} {index : Nat} (hkey : key = .number x)
      (hindex : Number.index? x = some index)
      (h : StoredAt (s.array id) (s'.array id) index value) : Stored s s' key value (.array id)
  | object {id : ObjectId} (h : (s.object id).Stored (s'.object id) (s.keyName key) value) :
      Stored s s' key value (.object id)
  | inst {id : InstanceId} (hclass : (s'.instanceOf id).classId = (s.instanceOf id).classId)
      (hkeys : (s'.instanceOf id).fields.keys = (s.instanceOf id).fields.keys)
      (h : (s.instanceOf id).fields.Stored (s'.instanceOf id).fields (s.keyName key) value) :
      Stored s s' key value (.inst id)
  | classRef {id : ClassId}
      (hrest : { s'.classOf id with staticFields := (s.classOf id).staticFields } = s.classOf id)
      (h : (s.classOf id).staticFields.Stored (s'.classOf id).staticFields (s.keyName key) value) :
      Stored s s' key value (.classRef id)

theorem Permits.stored (h : s.Permits key value target w)
    (hcell : ∀ cell ∈ target.cell?, cell.In s) : s.Stored (s.write w) key value target := by
  cases h with
  | @item id x index hkey hindex =>
    refine .array hkey hindex ?_
    rw [write, array_updateArray (hcell _ rfl)]
    exact storedAt_storeAt
  | property =>
    refine .object ?_
    rw [write, object_updateObject (hcell _ rfl)]
    exact Record.stored_insert
  | field hname =>
    have hinst := instanceOf_updateFields (g := (·.update (s.keyName key) value)) (hcell _ rfl)
    refine .inst ?_ ?_ ?_ <;> rw [write, hinst]
    · exact Record.keys_update
    · exact Record.stored_update hname
  | staticField =>
    have hclass := classOf_updateStaticFields (g := (·.insert (s.keyName key) value)) (hcell _ rfl)
    refine .classRef ?_ ?_ <;> rw [write, hclass]
    exact Record.stored_insert

theorem Permits.sameBut (h : s.Permits key value target w) : s.SameBut target (s.write w) := by
  cases h with
  | item => exact .updateArray
  | property => exact .updateObject
  | field =>
    rw [write]
    exact .updateFields
  | staticField =>
    rw [write]
    exact .updateStaticFields

theorem Permits.distinctKeys (h : s.Permits key value target w) (hs : s.DistinctKeys) :
    (s.write w).DistinctKeys := by
  cases h with
  | item => exact ⟨hs.objects, hs.instances, hs.classes⟩
  | @property id =>
    have hobjects := forall_mem_modify (f := (·.insert (s.keyName key) value)) id.index hs.objects
      fun _ hrecord => Record.nodup_keys_insert hrecord
    exact ⟨hobjects, hs.instances, hs.classes⟩
  | @field id =>
    have hinstances := forall_mem_modify
      (f := fun i => { i with fields := i.fields.update (s.keyName key) value }) id.index
      hs.instances fun _ hi => by rwa [Record.keys_update]
    exact ⟨hs.objects, hinstances, hs.classes⟩
  | @staticField id =>
    have hclasses := forall_mem_modify
      (f := fun c => { c with staticFields := c.staticFields.insert (s.keyName key) value })
      id.index hs.classes fun _ hc => Record.nodup_keys_insert hc
    exact ⟨hs.objects, hs.instances, hclasses⟩

theorem Stored.getMember (h : s.Stored s' key value target) (hkey : key.IsScalar) (line : Nat) :
    s'.getMember target key line = .ok value := by
  cases h with
  | array hnumber hindex h =>
    subst hnumber
    exact getMember_array (indexOf_number hindex) h.value
  | object h =>
    rw [keyName_eq hkey s s'] at h
    show Except.ok _ = _
    rw [h.value, Option.getD_some]
  | inst _ _ h =>
    rw [keyName_eq hkey s s'] at h
    show s'.required _ _ _ _ = _
    rw [h.value, Option.some_or, required]
  | classRef _ h =>
    rw [keyName_eq hkey s s'] at h
    show s'.required _ _ _ _ = _
    rw [h.value, Option.some_or, required]

/-! ### Stores -/

theorem run_get_bind {α : Type} (f : State → Eval α) :
    (get >>= f).run.run s = (f s).run.run s :=
  rfl

theorem run_inspect {α : Type} (find : State → Except Fault α) :
    (Eval.inspect find).run.run s =
      .answer ((find s).mapError fun fault => .raised (.fault fault), s) := by
  rw [Eval.inspect, run_get_bind]
  cases find s with
  | ok => rfl
  | error => rfl

/-- What a running program comes to that stores a member, and the state that it leaves. -/
def Stores (s : State) (target key value : Value) (line : Nat) (result : Except Fault Unit)
    (s' : State) : Prop :=
  (Eval.write (·.memberWrite target key value line)).run.run s =
    .answer (result.mapError fun fault => .raised (.fault fault), s')

theorem stores_of_ok (h : s.memberWrite target key value line = .ok w) :
    s.Stores target key value line (.ok ()) (s.write w) := by
  change ((Eval.inspect (·.memberWrite target key value line)).run.run s).bind _ = _
  rw [run_inspect, h]
  rfl

theorem stores_of_error {fault : Fault} (h : s.memberWrite target key value line = .error fault) :
    s.Stores target key value line (.error fault) s := by
  change ((Eval.inspect (·.memberWrite target key value line)).run.run s).bind _ = _
  rw [run_inspect, h]
  rfl

/-- A refused store changes nothing, and a permitted one changes one member. -/
theorem exists_stores (hs : s.DistinctKeys) (hcell : ∀ cell ∈ target.cell?, cell.In s)
    (hkey : key.IsScalar) (value : Value) (line : Nat) :
    ∃ result s', s.Stores target key value line result s' ∧
      (∀ fault, result = .error fault → s' = s) ∧
      (result = .ok () → (∀ line, s'.getMember target key line = .ok value) ∧
        s.Stored s' key value target ∧ s.SameBut target s' ∧ s'.DistinctKeys) := by
  cases h : s.memberWrite target key value line with
  | error fault => exact ⟨_, _, stores_of_error h, fun _ _ => rfl, nofun⟩
  | ok w =>
    have hpermits := permits_of_memberWrite h
    have hstored := hpermits.stored hcell
    exact ⟨_, _, stores_of_ok h, nofun, fun _ =>
      ⟨hstored.getMember hkey, hstored, hpermits.sameBut, hpermits.distinctKeys hs⟩⟩

/-- A name that the object lacks comes behind the two that it has. -/
theorem exists_stores_third_name :
    let s : State := { initial 8 with objects := #[⟨[("a", .null), ("b", .bool true)]⟩] }
    s.DistinctKeys ∧ ∃ s', s.Stores (.object ⟨0⟩) (.string "c") .null 1 (.ok ()) s' ∧
      (s'.object ⟨0⟩).keys = ["a", "b", "c"] := by
  intro s
  have hs : s.DistinctKeys := ⟨by simp [s, Record.keys], by simp [s, initial], by simp [s, initial]⟩
  have hcell : ∀ cell ∈ (Value.object ⟨0⟩).cell?, cell.In s := by
    rintro _ ⟨⟩
    exact Nat.zero_lt_one
  have hscalar : (Value.string "c").IsScalar := trivial
  obtain ⟨result, s', hstores, -, hok⟩ := exists_stores hs hcell hscalar .null 1
  have hsame := Dialogue.answer.inj (hstores.symm.trans (stores_of_ok rfl))
  have hresult : result = .ok () := by
    cases result with
    | ok => rfl
    | error => cases hsame
  obtain ⟨-, hstored, -⟩ := hok hresult
  cases hstored with
  | object h => exact ⟨hs, s', hresult ▸ hstores, h.keys⟩

/-! ### The limit of arrays -/

section Limit

variable {id : ArrayId} {x : Float} {index : Nat}

theorem stores_beyond (hindex : Number.index? x = some index) (hsize : (s.array id).size ≤ index)
    (hlimit : maxArrayLength ≤ index) :
    s.Stores (.array id) (.number x) value line
      (.error (.indexOutOfBounds index (s.array id).size line)) s := by
  have hwrite : s.memberWrite (.array id) (.number x) value line = _ :=
    memberWrite_array (indexOf_number hindex)
  rw [if_pos (by simp [hsize, hlimit])] at hwrite
  exact stores_of_error hwrite

theorem stores_within (hid : id.index < s.arrays.size) (hindex : Number.index? x = some index)
    (hlimit : index < maxArrayLength) :
    ∃ s', s.Stores (.array id) (.number x) value line (.ok ()) s' ∧
      (s'.array id).size = max (s.array id).size (index + 1) := by
  have hwrite : s.memberWrite (.array id) (.number x) value line = _ :=
    memberWrite_array (indexOf_number hindex)
  rw [if_neg (by simp [hlimit])] at hwrite
  refine ⟨_, stores_of_ok hwrite, ?_⟩
  rw [write, array_updateArray hid]
  exact storedAt_storeAt.size

/-- The array stays shorter than the limit. A store that would make it as long is refused, and no
other is. -/
structure KeepsLimit (s : State) (id : ArrayId) (index line : Nat) (result : Except Fault Unit)
    (s' : State) : Prop where
  size_lt : (s'.array id).size < maxArrayLength
  refused : maxArrayLength ≤ max (s.array id).size (index + 1) →
    result = .error (.indexOutOfBounds index (s.array id).size line) ∧ s' = s
  permitted : max (s.array id).size (index + 1) < maxArrayLength → result = .ok ()

/-- The index is compared with the limit, and it is one less than the length that the store makes. -/
theorem exists_stores_array (value : Value) (line : Nat) (hid : id.index < s.arrays.size)
    (hsize : (s.array id).size < maxArrayLength) (hindex : Number.index? x = some index) :
    ∃ result s', s.Stores (.array id) (.number x) value line result s' ∧
      (s'.array id).size ≤ maxArrayLength ∧
      (s.KeepsLimit id index line result s' ↔ index + 1 ≠ maxArrayLength) := by
  rcases Nat.lt_or_ge index maxArrayLength with hlt | hle
  · obtain ⟨s', hstores, hlength⟩ := stores_within hid hindex hlt
    refine ⟨_, s', hstores, by omega, fun hkeeps => ?_, fun hne => ?_⟩
    · have hlt' := hkeeps.size_lt
      omega
    · exact ⟨by omega, fun _ => by omega, fun _ => rfl⟩
  · have hstores : s.Stores (.array id) (.number x) value line _ s :=
      stores_beyond hindex (by omega) hle
    refine ⟨_, s, hstores, by omega, fun _ => by omega, fun _ => ?_⟩
    exact ⟨hsize, fun _ => ⟨rfl, rfl⟩, fun _ => by omega⟩

theorem exists_stores_array_three :
    let s : State := { initial 8 with arrays := #[#[.null]] }
    Number.index? 3 = some 3 ∧ ∃ result s', s.Stores (.array ⟨0⟩) (.number 3) .null 1 result s' ∧
      s.KeepsLimit ⟨0⟩ 3 1 result s' := by
  intro s
  have hindex : Number.index? 3 = some 3 := by decide +kernel
  have hid : (ArrayId.mk 0).index < s.arrays.size := Nat.zero_lt_one
  have hsize : (s.array ⟨0⟩).size < maxArrayLength := by decide
  obtain ⟨result, s', hstores, -, hkeeps⟩ := exists_stores_array .null 1 hid hsize hindex
  exact ⟨hindex, result, s', hstores, hkeeps.mpr (by decide)⟩

/-- With an item at the index 16777215 an array has as many as the limit. -/
theorem not_keepsLimit :
    let s : State := { initial 8 with arrays := #[#[]] }
    Number.index? 16777215 = some 16777215 ∧
      ∃ s', s.Stores (.array ⟨0⟩) (.number 16777215) .null 1 (.ok ()) s' ∧
        ¬ s.KeepsLimit ⟨0⟩ 16777215 1 (.ok ()) s' := by
  intro s
  have hindex : Number.index? 16777215 = some 16777215 := by decide +kernel
  have hid : (ArrayId.mk 0).index < s.arrays.size := Nat.zero_lt_one
  obtain ⟨s', hstores, hlength⟩ : ∃ s', s.Stores (.array ⟨0⟩) (.number 16777215) .null 1 _ s' ∧ _ :=
    stores_within hid hindex (by decide)
  refine ⟨hindex, s', hstores, fun hkeeps => ?_⟩
  have hsize := hkeeps.size_lt
  rw [hlength] at hsize
  have hlimit : maxArrayLength ≤ max (s.array ⟨0⟩).size (16777215 + 1) := by decide
  omega

end Limit

end State

end ScriptLang
