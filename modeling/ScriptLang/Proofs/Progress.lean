import ScriptLang.Proofs.Norm
import ScriptLang.Proofs.Steady

/-! What every operation on the state and every evaluation keep: scopes and classes stay, a scope permits
loop control or not as it always did, calls are as deep as before, and the state conforms to the norm. -/

namespace ScriptLang

variable {N : Norm}

structure State.Progress (N : Norm) (s s' : State) : Prop where
  scopes_le : s.scopes.size ≤ s'.scopes.size
  permits_eq : ∀ id : ScopeId, id.index < s.scopes.size →
    s'.permitsLoopControl id = s.permitsLoopControl id
  classes_le : s.classes.size ≤ s'.classes.size
  depth_eq : s'.depth = s.depth
  conforms : s'.Conforms N

namespace State

variable {s s' s'' : State}

theorem Progress.trans (h : s.Progress N s') (h' : s'.Progress N s'') : s.Progress N s'' where
  scopes_le := Nat.le_trans h.scopes_le h'.scopes_le
  permits_eq id hid :=
    (h'.permits_eq id (Nat.lt_of_lt_of_le hid h.scopes_le)).trans (h.permits_eq id hid)
  classes_le := Nat.le_trans h.classes_le h'.classes_le
  depth_eq := h'.depth_eq.trans h.depth_eq
  conforms := h'.conforms

/-! ### Conforming -/

namespace Conforms

variable (h : s.Conforms N)

include h

theorem progress_refl : s.Progress N s :=
  ⟨Nat.le_refl _, fun _ _ => rfl, Nat.le_refl _, rfl, h⟩

theorem newScope {c : Scope}
    (hc : ∀ entry ∈ c.bindings.entries, entry.2.value.Conforms N s.classes.size) :
    (s.newScope c).2.Conforms N := by
  refine ⟨fun i c' hget => ?_, h.items, h.properties, h.classes, h.fields⟩
  rcases mem_of_getElem?_push hget with hget | rfl
  · exact h.bindings i c' hget
  · exact hc

theorem newArray {items : Array Value} (hitems : ∀ v ∈ items, v.Conforms N s.classes.size) :
    (s.newArray items).2.Conforms N := by
  refine ⟨h.bindings, fun i items' hget => ?_, h.properties, h.classes, h.fields⟩
  rcases mem_of_getElem?_push hget with hget | rfl
  · exact h.items i items' hget
  · exact hitems

theorem newObject {record : Record Value} (hrecord : record.Conforms N s.classes.size) :
    (s.newObject record).2.Conforms N := by
  refine ⟨h.bindings, h.items, fun i record' hget => ?_, h.classes, h.fields⟩
  rcases mem_of_getElem?_push hget with hget | rfl
  · exact h.properties i record' hget
  · exact hrecord

theorem newClass {c : Class} (hc : c.Conforms N s.classes.size) :
    (s.newClass c).2.Conforms N := by
  have hsize : (s.newClass c).2.classes.size = s.classes.size + 1 := Array.size_push _
  have hle : s.classes.size ≤ (s.newClass c).2.classes.size := hsize ▸ Nat.le_succ _
  -- All old cells conform with one more class as well; an instance still finds its class.
  refine ⟨fun i c' hget entry hentry => (h.bindings i c' hget entry hentry).mono hle,
    fun i items hget v hv => (h.items i items hget v hv).mono hle,
    fun i record hget => (h.properties i record hget).mono hle, fun i c' hget => ?_,
    fun i x hget => ⟨(h.fields i x hget).1.mono hle, fun htidy => ?_⟩⟩
  · rcases mem_of_getElem?_push hget with hget | rfl
    · exact (h.classes i c' hget).mono hle
    · exact hc.mono hle
  · obtain ⟨c', hclass, hkeys⟩ := (h.fields i x hget).2 htidy
    have hlt := (Array.getElem?_eq_some_iff.mp hclass).1
    exact ⟨c', (Array.getElem?_push_lt hlt).trans (Array.getElem?_eq_getElem hlt ▸ hclass), hkeys⟩

theorem newInstance {id : ClassId} (hid : N.tidy → id.index < s.classes.size) :
    (s.newInstance id).2.Conforms N := by
  refine ⟨h.bindings, h.items, h.properties, h.classes, fun i x hget => ?_⟩
  rcases mem_of_getElem?_push hget with hget | rfl
  · exact h.fields i x hget
  · have hvalues : ∀ pair ∈ (s.classOf id).fields.map fun name => (name, Value.null),
        pair.2.Conforms N s.classes.size := by
      intro pair hpair
      obtain ⟨name, -, rfl⟩ := List.mem_map.mp hpair
      trivial
    refine ⟨.ofList hvalues, fun htidy => ?_⟩
    have hclass : s.classes[id.index]? = some (s.classOf id) := by
      rw [State.classOf, Array.getD_eq_getD_getElem?, Array.getElem?_eq_getElem (hid htidy)]
      rfl
    exact ⟨s.classOf id, hclass, Record.keys_ofKeys⟩

theorem updateArray {id : ArrayId} {f : Array Value → Array Value}
    (hf : ∀ items, (∀ v ∈ items, v.Conforms N s.classes.size) →
      ∀ v ∈ f items, v.Conforms N s.classes.size) : (s.updateArray id f).Conforms N := by
  refine ⟨h.bindings, fun i items hget => ?_, h.properties, h.classes, h.fields⟩
  rcases mem_of_getElem?_modify hget with hget | ⟨-, old, hold, rfl⟩
  · exact h.items i items hget
  · exact hf old (h.items i old hold)

theorem updateObject {id : ObjectId} {f : Record Value → Record Value}
    (hf : ∀ r : Record Value, r.Conforms N s.classes.size → (f r).Conforms N s.classes.size) :
    (s.updateObject id f).Conforms N := by
  refine ⟨h.bindings, h.items, fun i record hget => ?_, h.classes, h.fields⟩
  rcases mem_of_getElem?_modify hget with hget | ⟨-, old, hold, rfl⟩
  · exact h.properties i record hget
  · exact hf old (h.properties i old hold)

theorem updateStaticFields {id : ClassId} {f : Record Value → Record Value}
    (hf : ∀ r : Record Value, r.Conforms N s.classes.size → (f r).Conforms N s.classes.size) :
    (s.updateStaticFields id f).Conforms N := by
  have hsize : (s.updateStaticFields id f).classes.size = s.classes.size := Array.size_modify
  refine ⟨hsize ▸ h.bindings, hsize ▸ h.items, hsize ▸ h.properties, fun i c hget => ?_,
    fun i x hget => ⟨hsize ▸ (h.fields i x hget).1, fun htidy => ?_⟩⟩
  · rw [hsize]
    rcases mem_of_getElem?_modify hget with hget | ⟨-, old, hold, rfl⟩
    · exact h.classes i c hget
    · have hclass := h.classes i old hold
      exact ⟨hf _ hclass.staticFields, hclass.methods, hclass.staticMethods⟩
  -- The names of the fields of instances are not touched.
  · obtain ⟨c, hclass, hkeys⟩ := (h.fields i x hget).2 htidy
    rw [Instance.FieldsOf, State.updateStaticFields]
    simp only [Array.getElem?_modify, hclass, Option.map_some]
    split
    · exact ⟨_, rfl, hkeys⟩
    · exact ⟨c, rfl, hkeys⟩

theorem updateFields {id : InstanceId} {name : String} {v : Value}
    (hv : v.Conforms N s.classes.size) : (s.updateFields id (·.update name v)).Conforms N := by
  refine ⟨h.bindings, h.items, h.properties, h.classes, fun i x hget => ?_⟩
  rcases mem_of_getElem?_modify hget with hget | ⟨-, old, hold, rfl⟩
  · exact h.fields i x hget
  · obtain ⟨hfields, hclass⟩ := h.fields i old hold
    refine ⟨hfields.update hv, fun htidy => ?_⟩
    obtain ⟨c, hc, hkeys⟩ := hclass htidy
    exact ⟨c, hc, Record.keys_update.trans hkeys⟩

theorem updateBindings {id : ScopeId} {f : Record Binding → Record Binding}
    (hf : ∀ r : Record Binding,
      (∀ entry ∈ r.entries, entry.2.value.Conforms N s.classes.size) →
        ∀ entry ∈ (f r).entries, entry.2.value.Conforms N s.classes.size) :
    (s.updateBindings id f).Conforms N := by
  refine ⟨fun i c hget => ?_, h.items, h.properties, h.classes, h.fields⟩
  rcases mem_of_getElem?_modify hget with hget | ⟨-, old, hold, rfl⟩
  · exact h.bindings i c hget
  · exact hf _ (h.bindings i old hold)

end Conforms

/-! ### Operations -/

theorem Progress.of_scopes_eq (hs : s'.Conforms N) (hscopes : s'.scopes = s.scopes)
    (hclasses : s.classes.size ≤ s'.classes.size) (hdepth : s'.depth = s.depth) :
    s.Progress N s' := by
  refine ⟨Nat.le_of_eq (congrArg Array.size hscopes.symm), fun id _ => ?_, hclasses, hdepth, hs⟩
  rw [permitsLoopControl, permitsLoopControl, scope, scope, hscopes]

namespace Conforms

variable (h : s.Conforms N)

include h

theorem progress_newArray {items : Array Value}
    (hitems : ∀ v ∈ items, v.Conforms N s.classes.size) :
    s.Progress N (s.newArray items).2 :=
  .of_scopes_eq (h.newArray hitems) rfl (Nat.le_refl _) rfl

theorem progress_newObject {record : Record Value} (hrecord : record.Conforms N s.classes.size) :
    s.Progress N (s.newObject record).2 :=
  .of_scopes_eq (h.newObject hrecord) rfl (Nat.le_refl _) rfl

theorem progress_newClass {c : Class} (hc : c.Conforms N s.classes.size) :
    s.Progress N (s.newClass c).2 := by
  refine .of_scopes_eq (h.newClass hc) rfl ?_ rfl
  rw [State.newClass, Array.size_push]
  exact Nat.le_succ _

theorem progress_newInstance {id : ClassId} (hid : N.tidy → id.index < s.classes.size) :
    s.Progress N (s.newInstance id).2 :=
  .of_scopes_eq (h.newInstance hid) rfl (Nat.le_refl _) rfl

theorem progress_newSerial : s.Progress N s.newSerial.2 :=
  .of_scopes_eq ⟨h.bindings, h.items, h.properties, h.classes, h.fields⟩ rfl (Nat.le_refl _) rfl

theorem progress_print {text : String} : s.Progress N (s.print text) :=
  .of_scopes_eq ⟨h.bindings, h.items, h.properties, h.classes, h.fields⟩ rfl (Nat.le_refl _) rfl

theorem progress_push {id : ArrayId} {item : Value} (hitem : item.Conforms N s.classes.size) :
    s.Progress N (s.updateArray id (·.push item)) := by
  refine .of_scopes_eq (h.updateArray fun items hitems v hv => ?_) rfl (Nat.le_refl _) rfl
  rcases Array.mem_push.mp hv with hv | rfl
  · exact hitems v hv
  · exact hitem

theorem progress_updateBindings {id : ScopeId} {f : Record Binding → Record Binding}
    (hf : ∀ r : Record Binding,
      (∀ entry ∈ r.entries, entry.2.value.Conforms N s.classes.size) →
        ∀ entry ∈ (f r).entries, entry.2.value.Conforms N s.classes.size) :
    s.Progress N (s.updateBindings id f) where
  scopes_le := Nat.le_of_eq size_updateBindings.symm
  permits_eq _ _ := permitsLoopControl_updateBindings
  classes_le := Nat.le_refl _
  depth_eq := rfl
  conforms := h.updateBindings hf

theorem progress_declare {id : ScopeId} {name : String} {v : Value} {constant : Bool}
    (hv : v.Conforms N s.classes.size) : s.Progress N (s.declare id name v constant) := by
  refine h.progress_updateBindings fun r hr entry hentry => ?_
  rcases Record.mem_insert hentry with hentry | rfl
  · exact hr entry hentry
  · exact hv

theorem progress_write {w : Write} (hw : w.value.Conforms N s.classes.size) :
    s.Progress N (s.write w) := by
  cases w with
  | binding id name v =>
    show s.Progress N (s.updateBindings id (·.update name ⟨v, false⟩))
    refine h.progress_updateBindings fun r hr entry hentry => ?_
    rcases Record.mem_update hentry with hentry | rfl
    · exact hr entry hentry
    · exact hw
  | item id index v =>
    refine .of_scopes_eq (h.updateArray fun items hitems u hu => ?_) rfl (Nat.le_refl _) rfl
    rcases mem_storeAt hu with hu | rfl | rfl
    · exact hitems u hu
    · trivial
    · exact hw
  | property id name v =>
    exact .of_scopes_eq (h.updateObject fun r hr => hr.insert hw) rfl (Nat.le_refl _) rfl
  | field id name v => exact .of_scopes_eq (h.updateFields hw) rfl (Nat.le_refl _) rfl
  | staticField id name v =>
    have hsize : (s.write (.staticField id name v)).classes.size = s.classes.size :=
      Array.size_modify
    exact .of_scopes_eq (h.updateStaticFields fun r hr => hr.insert hw) rfl
      (Nat.le_of_eq hsize.symm) rfl

theorem progress_enter {kind : ScopeKind} {parent : ScopeId} :
    s.Progress N (s.enter kind parent).2 where
  scopes_le := size_enter ▸ Nat.le_succ _
  permits_eq _ hid := congrArg Scope.permitsLoopControl (scope_newScope_of_lt hid)
  classes_le := Nat.le_refl _
  depth_eq := rfl
  conforms := h.newScope fun _ => nofun

theorem deeper : s.deeper.Conforms N :=
  ⟨h.bindings, h.items, h.properties, h.classes, h.fields⟩

theorem shallower : s.shallower.Conforms N :=
  ⟨h.bindings, h.items, h.properties, h.classes, h.fields⟩

theorem progress_bindReceiver {scope : ScopeId} {receiver : Option Receiver}
    (hreceiver : ∀ r ∈ receiver, r.Conforms N s.classes.size) :
    s.Progress N (s.bindReceiver scope receiver) := by
  cases receiver with
  | none => exact h.progress_refl
  | some receiver => exact h.progress_declare (Receiver.value_conforms.mpr (hreceiver receiver rfl))

theorem progress_bindArguments {f : Closure} {scope : ScopeId} {arguments : List Value}
    (hf : f.Conforms N s.classes.size) (harguments : ∀ v ∈ arguments, v.Conforms N s.classes.size) :
    s.Progress N (s.bindArguments scope f arguments) := by
  refine bindArguments_induction (h.progress_bindReceiver hf.receiver) fun s' name v hv hs' => ?_
  exact hs'.trans (hs'.conforms.progress_declare ((harguments v hv).mono hs'.classes_le))

end Conforms

end State

/-! ### Natives -/

def RuntimeError.Conforms (N : Norm) (n : Nat) : RuntimeError → Prop
  | thrown value _ => value.Conforms N n
  | fault f => f.Conforms N

theorem RuntimeError.Conforms.mono {n n' : Nat} {error : RuntimeError} (hn : n ≤ n')
    (h : error.Conforms N n) : error.Conforms N n' := by
  cases error with
  | thrown value line => exact Value.Conforms.mono hn h
  | fault f => exact h

def Returns.Conforms (N : Norm) (n : Nat) : Except RuntimeError Value → Prop
  | .ok value => value.Conforms N n
  | .error error => error.Conforms N n

namespace Native

variable {s : State} {name : String} {v : Value} {n : Nat}

theorem len_conforms : Returns.Conforms N n (len s name v) := by
  unfold len
  split
  · trivial
  · split <;> trivial

theorem assert_conforms : Returns.Conforms N n (assert s name v) := by
  unfold assert
  split <;> trivial

theorem sum_conforms {total : Float} {values : List Value} :
    Returns.Conforms N n (sum name total values) := by
  fun_induction sum name total values with
  | case2 total x rest ih => exact ih
  | _ => trivial

theorem call_progress {f : Native} {arguments : List Value} {scope : ScopeId}
    (hs : s.Conforms N) (harguments : ∀ v ∈ arguments, v.Conforms N s.classes.size) :
    s.Progress N (f.call s arguments scope).2 ∧
      Returns.Conforms N (f.call s arguments scope).2.classes.size (f.call s arguments scope).1 := by
  have hfirst : (arguments.headD .null).Conforms N s.classes.size := by
    cases arguments with
    | nil => trivial
    | cons v rest => exact harguments v List.mem_cons_self
  obtain ⟨serial, name, builtin⟩ := f
  cases builtin with
  | print => exact ⟨hs.progress_print, trivial⟩
  | len =>
    rcases arguments with _ | ⟨v, _ | ⟨w, rest⟩⟩
    · exact ⟨hs.progress_refl, trivial⟩
    · exact ⟨hs.progress_refl, len_conforms⟩
    · exact ⟨hs.progress_refl, trivial⟩
  | push =>
    rcases arguments with _ | ⟨target, _ | ⟨item, _ | ⟨w, rest⟩⟩⟩
    · exact ⟨hs.progress_refl, trivial⟩
    · exact ⟨hs.progress_refl, trivial⟩
    · change s.Progress N (push s name target item).2 ∧
        Returns.Conforms N (push s name target item).2.classes.size (push s name target item).1
      unfold push
      split
      · exact ⟨hs.progress_push (harguments item (by simp)), harguments _ (by simp)⟩
      · exact ⟨hs.progress_refl, trivial⟩
    · exact ⟨hs.progress_refl, trivial⟩
  | typeof | str => rcases arguments with _ | ⟨v, _ | ⟨w, rest⟩⟩ <;> exact ⟨hs.progress_refl, trivial⟩
  | assert =>
    rcases arguments with _ | ⟨v, _ | ⟨w, rest⟩⟩
    · exact ⟨hs.progress_refl, trivial⟩
    · exact ⟨hs.progress_refl, assert_conforms⟩
    · exact ⟨hs.progress_refl, trivial⟩
  | sum => exact ⟨hs.progress_refl, sum_conforms⟩
  | lookup =>
    refine ⟨hs.progress_refl, ?_⟩
    have hfound : Finds N (s.lookup scope (s.display (arguments.headD .null)) 0)
        (·.Conforms N s.classes.size) :=
      hs.lookup
    change Returns.Conforms N s.classes.size ((s.lookup scope _ 0).mapError .fault)
    cases hlookup : s.lookup scope (s.display (arguments.headD .null)) 0 <;>
      rw [hlookup] at hfound <;> exact hfound
  | declare =>
    have hvalue : ((arguments.drop 1).headD .null).Conforms N s.classes.size := by
      rcases arguments with _ | ⟨v, _ | ⟨w, rest⟩⟩
      · trivial
      · trivial
      · exact harguments w (by simp)
    exact ⟨hs.progress_declare hvalue, hvalue⟩
  | inLoop | scope => exact ⟨hs.progress_refl, trivial⟩
  | collect => exact ⟨hs.progress_newArray (by simpa using harguments), trivial⟩
  | throw => exact ⟨hs.progress_refl, hfirst⟩

end Native

end ScriptLang
