import ScriptLang.Proofs.Domain

/-! What evaluating code in a scope can have done to the state. A trail lists the changes, with the
scopes and calls that were entered on the way as trails of their own; whatever no change breaks
holds of all that programs do. -/

namespace ScriptLang

variable {D : Domain}

namespace Write

def value : Write → Value
  | binding _ _ value | item _ _ value | property _ _ value | field _ _ value
  | staticField _ _ value => value

/-- What has been checked before the write: the binding is there and not constant, the item is
within bounds, the field is there. -/
def Allowed (s : State) : Write → Prop
  | binding id name _ => ∃ b, (s.scope id).bindings.get? name = some b ∧ b.constant = false
  | item id index _ => index < (s.array id).size ∨ index < maxArrayLength
  | field id name _ => (s.instanceOf id).fields.contains name
  | property .. | staticField .. => True

end Write

/-- A change that concerns the names of no scope, except for the values of bindings that are not
constant. -/
inductive Change (D : Domain) (s : State) : State → Prop
  | write {w : Write} (hallowed : w.Allowed s) (hw : w.value.Within D) : Change D s (s.write w)
  | array {items : Array Value} (hitems : ∀ v ∈ items, v.Within D) :
      Change D s (s.newArray items).2
  | object {record : Record Value} (hrecord : record.Within D) : Change D s (s.newObject record).2
  | classRef {c : Class} (hc : c.Within D) : Change D s (s.newClass c).2
  | inst {id : ClassId} (hid : D.cell (.classRef id)) : Change D s (s.newInstance id).2
  | serial : Change D s s.newSerial.2
  | print (text : String) : Change D s (s.print text)
  | push {id : ArrayId} {item : Value} (hitem : item.Within D) :
      Change D s (s.updateArray id (·.push item))

/-- From one state to another by evaluating code in `scope` that declares names only as `name`
permits. -/
inductive Trail (D : Domain) : ScopeId → (String → Prop) → State → State → Prop
  | refl {scope : ScopeId} {name : String → Prop} {s : State} : Trail D scope name s s
  | change {scope : ScopeId} {name : String → Prop} {s s' s'' : State}
      (h : Trail D scope name s s') (hchange : Change D s' s'') : Trail D scope name s s''
  | declare {scope : ScopeId} {name : String → Prop} {s s' : State} {x : String} {v : Value}
      {constant : Bool} (h : Trail D scope name s s') (hx : name x) (hv : v.Within D) :
      Trail D scope name s (s'.declare scope x v constant)
  | enter {scope : ScopeId} {name : String → Prop} {s s' s'' : State} (kind : ScopeKind)
      (h : Trail D scope name s s')
      (inner : Trail D (s'.enter kind scope).1 (fun _ => True) (s'.enter kind scope).2 s'') :
      Trail D scope name s s''
  | call {scope closure : ScopeId} {name : String → Prop} {s s' s'' : State}
      (h : Trail D scope name s s') (hclosure : D.cell (.scope closure))
      (hdepth : s'.depth < s'.maxDepth)
      (inner : Trail D (s'.deeper.enter .function closure).1 (fun _ => True)
        (s'.deeper.enter .function closure).2 s'') :
      Trail D scope name s s''.shallower

/-! ### Staying within a domain -/

theorem State.mem_storeAt {items : Array Value} {index : Nat} {u v : Value}
    (hu : u ∈ State.storeAt items index v) : u ∈ items ∨ u = .null ∨ u = v := by
  unfold State.storeAt at hu
  split at hu
  · exact (Array.mem_or_eq_of_mem_setIfInBounds hu).imp_right .inr
  · rcases Array.mem_push.mp hu with hu | rfl
    · exact (Array.mem_append.mp hu).imp_right fun hu => .inl (Array.eq_of_mem_replicate hu)
    · exact .inr (.inr rfl)

namespace State.Within

variable {s : State}

theorem newScope (h : s.Within D) {c : Scope} (hc : c.Within D) : (s.newScope c).2.Within D := by
  refine ⟨fun id c' hid hget => ?_, h.arrays, h.objects, h.classes, h.instances,
    fun cell hcell => h.fresh cell fun hin => hcell ?_⟩
  · rcases mem_of_getElem?_push hget with hget | rfl
    · exact h.scopes id c' hid hget
    · exact hc
  · match cell with
    | .scope id => exact Nat.lt_of_lt_of_le hin (by simp [State.newScope])
    | .classRef _ | .container (.array _) | .container (.object _) | .container (.inst _) => exact hin

theorem newArray (h : s.Within D) {items : Array Value} (hitems : ∀ v ∈ items, v.Within D) :
    (s.newArray items).2.Within D := by
  refine ⟨h.scopes, fun id items' hid hget => ?_, h.objects, h.classes, h.instances,
    fun cell hcell => h.fresh cell fun hin => hcell ?_⟩
  · rcases mem_of_getElem?_push hget with hget | rfl
    · exact h.arrays id items' hid hget
    · exact hitems
  · match cell with
    | .container (.array id) => exact Nat.lt_of_lt_of_le hin (by simp [State.newArray])
    | .scope _ | .classRef _ | .container (.object _) | .container (.inst _) => exact hin

theorem newObject (h : s.Within D) {record : Record Value} (hrecord : record.Within D) :
    (s.newObject record).2.Within D := by
  refine ⟨h.scopes, h.arrays, fun id record' hid hget => ?_, h.classes, h.instances,
    fun cell hcell => h.fresh cell fun hin => hcell ?_⟩
  · rcases mem_of_getElem?_push hget with hget | rfl
    · exact h.objects id record' hid hget
    · exact hrecord
  · match cell with
    | .container (.object id) => exact Nat.lt_of_lt_of_le hin (by simp [State.newObject])
    | .scope _ | .classRef _ | .container (.array _) | .container (.inst _) => exact hin

theorem newClass (h : s.Within D) {c : Class} (hc : c.Within D) : (s.newClass c).2.Within D := by
  refine ⟨h.scopes, h.arrays, h.objects, fun id c' hid hget => ?_, h.instances,
    fun cell hcell => h.fresh cell fun hin => hcell ?_⟩
  · rcases mem_of_getElem?_push hget with hget | rfl
    · exact h.classes id c' hid hget
    · exact hc
  · match cell with
    | .classRef id => exact Nat.lt_of_lt_of_le hin (by simp [State.newClass])
    | .scope _ | .container (.array _) | .container (.object _) | .container (.inst _) => exact hin

theorem newInstance (h : s.Within D) {id : ClassId} (hid : D.cell (.classRef id)) :
    (s.newInstance id).2.Within D := by
  refine ⟨h.scopes, h.arrays, h.objects, h.classes, fun id' i hid' hget => ?_,
    fun cell hcell => h.fresh cell fun hin => hcell ?_⟩
  · rcases mem_of_getElem?_push hget with hget | rfl
    · exact h.instances id' i hid' hget
    · refine ⟨hid, fun entry hentry => ?_⟩
      obtain ⟨name, -, rfl⟩ := List.mem_map.mp (Record.mem_ofList hentry)
      trivial
  · match cell with
    | .container (.inst id) => exact Nat.lt_of_lt_of_le hin (by simp [State.newInstance])
    | .scope _ | .classRef _ | .container (.array _) | .container (.object _) => exact hin

theorem updateArray (h : s.Within D) {id : ArrayId} {f : Array Value → Array Value}
    (hf : ∀ items, (∀ v ∈ items, v.Within D) → ∀ v ∈ f items, v.Within D) :
    (s.updateArray id f).Within D := by
  refine ⟨h.scopes, fun id' items hid hget => ?_, h.objects, h.classes, h.instances,
    fun cell hcell => h.fresh cell fun hin => hcell ?_⟩
  · rcases mem_of_getElem?_modify hget with hget | ⟨-, old, hold, rfl⟩
    · exact h.arrays id' items hid hget
    · exact hf old (h.arrays id' old hid hold)
  · match cell with
    | .container (.array id) => exact Nat.lt_of_lt_of_le hin (by simp [State.updateArray])
    | .scope _ | .classRef _ | .container (.object _) | .container (.inst _) => exact hin

theorem updateObject (h : s.Within D) {id : ObjectId} {f : Record Value → Record Value}
    (hf : ∀ record : Record Value, record.Within D → (f record).Within D) :
    (s.updateObject id f).Within D := by
  refine ⟨h.scopes, h.arrays, fun id' record hid hget => ?_, h.classes, h.instances,
    fun cell hcell => h.fresh cell fun hin => hcell ?_⟩
  · rcases mem_of_getElem?_modify hget with hget | ⟨-, old, hold, rfl⟩
    · exact h.objects id' record hid hget
    · exact hf old (h.objects id' old hid hold)
  · match cell with
    | .container (.object id) => exact Nat.lt_of_lt_of_le hin (by simp [State.updateObject])
    | .scope _ | .classRef _ | .container (.array _) | .container (.inst _) => exact hin

theorem updateStaticFields (h : s.Within D) {id : ClassId} {f : Record Value → Record Value}
    (hf : ∀ record : Record Value, record.Within D → (f record).Within D) :
    (s.updateStaticFields id f).Within D := by
  refine ⟨h.scopes, h.arrays, h.objects, fun id' c hid hget => ?_, h.instances,
    fun cell hcell => h.fresh cell fun hin => hcell ?_⟩
  · rcases mem_of_getElem?_modify hget with hget | ⟨-, old, hold, rfl⟩
    · exact h.classes id' c hid hget
    · have hwithin := h.classes id' old hid hold
      exact ⟨hf _ hwithin.staticFields, hwithin.methods, hwithin.staticMethods⟩
  · match cell with
    | .classRef id => exact Nat.lt_of_lt_of_le hin (by simp [State.updateStaticFields])
    | .scope _ | .container (.array _) | .container (.object _) | .container (.inst _) => exact hin

theorem updateFields (h : s.Within D) {id : InstanceId} {f : Record Value → Record Value}
    (hf : ∀ record : Record Value, record.Within D → (f record).Within D) :
    (s.updateFields id f).Within D := by
  refine ⟨h.scopes, h.arrays, h.objects, h.classes, fun id' i hid hget => ?_,
    fun cell hcell => h.fresh cell fun hin => hcell ?_⟩
  · rcases mem_of_getElem?_modify hget with hget | ⟨-, old, hold, rfl⟩
    · exact h.instances id' i hid hget
    · have hwithin := h.instances id' old hid hold
      exact ⟨hwithin.classId, hf _ hwithin.fields⟩
  · match cell with
    | .container (.inst id) => exact Nat.lt_of_lt_of_le hin (by simp [State.updateFields])
    | .scope _ | .classRef _ | .container (.array _) | .container (.object _) => exact hin

theorem updateBindings (h : s.Within D) {id : ScopeId} {f : Record Binding → Record Binding}
    (hf : ∀ record : Record Binding, (∀ entry ∈ record.entries, entry.2.value.Within D) →
      ∀ entry ∈ (f record).entries, entry.2.value.Within D) :
    (s.updateBindings id f).Within D := by
  refine ⟨fun id' c hid hget => ?_, h.arrays, h.objects, h.classes, h.instances,
    fun cell hcell => h.fresh cell fun hin => hcell ?_⟩
  · rcases mem_of_getElem?_modify hget with hget | ⟨-, old, hold, rfl⟩
    · exact h.scopes id' c hid hget
    · have hwithin := h.scopes id' old hid hold
      exact ⟨hf _ hwithin.bindings, hwithin.parent⟩
  · match cell with
    | .scope id => exact Nat.lt_of_lt_of_le hin (by simp [State.updateBindings])
    | .classRef _ | .container (.array _) | .container (.object _) | .container (.inst _) => exact hin

theorem declare (h : s.Within D) {id : ScopeId} {name : String} {v : Value} {constant : Bool}
    (hv : v.Within D) : (s.declare id name v constant).Within D := by
  refine h.updateBindings fun record hrecord entry hentry => ?_
  rcases Record.mem_insert hentry with hentry | rfl
  · exact hrecord entry hentry
  · exact hv

theorem write (h : s.Within D) {w : Write} (hw : w.value.Within D) : (s.write w).Within D := by
  cases w with
  | binding id name v =>
    show (s.updateBindings id (·.update name ⟨v, false⟩)).Within D
    refine h.updateBindings fun record hrecord entry hentry => ?_
    rcases Record.mem_update hentry with hentry | rfl
    · exact hrecord entry hentry
    · exact hw
  | item id index v =>
    refine h.updateArray fun items hitems u hu => ?_
    rcases mem_storeAt hu with hu | rfl | rfl
    · exact hitems u hu
    · trivial
    · exact hw
  | property id name v => exact h.updateObject fun record hrecord => hrecord.insert hw
  | field id name v => exact h.updateFields fun record hrecord => hrecord.update hw
  | staticField id name v => exact h.updateStaticFields fun record hrecord => hrecord.insert hw

theorem change (h : s.Within D) {s' : State} (hchange : Change D s s') : s'.Within D := by
  cases hchange with
  | write _ hw => exact h.write hw
  | array hitems => exact h.newArray hitems
  | object hrecord => exact h.newObject hrecord
  | classRef hc => exact h.newClass hc
  | inst hid => exact h.newInstance hid
  | serial | print => exact ⟨h.scopes, h.arrays, h.objects, h.classes, h.instances, h.fresh⟩
  | push hitem =>
    refine h.updateArray fun items hitems v hv => ?_
    rcases Array.mem_push.mp hv with hv | rfl
    · exact hitems v hv
    · exact hitem

theorem deeper (h : s.Within D) : s.deeper.Within D :=
  ⟨h.scopes, h.arrays, h.objects, h.classes, h.instances, h.fresh⟩

theorem shallower (h : s.Within D) : s.shallower.Within D :=
  ⟨h.scopes, h.arrays, h.objects, h.classes, h.instances, h.fresh⟩

theorem enter (h : s.Within D) {kind : ScopeKind} {parent : ScopeId}
    (hparent : D.cell (.scope parent)) : (s.enter kind parent).2.Within D :=
  h.newScope ⟨fun _ => nofun, fun _ hid => Option.mem_some.mp hid ▸ hparent⟩

theorem entered (h : s.Within D) (kind : ScopeKind) (parent : ScopeId) :
    D.cell (.scope (s.enter kind parent).1) :=
  h.fresh _ (Nat.lt_irrefl s.scopes.size)

end State.Within

/-! ### Writes that were found to be permitted -/

namespace State

variable {s : State} {w : Write} {v : Value}

theorem assignment_allowed {id : ScopeId} {name : String} {line : Nat}
    (h : s.assignment id name v line = .ok w) : w.Allowed s ∧ w.value = v := by
  unfold assignment at h
  split at h
  · cases h
  · split at h
    · cases h
    · next b hb =>
      split at h
      · cases h
      · next hconstant =>
        cases h
        exact ⟨⟨b, hb, by simpa using hconstant⟩, rfl⟩

theorem memberWrite_allowed {target key : Value} {line : Nat}
    (h : s.memberWrite target key v line = .ok w) : w.Allowed s ∧ w.value = v := by
  unfold memberWrite at h
  split at h
  · cases hindex : s.indexOf key line with
    | error e => simp [hindex, bind, Except.bind] at h
    | ok index =>
      simp only [hindex, bind, Except.bind] at h
      split at h
      · cases h
      · next hfits =>
        cases h
        refine ⟨?_, rfl⟩
        simp only [Write.Allowed]
        simp only [Bool.and_eq_true, decide_eq_true_eq] at hfits
        omega
  · cases h
    exact ⟨trivial, rfl⟩
  · dsimp only at h
    split at h
    · next hfield =>
      cases h
      exact ⟨hfield, rfl⟩
    · cases h
  · cases h
    exact ⟨trivial, rfl⟩
  · cases h

end State

/-! ### What a trail keeps -/

theorem Change.scopes {s s' : State} (h : Change D s s') :
    s'.scopes = s.scopes ∨
      ∃ id name v b, (s.scope id).bindings.get? name = some b ∧ b.constant = false ∧
        s' = s.updateBindings id (·.update name ⟨v, false⟩) := by
  cases h with
  | @write w hallowed =>
    cases w with
    | binding id name v =>
      obtain ⟨b, hb, hconstant⟩ := hallowed
      exact .inr ⟨id, name, v, b, hb, hconstant, rfl⟩
    | _ => exact .inl rfl
  | _ => exact .inl rfl

theorem Change.size_scopes {s s' : State} (h : Change D s s') :
    s'.scopes.size = s.scopes.size := by
  rcases h.scopes with heq | ⟨id, name, v, b, -, -, rfl⟩
  · rw [heq]
  · simp

theorem Change.permitsLoopControl {s s' : State} (h : Change D s s') (id : ScopeId) :
    s'.permitsLoopControl id = s.permitsLoopControl id := by
  rcases h.scopes with heq | ⟨id, name, v, b, -, -, rfl⟩
  · simp only [State.permitsLoopControl, State.scope, heq]
  · exact State.permitsLoopControl_updateBindings

namespace Trail

variable {scope : ScopeId} {name name' : String → Prop} {s s' s'' : State}

theorem trans (h : Trail D scope name s s') (h' : Trail D scope name s' s'') :
    Trail D scope name s s'' := by
  induction h' with
  | refl => exact h
  | change _ hchange ih => exact (ih h).change hchange
  | declare _ hx hv ih => exact (ih h).declare hx hv
  | enter kind _ inner ih _ => exact (ih h).enter kind inner
  | call _ hclosure hdepth inner ih _ => exact (ih h).call hclosure hdepth inner

theorem within (h : Trail D scope name s s') (hs : s.Within D) (hscope : D.cell (.scope scope)) :
    s'.Within D := by
  induction h with
  | refl => exact hs
  | change _ hchange ih => exact (ih hs hscope).change hchange
  | declare _ _ hv ih => exact (ih hs hscope).declare hv
  | enter kind _ _ ih ihInner =>
    have hwithin := ih hs hscope
    exact ihInner (hwithin.enter hscope) (hwithin.entered _ _)
  | call _ hclosure _ _ ih ihInner =>
    have hwithin := (ih hs hscope).deeper
    exact (ihInner (hwithin.enter hclosure) (hwithin.entered _ _)).shallower

theorem depth_eq (h : Trail D scope name s s') : s'.depth = s.depth := by
  induction h with
  | refl => rfl
  | change _ hchange ih =>
    rw [← ih]
    cases hchange with
    | @write w => cases w <;> rfl
    | _ => rfl
  | declare _ _ _ ih => exact ih
  | enter _ _ _ ih ihInner => exact ihInner.trans ih
  | call _ _ _ _ ih ihInner =>
    simp only [State.shallower, ihInner, State.enter, State.newScope, State.deeper,
      Nat.add_sub_cancel, ih]

theorem maxDepth_eq (h : Trail D scope name s s') : s'.maxDepth = s.maxDepth := by
  induction h with
  | refl => rfl
  | change _ hchange ih =>
    rw [← ih]
    cases hchange with
    | @write w => cases w <;> rfl
    | _ => rfl
  | declare _ _ _ ih => exact ih
  | enter _ _ _ ih ihInner => exact ihInner.trans ih
  | call _ _ _ _ ih ihInner => exact ihInner.trans ih

theorem size_scopes_le (h : Trail D scope name s s') : s.scopes.size ≤ s'.scopes.size := by
  induction h with
  | refl => exact Nat.le_refl _
  | change _ hchange ih => exact hchange.size_scopes ▸ ih
  | declare _ _ _ ih => simpa [State.declare] using ih
  | enter _ _ _ ih ihInner =>
    rw [State.size_enter] at ihInner
    omega
  | @call _ _ _ _ s' s'' _ _ _ _ ih ihInner =>
    rw [State.size_enter] at ihInner
    have hsize : s'.deeper.scopes.size = s'.scopes.size := rfl
    have hsize' : s''.shallower.scopes.size = s''.scopes.size := rfl
    omega

theorem permitsLoopControl_eq (h : Trail D scope name s s') {id : ScopeId}
    (hid : id.index < s.scopes.size) : s'.permitsLoopControl id = s.permitsLoopControl id := by
  induction h with
  | refl => rfl
  | change _ hchange ih => exact (hchange.permitsLoopControl id).trans (ih hid)
  | declare _ _ _ ih => exact State.permitsLoopControl_updateBindings.trans (ih hid)
  | @enter scope _ s s' s'' kind h _ ih ihInner =>
    have hlt := Nat.lt_of_lt_of_le hid h.size_scopes_le
    have hnew : (s'.enter kind scope).2.permitsLoopControl id = s'.permitsLoopControl id :=
      congrArg Scope.permitsLoopControl (State.scope_newScope_of_lt hlt)
    have hlt' : id.index < (s'.enter kind scope).2.scopes.size := by
      rw [State.size_enter]
      omega
    exact (ihInner hlt').trans (hnew.trans (ih hid))
  | @call _ closure _ s s' s'' h _ _ _ ih ihInner =>
    have hlt := Nat.lt_of_lt_of_le hid h.size_scopes_le
    have hnew : (s'.deeper.enter .function closure).2.permitsLoopControl id =
        s'.permitsLoopControl id :=
      congrArg Scope.permitsLoopControl (State.scope_newScope_of_lt hlt)
    have hlt' : id.index < (s'.deeper.enter .function closure).2.scopes.size := by
      rw [State.size_enter]
      exact Nat.lt_succ_of_lt hlt
    exact (ihInner hlt').trans (hnew.trans (ih hid))

end Trail

end ScriptLang
