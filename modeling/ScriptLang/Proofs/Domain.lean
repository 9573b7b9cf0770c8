import ScriptLang.Proofs.Permit

/-! Parts of a heap that are closed under reference. A domain says which cells values may refer to and
whether functions may loop; cells that do not exist yet belong to every domain. Each operation on a
state stays within a domain, so whatever is true of the functions and natives that a program can
reach when it starts stays true. -/

namespace ScriptLang

/-- What a value can refer to. -/
inductive Cell
  | scope (id : ScopeId)
  | container (c : Container)
  | classRef (id : ClassId)
  deriving DecidableEq

/-- Whether the cell exists. -/
def Cell.In (s : State) : Cell → Prop
  | scope id => id.index < s.scopes.size
  | container (.array id) => id.index < s.arrays.size
  | container (.object id) => id.index < s.objects.size
  | container (.inst id) => id.index < s.instances.size
  | classRef id => id.index < s.classes.size

def Receiver.cell : Receiver → Cell
  | ofClass id => .classRef id
  | ofInstance id => .container (.inst id)

/-- Whether every program has the native from the start. -/
def Builtin.IsPrelude (b : Builtin) : Prop :=
  b ∈ prelude.map Prod.snd

structure Domain where
  cell : Cell → Prop
  loop : Prop

variable {D : Domain}

/-! ### Values and cells within a domain -/

def Closure.Within (D : Domain) (f : Closure) : Prop :=
  f.function.Permitted (.anyName D.loop) ∧ D.cell (.scope f.scope) ∧
    ∀ receiver ∈ f.receiver, D.cell receiver.cell

def Value.Within (D : Domain) : Value → Prop
  | container c => D.cell (.container c)
  | function f => f.Within D
  | native f => f.builtin.IsPrelude
  | classRef id => D.cell (.classRef id)
  | tagged _ payload => payload.Within D
  | null | bool _ | number _ | string _ | enumeration _ | member _ => True

def Record.Within (D : Domain) (record : Record Value) : Prop :=
  ∀ entry ∈ record.entries, entry.2.Within D

structure Scope.Within (D : Domain) (c : Scope) : Prop where
  bindings : ∀ entry ∈ c.bindings.entries, entry.2.value.Within D
  parent : ∀ id ∈ c.parent, D.cell (.scope id)

structure Class.Within (D : Domain) (c : Class) : Prop where
  staticFields : c.staticFields.Within D
  methods : ∀ entry ∈ c.methods.entries,
    entry.2.Permitted (.anyName D.loop) ∧ D.cell (.scope c.scope)
  staticMethods : ∀ entry ∈ c.staticMethods.entries,
    entry.2.Permitted (.anyName D.loop) ∧ D.cell (.scope c.scope)

structure Instance.Within (D : Domain) (i : Instance) : Prop where
  classId : D.cell (.classRef i.classId)
  fields : i.fields.Within D

structure State.Within (D : Domain) (s : State) : Prop where
  scopes : ∀ id c, D.cell (.scope id) → s.scopes[id.index]? = some c → c.Within D
  arrays : ∀ id items, D.cell (.container (.array id)) → s.arrays[id.index]? = some items →
    ∀ v ∈ items, v.Within D
  objects : ∀ id record, D.cell (.container (.object id)) → s.objects[id.index]? = some record →
    record.Within D
  classes : ∀ id c, D.cell (.classRef id) → s.classes[id.index]? = some c → c.Within D
  instances : ∀ id i, D.cell (.container (.inst id)) → s.instances[id.index]? = some i →
    i.Within D
  fresh : ∀ cell : Cell, ¬ cell.In s → D.cell cell

theorem Receiver.value_within {receiver : Receiver} :
    receiver.value.Within D ↔ D.cell receiver.cell := by
  cases receiver <;> rfl

/-! ### Records -/

namespace Record

theorem Within.insert {r : Record Value} (h : r.Within D) {key : String} {value : Value}
    (hv : value.Within D) : (r.insert key value).Within D := by
  intro entry hentry
  rcases mem_insert hentry with hentry | rfl
  · exact h entry hentry
  · exact hv

theorem Within.update {r : Record Value} (h : r.Within D) {key : String} {value : Value}
    (hv : value.Within D) : (r.update key value).Within D := by
  intro entry hentry
  rcases mem_update hentry with hentry | rfl
  · exact h entry hentry
  · exact hv

theorem Within.get? {r : Record Value} (h : r.Within D) {key : String} {value : Value}
    (hget : r.get? key = some value) : value.Within D :=
  h _ (mem_entries_of_get? hget)

end Record

/-! ### Reading -/

theorem mem_of_getElem?_push {α : Type} {xs : Array α} {a b : α} {i : Nat}
    (h : (xs.push a)[i]? = some b) : xs[i]? = some b ∨ b = a := by
  rw [Array.getElem?_push] at h
  split at h
  · exact .inr (Option.some.inj h).symm
  · exact .inl h

theorem mem_of_getElem?_modify {α : Type} {xs : Array α} {f : α → α} {b : α} {i j : Nat}
    (h : (xs.modify j f)[i]? = some b) :
    xs[i]? = some b ∨ i = j ∧ ∃ a, xs[i]? = some a ∧ b = f a := by
  rw [Array.getElem?_modify] at h
  split at h
  · next he =>
    obtain ⟨a, ha, rfl⟩ := Option.map_eq_some_iff.mp h
    exact .inr ⟨he.symm, a, ha, rfl⟩
  · exact .inl h

namespace State.Within

variable {s : State}

theorem scope (h : s.Within D) {id : ScopeId} (hid : D.cell (.scope id)) :
    (s.scope id).Within D := by
  unfold State.scope
  rw [Array.getD_eq_getD_getElem?]
  cases hget : s.scopes[id.index]? with
  | none => exact ⟨fun _ => nofun, fun _ => nofun⟩
  | some c => exact h.scopes id c hid hget

theorem array (h : s.Within D) {id : ArrayId} (hid : D.cell (.container (.array id))) :
    ∀ v ∈ s.array id, v.Within D := by
  unfold State.array
  rw [Array.getD_eq_getD_getElem?]
  cases hget : s.arrays[id.index]? with
  | none => simp
  | some items => exact h.arrays id items hid hget

theorem object (h : s.Within D) {id : ObjectId} (hid : D.cell (.container (.object id))) :
    (s.object id).Within D := by
  unfold State.object
  rw [Array.getD_eq_getD_getElem?]
  cases hget : s.objects[id.index]? with
  | none => simp [Record.Within, Record.empty]
  | some record => exact h.objects id record hid hget

theorem classOf (h : s.Within D) {id : ClassId} (hid : D.cell (.classRef id)) :
    (s.classOf id).Within D := by
  unfold State.classOf
  rw [Array.getD_eq_getD_getElem?]
  cases hget : s.classes[id.index]? with
  | none => exact ⟨fun _ => nofun, fun _ => nofun, fun _ => nofun⟩
  | some c => exact h.classes id c hid hget

theorem fields (h : s.Within D) {id : InstanceId} (hid : D.cell (.container (.inst id))) :
    (s.instanceOf id).fields.Within D := by
  unfold State.instanceOf
  rw [Array.getD_eq_getD_getElem?]
  cases hget : s.instances[id.index]? with
  | none => exact fun _ => nofun
  | some i => exact (h.instances id i hid hget).fields

theorem owner? (h : s.Within D) {id owner : ScopeId} {name : String} (hid : D.cell (.scope id))
    (howner : s.owner? id name = some owner) : D.cell (.scope owner) := by
  induction id using State.owner?.induct s name with
  | case1 id hlocal =>
    rw [State.owner?, if_pos hlocal] at howner
    exact Option.some.inj howner ▸ hid
  | case2 id hlocal parent hparent hless ih =>
    rw [State.owner?, if_neg hlocal] at howner
    simp only [hparent, hless, if_true] at howner
    exact ih ((h.scope hid).parent parent hparent) howner
  | case3 id hlocal parent hparent hless =>
    rw [State.owner?, if_neg hlocal] at howner
    simp [hparent, hless] at howner
  | case4 id hlocal hparent =>
    rw [State.owner?, if_neg hlocal] at howner
    simp [hparent] at howner

theorem lookup (h : s.Within D) {id : ScopeId} {name : String} {line : Nat} {v : Value}
    (hid : D.cell (.scope id)) (hv : s.lookup id name line = .ok v) : v.Within D := by
  unfold State.lookup at hv
  split at hv
  · next binding hbinding =>
    obtain ⟨owner, howner, hget⟩ := Option.bind_eq_some_iff.mp hbinding
    cases hv
    exact (h.scope (h.owner? hid howner)).bindings _ (Record.mem_entries_of_get? hget)
  · cases hv

theorem method (h : s.Within D) {id : ClassId} {name : String} {receiver : Receiver} {v : Value}
    (hid : D.cell (.classRef id)) (hreceiver : D.cell receiver.cell)
    (hv : (s.classOf id).method? name receiver = some v) : v.Within D := by
  obtain ⟨f, hf, rfl⟩ := Option.map_eq_some_iff.mp hv
  obtain ⟨hpermitted, hscope⟩ := (h.classOf hid).methods _ (Record.mem_entries_of_get? hf)
  exact ⟨hpermitted, hscope, by simpa using hreceiver⟩

theorem staticMethod (h : s.Within D) {id : ClassId} {name : String} {receiver : Receiver}
    {v : Value} (hid : D.cell (.classRef id)) (hreceiver : D.cell receiver.cell)
    (hv : (s.classOf id).staticMethod? name receiver = some v) : v.Within D := by
  obtain ⟨f, hf, rfl⟩ := Option.map_eq_some_iff.mp hv
  obtain ⟨hpermitted, hscope⟩ := (h.classOf hid).staticMethods _ (Record.mem_entries_of_get? hf)
  exact ⟨hpermitted, hscope, by simpa using hreceiver⟩

theorem boundMethod (h : s.Within D) {id : InstanceId} {name : String} {v : Value}
    (hid : D.cell (.container (.inst id))) (hv : s.boundMethod? id name = some v) :
    v.Within D := by
  obtain ⟨i, hi, hmethod⟩ := Option.bind_eq_some_iff.mp hv
  exact h.method (h.instances id i hid hi).classId (show D.cell (Receiver.ofInstance id).cell from hid)
    hmethod

theorem required {found : Option Value} {name : String} {target v : Value} {line : Nat}
    (hv : s.required found name target line = .ok v) : found = some v := by
  unfold State.required at hv
  split at hv
  · exact congrArg some (Except.ok.inj hv)
  · cases hv

theorem getMember (h : s.Within D) {target key v : Value} {line : Nat} (ht : target.Within D)
    (hv : s.getMember target key line = .ok v) : v.Within D := by
  unfold State.getMember at hv
  split at hv
  · next id =>
    cases hindex : s.indexOf key line with
    | error e => simp [hindex, bind, Except.bind] at hv
    | ok index =>
      simp only [hindex, bind, Except.bind] at hv
      split at hv
      · next item hitem =>
        cases hv
        exact h.array ht _ (Array.mem_of_getElem? hitem)
      · cases hv
  · next text =>
    cases hindex : s.indexOf key line with
    | error e => simp [hindex, bind, Except.bind] at hv
    | ok index =>
      simp only [hindex, bind, Except.bind] at hv
      split at hv
      · cases hv
        trivial
      · cases hv
  · next id =>
    cases hv
    cases hget : (s.object id).get? (s.keyName key) with
    | none => trivial
    | some value => exact (h.object ht).get? hget
  · next id =>
    rcases Option.or_eq_some_iff.mp (required hv) with hfield | ⟨-, hmethod⟩
    · exact (h.fields ht).get? hfield
    · exact h.boundMethod ht hmethod
  · next id =>
    rcases Option.or_eq_some_iff.mp (required hv) with hfield | ⟨-, hmethod⟩
    · exact (h.classOf ht).staticFields.get? hfield
    · exact h.staticMethod ht (show D.cell (Receiver.ofClass id).cell from ht) hmethod
  · next e =>
    have hfound := required hv
    split at hfound
    · cases hfound
      trivial
    · cases hfound
  · cases hv

end State.Within

theorem State.operate_within {s : State} {operator : Operator} {a b v : Value} {line : Nat}
    (h : s.operate operator a b line = .ok v) : v.Within D := by
  have harithmetic : ∀ {operator : Operator} {x y : Float},
      arithmetic operator x y line = .ok v → v.Within D := by
    intro operator x y h
    unfold arithmetic at h
    split at h <;> (try split at h) <;> cases h <;> trivial
  unfold State.operate at h
  split at h
  case h_7 => exact harithmetic h
  all_goals cases h; trivial

end ScriptLang
