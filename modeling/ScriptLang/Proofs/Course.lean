import ScriptLang.Proofs.Depth

/-! What no operation breaks holds at every moment of an evaluation, if it holds at the start. So
the tree of scopes only grows, and a scope keeps its names while code runs in newer ones. -/

namespace ScriptLang

namespace State

/-- The property is not broken by code that runs in own scopes, nor by calls when they begin and end, and
while it holds every scope that is entered is an own one. -/
structure Stable (own : ScopeId → Prop) (holds : State → Prop) : Prop where
  operation {α : Type} {f : State → α × State} (hf : Operation own f) {s : State} (hs : holds s) :
    holds (f s).2
  entered {s : State} (kind : ScopeKind) (parent : ScopeId) (hs : holds s) :
    own (s.enter kind parent).1
  deeper {s : State} (hs : holds s) : holds s.deeper
  shallower {s : State} (hs : holds s) : holds s.shallower

variable {own : ScopeId → Prop} {holds : State → Prop} {s s' : State}

theorem Stable.declare (h : Stable own holds) {scope : ScopeId} (hscope : own scope) {name : String}
    {v : Value} {constant : Bool} (hs : holds s) : holds (s.declare scope name v constant) :=
  h.operation (.declare hscope name v constant) hs

theorem Stable.bindArguments (h : Stable own holds) {scope : ScopeId} (hscope : own scope)
    {f : Closure} {arguments : List Value} (hs : holds s) :
    holds (s.bindArguments scope f arguments) := by
  refine bindArguments_induction ?_ fun _ _ _ _ => h.declare hscope
  unfold bindReceiver
  split
  · exact h.declare hscope hs
  · exact hs

end State

namespace Eval

variable {own : ScopeId → Prop} {holds : State → Prop}

/-- Tasks may start in own scopes where the property holds, and it holds where they end. -/
def stableContract (own : ScopeId → Prop) (holds : State → Prop) : Contract where
  pre task s := own task.scope ∧ holds s
  post _ _ _ := holds

def Preserves (own : ScopeId → Prop) (holds : State → Prop) ⦃α : Type⦄ (c : Eval α) : Prop :=
  ∀ s, holds s → c.Meets (stableContract own holds) s fun _ => holds

theorem preserves_uniform (h : State.Stable own holds) : Uniform own (Preserves own holds) where
  pure _ _ hs := meets_pure.mpr hs
  throw _ _ hs := meets_throw.mpr hs
  bind hc hf := by
    intro s hs
    rw [meets_bind]
    refine (hc s hs).mono ?_
    rintro (signal | a) s' hs'
    · exact hs'
    · exact hf a s' hs'
  get_bind _ hf := by
    intro s hs
    rw [meets_bind, meets_get]
    exact hf s s hs
  create hf _ hs := meets_create.mpr (h.operation hf hs)
  enter_bind {_ kind parent _} hf s hs :=
    hf _ (h.entered kind parent hs) (s.enter kind parent).2 (h.operation (.enter kind parent) hs)
  attempt htask _ hs := meets_attempt.mpr ⟨⟨htask, hs⟩, fun _ _ => id⟩
  -- The body of a call runs in an own scope, entered one call deeper.
  callFunction f arguments line := by
    intro s hs
    rcases Nat.lt_or_ge s.depth s.maxDepth with hlt | hle
    · have hinner : own (s.deeper.enter .function f.scope).1 :=
        h.entered _ _ (h.deeper hs)
      rw [Meets, callFunction_entered hlt]
      refine ⟨⟨hinner, h.bindArguments hinner (h.operation (.enter _ _) (h.deeper hs))⟩, ?_⟩
      rintro ⟨o, s'⟩ hs'
      change Meets (stableContract own holds) (leaveCall >>= fun _ => ofExcept o.result) s'
        fun _ => holds
      rw [meets_bind, leaveCall, meets_modify]
      cases o.result with
      | ok v => exact h.shallower hs'
      | error error => exact h.shallower hs'
    · rw [Meets, callFunction_refused hle]
      exact hs

end Eval

namespace State.Stable

variable {own : ScopeId → Prop} {holds : State → Prop} {e : Evaluation} {s s' : State}

theorem body (h : Stable own holds) (task : Task) (s : State)
    (hpre : (Eval.stableContract own holds).pre task s) :
    (Eval.body task).Meets (Eval.stableContract own holds) s
      ((Eval.stableContract own holds).post task s) :=
  (Eval.preserves_uniform h).compositional.body task hpre.1 s hpre.2

/-- A property that no operation breaks holds at every moment. -/
theorem passes (h : Stable (fun _ => True) holds) (hs : holds s) (hpasses : e.run.Passes s s') :
    holds s' :=
  hpasses.of_meets h.body (fun _ _ => And.right) (fun _ _ _ _ _ => id)
    ((Eval.preserves_uniform h).run e s hs)

theorem ends (h : Stable own holds) (he : own e.scope) (hs : holds s) {o : Outcome}
    (hends : e.run.Ends s o s') : holds s' :=
  hends.of_meets h.body ((Eval.preserves_uniform h).compositional.run e he s hs)

end State.Stable

/-! ### Scopes -/

namespace State

/-- What an operation does to the scopes. -/
inductive ScopeChange (own : ScopeId → Prop) (s : State) : State → Prop
  | none {s' : State} (h : s'.scopes = s.scopes) : ScopeChange own s s'
  | enter (kind : ScopeKind) (parent : ScopeId) : ScopeChange own s (s.enter kind parent).2
  | declare {scope : ScopeId} (hscope : own scope) (name : String) (v : Value) (constant : Bool) :
      ScopeChange own s (s.declare scope name v constant)
  | assign (scope : ScopeId) (name : String) (b : Binding) :
      ScopeChange own s (s.updateBindings scope (·.update name b))

variable {own : ScopeId → Prop} {s s' s'' : State}

theorem scopeChange_native {f : Native} {arguments : List Value} {scope : ScopeId}
    (hscope : own scope) : ScopeChange own s (f.call s arguments scope).2 := by
  obtain ⟨serial, name, builtin⟩ := f
  cases builtin with
  | declare => exact .declare hscope _ _ _
  | push =>
    rcases arguments with _ | ⟨target, _ | ⟨item, _ | ⟨v, rest⟩⟩⟩
    · exact .none rfl
    · exact .none rfl
    · change ScopeChange own s (Native.push s name target item).2
      unfold Native.push
      split <;> exact .none rfl
    · exact .none rfl
  | len | typeof | str | assert => rcases arguments with _ | ⟨v, _ | ⟨w, rest⟩⟩ <;> exact .none rfl
  | print | sum | lookup | inLoop | scope | collect | throw => exact .none rfl

theorem Operation.scopeChange {α : Type} {f : State → α × State} (h : Operation own f) (s : State) :
    ScopeChange own s (f s).2 := by
  cases h with
  | enter kind parent => exact .enter kind parent
  | declare hscope => exact .declare hscope _ _ _
  | native _ _ hscope => exact scopeChange_native hscope
  | write w =>
    cases w with
    | binding id name v => exact .assign id name ⟨v, false⟩
    | item | property | field | staticField => exact .none rfl
  | newArray | newObject | newClass | newInstance | newSerial => exact .none rfl

/-! ### The tree of scopes -/

/-- Scopes may have been added to those of `s`, which have the parents that they had. -/
structure Grown (s s' : State) : Prop where
  size_le : s.scopes.size ≤ s'.scopes.size
  parent_eq : ∀ id : ScopeId, id.index < s.scopes.size → (s'.scope id).parent = (s.scope id).parent

theorem Grown.refl : s.Grown s :=
  ⟨Nat.le_refl _, fun _ _ => rfl⟩

theorem Grown.trans (h : s.Grown s') (h' : s'.Grown s'') : s.Grown s'' where
  size_le := Nat.le_trans h.size_le h'.size_le
  parent_eq id hid :=
    (h'.parent_eq id (Nat.lt_of_lt_of_le hid h.size_le)).trans (h.parent_eq id hid)

theorem Grown.of_scopes_eq (h : s'.scopes = s.scopes) : s.Grown s' :=
  ⟨Nat.le_of_eq (congrArg Array.size h.symm), fun _ _ => by rw [scope, scope, h]⟩

theorem grown_updateBindings {id : ScopeId} {f : Record Binding → Record Binding} :
    s.Grown (s.updateBindings id f) := by
  refine ⟨Nat.le_of_eq size_updateBindings.symm, fun other hother => ?_⟩
  by_cases hne : other = id
  · subst hne
    rw [scope_updateBindings_self hother]
  · rw [scope_updateBindings_of_ne hne]

theorem grown_declare {id : ScopeId} {name : String} {v : Value} {constant : Bool} :
    s.Grown (s.declare id name v constant) :=
  grown_updateBindings

theorem ScopeChange.grown (h : ScopeChange own s s') : s.Grown s' := by
  cases h with
  | none h => exact .of_scopes_eq h
  | enter kind parent =>
    exact ⟨by rw [size_enter]; exact Nat.le_succ _,
      fun _ hid => congrArg Scope.parent (scope_newScope_of_lt hid)⟩
  | declare => exact grown_declare
  | assign => exact grown_updateBindings

theorem stable_grown (s : State) : Stable (fun _ => True) s.Grown where
  operation hf _ hs := hs.trans (hf.scopeChange _).grown
  entered _ _ _ := trivial
  deeper hs := hs.trans (.of_scopes_eq rfl)
  shallower hs := hs.trans (.of_scopes_eq rfl)

/-! ### Names -/

/-- The scopes of `s` are still there, with the names that they had. -/
structure KeepsNames (s s' : State) : Prop where
  size_le : s.scopes.size ≤ s'.scopes.size
  keys_eq : ∀ id : ScopeId, id.index < s.scopes.size →
    (s'.scope id).bindings.keys = (s.scope id).bindings.keys

theorem KeepsNames.refl : s.KeepsNames s :=
  ⟨Nat.le_refl _, fun _ _ => rfl⟩

theorem KeepsNames.of_scopes_eq (h : s.KeepsNames s') (hscopes : s''.scopes = s'.scopes) :
    s.KeepsNames s'' :=
  ⟨hscopes ▸ h.size_le, fun id hid => by rw [scope, hscopes]; exact h.keys_eq id hid⟩

theorem KeepsNames.scopeChange (h : s.KeepsNames s')
    (hchange : ScopeChange (s.scopes.size ≤ ·.index) s' s'') : s.KeepsNames s'' := by
  cases hchange with
  | none hscopes => exact h.of_scopes_eq hscopes
  | enter kind parent =>
    refine ⟨by rw [size_enter]; exact Nat.le_succ_of_le h.size_le, fun id hid => ?_⟩
    have hold : (s'.enter kind parent).2.scope id = s'.scope id :=
      scope_newScope_of_lt (Nat.lt_of_lt_of_le hid h.size_le)
    rw [hold, h.keys_eq id hid]
  | @declare scope hscope name v constant =>
    refine ⟨by rw [State.declare, size_updateBindings]; exact h.size_le, fun id hid => ?_⟩
    have hne : id ≠ scope := by
      rintro rfl
      exact Nat.not_le_of_lt hid hscope
    rw [State.declare, scope_updateBindings_of_ne hne, h.keys_eq id hid]
  | assign scope name b =>
    refine ⟨by rw [size_updateBindings]; exact h.size_le, fun id hid => ?_⟩
    by_cases hne : id = scope
    · subst hne
      rw [scope_updateBindings_self (Nat.lt_of_lt_of_le hid h.size_le), Record.keys_update,
        h.keys_eq id hid]
    · rw [scope_updateBindings_of_ne hne, h.keys_eq id hid]

theorem stable_keepsNames (s : State) : Stable (s.scopes.size ≤ ·.index) s.KeepsNames where
  operation hf _ hs := hs.scopeChange (hf.scopeChange _)
  entered _ _ hs := hs.size_le
  deeper hs := hs.of_scopes_eq rfl
  shallower hs := hs.of_scopes_eq rfl

end State

end ScriptLang
