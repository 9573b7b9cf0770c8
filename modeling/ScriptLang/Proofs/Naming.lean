import ScriptLang.Proofs.Forest

/-! Names in trees of scopes. The state holds what the requests tell: by induction on the requests, of which
each leaves the scopes alone, adds one without a name in it, or gives a single one a single binding. -/

namespace ScriptLang

namespace Forest

variable {past : List Request} {r : Request} {scope parent inner owner : ScopeId} {name : String}
  {value : Value} {constant : Bool}

/-! ### The requests tell what the scopes hold -/

/-- What the requests tell is so. -/
structure Told (past : List Request) : Prop where
  binding_iff : ∀ scope name b, ((after past).state.scope scope).bindings.get? name = some b ↔
    LastStored scope name past b.value ∧ LastDeclared scope name past b.constant
  parent_iff : ∀ scope parent,
    ((after past).state.scope scope).parent = some parent ↔ Parent past scope parent
  older : ∀ scope parent, Parent past scope parent → parent.index < scope.index
  inside : ∀ handle scope, (after past).scope? handle = some scope →
    scope.index < (after past).state.scopes.size

namespace Told

variable (told : Told past)

include told

theorem isLocal_iff : (after past).state.isLocal scope name = true ↔
    ∃ constant, LastDeclared scope name past constant := by
  rw [State.isLocal, Record.contains, Option.isSome_iff_exists]
  constructor
  · rintro ⟨b, hb⟩
    exact ⟨_, ((told.binding_iff _ _ _).mp hb).2⟩
  · rintro ⟨constant, h⟩
    obtain ⟨value, hvalue⟩ := h.exists_lastStored
    exact ⟨⟨value, constant⟩, (told.binding_iff _ _ ⟨value, constant⟩).mpr ⟨hvalue, h⟩⟩

theorem nearest_of_owner? (h : (after past).state.owner? inner name = some owner) :
    Nearest past name inner owner := by
  induction inner using State.owner?.induct (after past).state name with
  | case1 inner hlocal =>
    rw [State.owner?, if_pos hlocal] at h
    cases h
    exact .here (told.isLocal_iff.mp hlocal)
  | case2 inner hlocal parent hparent hlt ih =>
    rw [State.owner?, if_neg hlocal, hparent] at h
    exact .outward (mt told.isLocal_iff.mpr hlocal) ((told.parent_iff _ _).mp hparent)
      (ih ((if_pos hlt).symm.trans h))
  | case3 inner hlocal parent hparent hlt =>
    exact absurd (told.older _ _ ((told.parent_iff _ _).mp hparent)) hlt
  | case4 inner hlocal hparent =>
    rw [State.owner?, if_neg hlocal, hparent] at h
    cases h

theorem owner?_of_nearest (h : Nearest past name inner owner) :
    (after past).state.owner? inner name = some owner := by
  induction h with
  | here h => rw [State.owner?, if_pos (told.isLocal_iff.mpr h)]
  | outward h hparent _ ih =>
    rw [State.owner?, if_neg (mt told.isLocal_iff.mp h), (told.parent_iff _ _).mpr hparent]
    exact (if_pos (told.older _ _ hparent)).trans ih

theorem owner?_iff : (after past).state.owner? inner name = some owner ↔ Nearest past name inner owner :=
  ⟨told.nearest_of_owner?, told.owner?_of_nearest⟩

end Told

/-! ### One request -/

/-- What a request does: nothing to the scopes, or it adds one, or it gives one of them one binding. -/
inductive Effect (past : List Request) (r : Request) : Prop
  | idle (hbinds : ∀ scope name b, ¬Binds scope name past r b) (henters : ∀ parent, ¬Enters past r parent)
      (hstate : (after (r :: past)).state = (after past).state)
  | grows (c : Scope) (hempty : c.bindings = .empty) (hbinds : ∀ scope name b, ¬Binds scope name past r b)
      (henters : ∀ parent, Enters past r parent ↔ c.parent = some parent)
      (hstate : (after (r :: past)).state = ((after past).state.newScope c).2)
  | binds (owner : ScopeId) (key : String) (new : Binding)
      (hbinds : ∀ scope name b, Binds scope name past r b ↔ (scope = owner ∧ name = key) ∧ b = new)
      (henters : ∀ parent, ¬Enters past r parent)
      (hstate : (after past).state.Rebinds owner key new (after (r :: past)).state)

namespace Effect

theorem get?_iff (h : Effect past r) {b : Binding} :
    ((after (r :: past)).state.scope scope).bindings.get? name = some b ↔
      Binds scope name past r b ∨
        ((after past).state.scope scope).bindings.get? name = some b ∧ ∀ b, ¬Binds scope name past r b := by
  cases h with
  | idle hbinds _ hstate => rw [hstate, or_iff_right (hbinds _ _ _), and_iff_left (hbinds scope name)]
  | grows c hempty hbinds _ hstate =>
    have hsame : ((after (r :: past)).state.scope scope).bindings.get? name =
        ((after past).state.scope scope).bindings.get? name := by
      rw [hstate, State.scope_newScope_eq]
      split
      · next hscope =>
        have hdefault : (after past).state.scope scope = default :=
          State.scope_of_size_le (hscope ▸ Nat.le_refl _)
        rw [hempty, hdefault]
        rfl
      · rfl
    rw [hsame, or_iff_right (hbinds _ _ _), and_iff_left (hbinds scope name)]
  | binds owner key new hbinds _ hstate =>
    simp only [hstate.get?_eq, hbinds]
    by_cases hkey : scope = owner ∧ name = key
    · simp [hkey, eq_comm]
    · simp [hkey]

theorem parent_iff (h : Effect past r) : ((after (r :: past)).state.scope scope).parent = some parent ↔
    Enters past r parent ∧ scope = ⟨(after past).state.scopes.size⟩ ∨
      ((after past).state.scope scope).parent = some parent := by
  cases h with
  | idle _ henters hstate => rw [hstate, or_iff_right fun h => henters _ h.1]
  | grows c _ _ henters hstate =>
    rw [hstate, State.scope_newScope_eq, henters]
    split
    · next hscope =>
      have hnone : ((after past).state.scope scope).parent ≠ some parent := fun h =>
        Nat.lt_irrefl _ (hscope ▸ State.lt_size_of_parent h)
      rw [or_iff_left hnone]
      exact (and_iff_left hscope).symm
    · next hscope => exact (or_iff_right fun h => hscope h.2).symm
  | binds owner key new _ henters hstate => rw [hstate.parent_eq, or_iff_right fun h => henters _ h.1]

theorem size_le (h : Effect past r) :
    (after past).state.scopes.size ≤ (after (r :: past)).state.scopes.size := by
  cases h with
  | idle _ _ hstate => rw [hstate]
  | grows c _ _ _ hstate => simp [hstate, State.newScope]
  | binds _ _ _ _ _ hstate => rw [hstate.size_eq]

end Effect

section Acts

variable {handle : Nat} {act : ScopeAct} {target : ScopeId}

theorem Binds.exists_eq {b : Binding} (h : Binds scope name past r b) :
    ∃ handle, r = .via handle (.declare name b.value b.constant) ∨
      ∃ line, r = .via handle (.assign name b.value line) := by
  obtain ⟨handle, -, hdeclare⟩ | ⟨⟨handle, line, _, -, -, -, hassign⟩, -⟩ := h
  · exact ⟨handle, .inl hdeclare⟩
  · exact ⟨handle, .inr ⟨line, hassign⟩⟩

theorem not_binds_of_scope?_eq_none {b : Binding} (h : (after past).scope? handle = none) :
    ¬Binds scope name past (.via handle act) b := by
  rintro (⟨handle, hscope, heq⟩ | ⟨⟨handle, _, _, hscope, -, -, heq⟩, -⟩) <;>
    · cases heq
      cases h.symm.trans hscope

theorem binds_declare_iff {key : String} {b : Binding} (h : (after past).scope? handle = some target) :
    Binds scope name past (.via handle (.declare key value constant)) b ↔
      (scope = target ∧ name = key) ∧ b = ⟨value, constant⟩ := by
  constructor
  · rintro (⟨_, hscope, heq⟩ | ⟨⟨_, _, _, -, -, -, heq⟩, -⟩)
    · cases heq
      exact ⟨⟨Option.some.inj (hscope.symm.trans h), rfl⟩, rfl⟩
    · cases heq
  · rintro ⟨⟨rfl, rfl⟩, rfl⟩
    exact .inl ⟨handle, h, rfl⟩

theorem binds_assign_iff {key : String} {line : Nat} {b : Binding}
    (h : (after past).scope? handle = some target) :
    Binds scope name past (.via handle (.assign key value line)) b ↔
      name = key ∧ Nearest past key target scope ∧ LastDeclared scope key past false ∧
        b = ⟨value, false⟩ := by
  constructor
  · rintro (⟨_, -, heq⟩ | ⟨⟨_, _, inner, hscope, hnearest, hdeclared, heq⟩, hconstant⟩)
    · cases heq
    · cases heq
      obtain rfl := Option.some.inj (hscope.symm.trans h)
      exact ⟨rfl, hnearest, hdeclared, congrArg (Binding.mk b.value) hconstant⟩
  · rintro ⟨rfl, hnearest, hdeclared, rfl⟩
    exact .inr ⟨⟨handle, line, target, h, hnearest, hdeclared, rfl⟩, rfl⟩

theorem after_via (h : (after past).scope? handle = some target) :
    after (.via handle act :: past) = (after past).act target act := by
  rw [after, serve, h]

end Acts

namespace Told

variable (told : Told past) {handle : Nat} {target : ScopeId} {key : String} {line : Nat}

include told

theorem lastDeclared_of_get? {b : Binding}
    (h : ((after past).state.scope scope).bindings.get? name = some b) :
    LastDeclared scope name past b.constant :=
  ((told.binding_iff _ _ _).mp h).2

/-- An assignment changes the binding that it leads to, if there is one and it is no constant. -/
theorem effect_assign (h : (after past).scope? handle = some target) :
    Effect past (.via handle (.assign key value line)) := by
  have hafter : after (.via handle (.assign key value line) :: past) = _ := after_via h
  have henters : ∀ parent, ¬Enters past (.via handle (.assign key value line)) parent := by
    rintro parent ⟨_, _, -, heq⟩
    cases heq
  obtain ⟨hnone, hrefused⟩ | ⟨owner, b, howner, hb, hassignment⟩ :=
    (after past).state.assignment_cases target key value line
  · refine .idle (fun scope name b hbinds => ?_) henters ?_
    · obtain ⟨-, hnearest, -⟩ := (binds_assign_iff h).mp hbinds
      cases hnone.symm.trans (told.owner?_of_nearest hnearest)
    · rw [hafter, act, hrefused]
  -- From here on there is a binding, and the nearest scope that has declared the name is its owner.
  have howner' : ∀ scope, Nearest past key target scope ↔ scope = owner := by
    intro scope
    rw [← told.owner?_iff, howner, Option.some_inj, eq_comm]
  have hdeclared := told.lastDeclared_of_get? hb
  cases hconstant : b.constant with
  | true =>
    refine .idle (fun scope name b hbinds => ?_) henters ?_
    · obtain ⟨-, hnearest, hfalse, -⟩ := (binds_assign_iff h).mp hbinds
      obtain rfl := (howner' scope).mp hnearest
      cases hconstant.symm.trans (hdeclared.unique hfalse)
    · rw [hafter, act, hassignment, hconstant, if_pos rfl]
  | false =>
    rw [hconstant] at hdeclared
    refine .binds owner key ⟨value, false⟩ (fun scope name b => ?_) henters ?_
    · rw [binds_assign_iff h, howner']
      constructor
      · rintro ⟨rfl, rfl, -, rfl⟩
        exact ⟨⟨rfl, rfl⟩, rfl⟩
      · rintro ⟨⟨rfl, rfl⟩, rfl⟩
        exact ⟨rfl, rfl, hdeclared, rfl⟩
    · rw [hafter, act, hassignment, hconstant, if_neg Bool.false_ne_true]
      exact State.rebinds_write hb

theorem effect (r : Request) : Effect past r := by
  cases r with
  | root =>
    refine .grows ⟨none, .empty, false⟩ rfl ?_ (fun parent => iff_of_false ?_ nofun) rfl
    · intro scope name b hbinds
      obtain ⟨_, heq | ⟨_, heq⟩⟩ := hbinds.exists_eq <;> cases heq
    · rintro ⟨_, _, -, heq⟩
      cases heq
  | via handle act =>
    cases h : (after past).scope? handle with
    | none =>
      refine .idle (fun _ _ _ => not_binds_of_scope?_eq_none h) ?_ (by rw [after, serve, h])
      rintro parent ⟨_, _, hscope, heq⟩
      cases heq
      cases h.symm.trans hscope
    | some target =>
      have hafter : after (.via handle act :: past) = _ := after_via h
      cases act with
      | enter kind =>
        refine .grows _ rfl ?_ (fun parent => ?_) (congrArg Forest.state hafter)
        · intro scope name b hbinds
          obtain ⟨_, heq | ⟨_, heq⟩⟩ := hbinds.exists_eq <;> cases heq
        · constructor
          · rintro ⟨_, _, hscope, heq⟩
            cases heq
            exact h.symm.trans hscope
          · intro hparent
            exact ⟨handle, kind, h.trans hparent, rfl⟩
      | clone =>
        refine .idle ?_ ?_ (by rw [hafter]; rfl)
        · intro scope name b hbinds
          obtain ⟨_, heq | ⟨_, heq⟩⟩ := hbinds.exists_eq <;> cases heq
        · rintro parent ⟨_, _, -, heq⟩
          cases heq
      | declare key value constant =>
        refine .binds target key ⟨value, constant⟩ (fun _ _ _ => binds_declare_iff h) ?_ ?_
        · rintro parent ⟨_, _, -, heq⟩
          cases heq
        · rw [hafter]
          exact State.rebinds_declare (told.inside _ _ h)
      | assign key value line => exact told.effect_assign h

end Told

/-! ### Handles -/

/-- A request hands out at most one handle, which is for a scope that there is. -/
theorem Told.handles_cons (told : Told past) (r : Request) :
    (after (r :: past)).handles = (after past).handles ∨
      ∃ made, (after (r :: past)).handles = (after past).handles.push made ∧
        made.index < (after (r :: past)).state.scopes.size := by
  cases r with
  | root => exact .inr ⟨_, rfl, by simp [after, serve, grant, State.newRoot, State.newScope]⟩
  | via handle act =>
    cases h : (after past).scope? handle with
    | none => exact .inl (by rw [after, serve, h])
    | some target =>
      rw [after_via h]
      cases act with
      | enter kind => exact .inr ⟨_, rfl, State.enter_fst_lt⟩
      | clone => exact .inr ⟨target, rfl, told.inside _ _ h⟩
      | declare => exact .inl rfl
      | assign =>
        rw [act]
        split <;> exact .inl rfl

theorem Told.inside_cons (told : Told past) {handle : Nat}
    (h : (after (r :: past)).scope? handle = some scope) :
    scope.index < (after (r :: past)).state.scopes.size := by
  have hold : (after past).scope? handle = some scope →
      scope.index < (after (r :: past)).state.scopes.size :=
    fun h => Nat.lt_of_lt_of_le (told.inside _ _ h) (told.effect r).size_le
  obtain hsame | ⟨made, hpush, hmade⟩ := told.handles_cons r
  · exact hold (by rwa [scope?, hsame] at h)
  · rw [scope?, hpush, Array.getElem?_push] at h
    split at h
    · cases h
      exact hmade
    · exact hold h

/-- Whatever the requests are, they tell what the scopes hold. -/
theorem told (past : List Request) : Told past := by
  induction past with
  | nil =>
    refine ⟨fun scope name b => iff_of_false ?_ nofun, fun scope parent => iff_of_false ?_ nofun, nofun,
      fun handle scope h => ?_⟩
    · exact fun h => Nat.not_lt_zero _ (State.lt_size_of_get? h)
    · exact fun h => Nat.not_lt_zero _ (State.lt_size_of_parent h)
    · cases h
  | cons r past ih =>
    have heffect := ih.effect r
    have hparent : ∀ scope parent,
        ((after (r :: past)).state.scope scope).parent = some parent ↔ Parent (r :: past) scope parent := by
      intro scope parent
      rw [heffect.parent_iff, parent_cons, ih.parent_iff]
    refine ⟨fun scope name b => ?_, hparent, fun scope parent h => ?_, fun handle scope => ih.inside_cons⟩
    · rw [heffect.get?_iff, told_cons, ih.binding_iff]
    · obtain ⟨⟨handle, _, hscope, -⟩, rfl⟩ | h := parent_cons.mp h
      · exact ih.inside _ _ hscope
      · exact ih.older _ _ h

theorem scope?_append {handle : Nat} (h : (after past).scope? handle = some scope) (more : List Request) :
    (after (more ++ past)).scope? handle = some scope := by
  induction more with
  | nil => exact h
  | cons r more ih =>
    have hlt : handle < (after (more ++ past)).handles.size := (Array.getElem?_eq_some_iff.mp ih).1
    obtain hsame | ⟨made, hpush, -⟩ := (told (more ++ past)).handles_cons r
    · rw [List.cons_append, scope?, hsame]
      exact ih
    · rw [List.cons_append, scope?, hpush, Array.getElem?_push_lt hlt, ← Array.getElem?_eq_getElem]
      exact ih

/-! ### Names -/

section Names

variable {line : Nat} {e : Fault}

theorem lookup_eq_ok_iff : (after past).state.lookup inner name line = .ok value ↔
    ∃ owner, Nearest past name inner owner ∧ LastStored owner name past value := by
  simp only [← (told past).owner?_iff]
  constructor
  · intro h
    rw [State.lookup, State.binding?] at h
    cases howner : (after past).state.owner? inner name with
    | none =>
      rw [howner] at h
      cases h
    | some owner =>
      obtain ⟨b, hb⟩ := State.exists_binding_of_owner? howner
      rw [howner, Option.bind_some, hb] at h
      cases h
      exact ⟨owner, rfl, (((told past).binding_iff _ _ _).mp hb).1⟩
  · rintro ⟨owner, howner, hstored⟩
    obtain ⟨b, hb⟩ := State.exists_binding_of_owner? howner
    have hdeclared := (told past).lastDeclared_of_get? hb
    have hvalue := ((told past).binding_iff owner name ⟨value, b.constant⟩).mpr ⟨hstored, hdeclared⟩
    rw [State.lookup, State.binding?, howner, Option.bind_some, hvalue]

theorem owner?_eq_none_iff : (after past).state.owner? inner name = none ↔
    ¬∃ owner, Nearest past name inner owner := by
  simp only [← (told past).owner?_iff, Option.eq_none_iff_forall_ne_some, not_exists, ne_eq]

theorem lookup_eq_error_iff : (after past).state.lookup inner name line = .error e ↔
    e = .unknownVariable name line ∧ ¬∃ owner, Nearest past name inner owner := by
  have hunknown : (after past).state.lookup inner name line = .error (.unknownVariable name line) ↔
      (after past).state.owner? inner name = none := State.lookup_eq_unknown_iff
  rw [← owner?_eq_none_iff, ← hunknown]
  constructor
  · intro h
    have he : e = .unknownVariable name line := by
      rw [State.lookup] at h
      split at h <;> cases h
      rfl
    exact ⟨he, he ▸ h⟩
  · rintro ⟨rfl, h⟩
    exact h

theorem assignment_eq_error_iff : (after past).state.assignment inner name value line = .error e ↔
    (e = .unknownVariable name line ∧ ¬∃ owner, Nearest past name inner owner) ∨
    (e = .constantReassignment name line ∧
      ∃ owner, Nearest past name inner owner ∧ LastDeclared owner name past true) := by
  rw [← owner?_eq_none_iff]
  simp only [← (told past).owner?_iff]
  obtain ⟨hnone, h⟩ | ⟨owner, b, howner, hb, h⟩ :=
    (after past).state.assignment_cases inner name value line
  · simp [h, hnone, eq_comm]
  · have hdeclared := (told past).lastDeclared_of_get? hb
    have hconstant : LastDeclared owner name past true ↔ b.constant = true :=
      ⟨fun h => hdeclared.unique h, fun h => h ▸ hdeclared⟩
    cases hflag : b.constant <;> simp [h, hflag, howner, hconstant, eq_comm]

theorem assignment_eq_ok_iff {w : Write} : (after past).state.assignment inner name value line = .ok w ↔
    ∃ owner, Nearest past name inner owner ∧ LastDeclared owner name past false ∧
      w = .binding owner name value := by
  simp only [← (told past).owner?_iff]
  obtain ⟨hnone, h⟩ | ⟨owner, b, howner, hb, h⟩ :=
    (after past).state.assignment_cases inner name value line
  · simp [h, hnone]
  · have hdeclared := (told past).lastDeclared_of_get? hb
    have hconstant : LastDeclared owner name past false ↔ b.constant = false :=
      ⟨fun h => hdeclared.unique h, fun h => h ▸ hdeclared⟩
    cases hflag : b.constant <;> simp [h, hflag, howner, hconstant, eq_comm]

end Names

end Forest

open Forest in
/-- Whatever a host does with scopes, a name gives the value that was stored last in the nearest scope that
has declared it, and is unknown if there is none. An assignment changes that one binding, or it is refused and
changes nothing. A clone is as good as the handle it was made from, ever after, and a new scope is none that
there was before. -/
theorem Forest.names_told (past : List Request) :
    (∀ (inner : ScopeId) (name : String) (line : Nat),
      (∀ value, (after past).state.lookup inner name line = .ok value ↔
        ∃ owner, Nearest past name inner owner ∧ LastStored owner name past value) ∧
      ∀ e, (after past).state.lookup inner name line = .error e ↔
        e = .unknownVariable name line ∧ ¬∃ owner, Nearest past name inner owner) ∧
    (∀ (handle : Nat) (inner : ScopeId) (name : String) (value : Value) (line : Nat),
      (after past).scope? handle = some inner →
        let assigned := after (.via handle (.assign name value line) :: past)
        (∀ e, (after past).state.assignment inner name value line = .error e ↔
          (e = .unknownVariable name line ∧ ¬∃ owner, Nearest past name inner owner) ∨
          (e = .constantReassignment name line ∧
            ∃ owner, Nearest past name inner owner ∧ LastDeclared owner name past true)) ∧
        (∀ e, (after past).state.assignment inner name value line = .error e → assigned = after past) ∧
        ∀ w, (after past).state.assignment inner name value line = .ok w →
          ∃ owner, Nearest past name inner owner ∧ LastDeclared owner name past false ∧
            (after past).state.Rebinds owner name ⟨value, false⟩ assigned.state ∧
            assigned.handles = (after past).handles) ∧
    (∀ (handle : Nat) (scope : ScopeId), (after past).scope? handle = some scope →
      (after (.via handle .clone :: past)).state = (after past).state ∧
      ∀ more, let later := after (more ++ .via handle .clone :: past)
        later.scope? handle = some scope ∧ later.scope? (after past).handles.size = some scope ∧
          ∀ act, later.serve (.via (after past).handles.size act) = later.serve (.via handle act)) ∧
    ∀ (c : Scope) (handle : Nat), (after past).scope? handle ≠ some ((after past).state.newScope c).1 := by
  refine ⟨fun inner name line => ⟨fun value => lookup_eq_ok_iff, fun e => lookup_eq_error_iff⟩,
    fun handle inner name value line h => ⟨fun e => assignment_eq_error_iff, fun e he => ?_, fun w hw => ?_⟩,
    fun handle scope h => ?_, fun c handle h => Nat.lt_irrefl _ ((told past).inside _ _ h)⟩
  · rw [after_via h, act, he]
  · obtain ⟨owner, howner, hdeclared, rfl⟩ := assignment_eq_ok_iff.mp hw
    obtain ⟨v, hstored⟩ := hdeclared.exists_lastStored
    have hbound := ((told past).binding_iff owner name ⟨v, false⟩).mpr ⟨hstored, hdeclared⟩
    rw [after_via h, act, hw]
    exact ⟨owner, howner, hdeclared, State.rebinds_write hbound, rfl⟩
  -- A clone hands out one more handle and touches nothing else.
  have hclone : after (.via handle .clone :: past) = (after past).grant (scope, (after past).state) :=
    after_via h
  refine ⟨by rw [hclone]; rfl, fun more => ?_⟩
  have hnew : (after (.via handle .clone :: past)).scope? (after past).handles.size = some scope := by
    rw [hclone]
    exact Array.getElem?_push_size
  have hold := scope?_append h (more ++ [.via handle .clone])
  rw [List.append_assoc, List.singleton_append] at hold
  have hnew' := scope?_append hnew more
  exact ⟨hold, hnew', fun act => by rw [serve, hnew', serve, hold]⟩

open Forest in
/-- The name `x` of the root, assigned to in a scope inside, has the new value there, and a clone of the root
stands for the root. -/
theorem Forest.names_told_inner :
    let past : List Request :=
      [.via 1 (.assign "x" (.string "new") 2), .via 0 (.enter .child),
        .via 0 (.declare "x" (.string "old") false), .root]
    (after past).state.lookup ⟨1⟩ "x" 3 = .ok (.string "new") ∧
    (∃ owner, Nearest past "x" ⟨1⟩ owner ∧ LastStored owner "x" past (.string "new")) ∧
    (after past).scope? 1 = some ⟨1⟩ ∧
    (after past).state.assignment ⟨1⟩ "x" .null 3 = .ok (.binding ⟨0⟩ "x" .null) ∧
    (∃ owner, Nearest past "x" ⟨1⟩ owner ∧ LastDeclared owner "x" past false ∧
      (after past).state.Rebinds owner "x" ⟨.null, false⟩
        (after (.via 1 (.assign "x" .null 3) :: past)).state) ∧
    (after past).scope? 0 = some ⟨0⟩ ∧
    (after ([.via 1 (.declare "x" .null true)] ++ .via 0 .clone :: past)).scope? 2 = some ⟨0⟩ := by
  intro past
  obtain ⟨hnames, hassign, hclone, -⟩ := Forest.names_told past
  have hlookup : (after past).state.lookup ⟨1⟩ "x" 3 = .ok (.string "new") := by cbv
  have hassignment : (after past).state.assignment ⟨1⟩ "x" .null 3 = .ok (.binding ⟨0⟩ "x" .null) := by cbv
  have hinner : (after past).scope? 1 = some ⟨1⟩ := by cbv
  have hroot : (after past).scope? 0 = some ⟨0⟩ := by cbv
  have hsize : (after past).handles.size = 2 := by cbv
  obtain ⟨owner, hnearest, hdeclared, hrebinds, -⟩ :=
    (hassign 1 ⟨1⟩ "x" .null 3 hinner).2.2 _ hassignment
  exact ⟨hlookup, ((hnames ⟨1⟩ "x" 3).1 _).mp hlookup, hinner, hassignment,
    ⟨owner, hnearest, hdeclared, hrebinds⟩, hroot,
    hsize ▸ ((hclone 0 ⟨0⟩ hroot).2 [.via 1 (.declare "x" .null true)]).2.1⟩

end ScriptLang
