import ScriptLang.Proofs.Evaluation
import ScriptLang.Proofs.Reachable

/-! What running code leaves alone. In every scope but the one it runs in, names stay as they are and
constants keep their values; in its own scope this is so for all names that it does not declare. -/

namespace ScriptLang

variable {D : Domain}

/-- A constant stays what it is, and what is not constant does not become so. -/
def Binding.Kept (before after : Binding) : Prop :=
  after.constant = before.constant ∧ (before.constant = true → after = before)

/-- No name is removed, and apart from the declared names none is added or bound anew. -/
structure Scope.Kept (declared : String → Prop) (before after : Scope) : Prop where
  removed : ∀ x ∈ before.bindings.keys, x ∈ after.bindings.keys
  added : ∀ x ∈ after.bindings.keys, x ∈ before.bindings.keys ∨ declared x
  bindings : ∀ x b, before.bindings.get? x = some b →
    declared x ∨ ∃ b', after.bindings.get? x = some b' ∧ b.Kept b'

namespace Scope.Kept

variable {declared declared' : String → Prop} {a b c : Scope}

theorem refl : a.Kept declared a :=
  ⟨fun _ => id, fun _ => .inl, fun _ b hb => .inr ⟨b, hb, rfl, fun _ => rfl⟩⟩

theorem mono (h : a.Kept declared b) (hd : ∀ x, declared x → declared' x) : a.Kept declared' b :=
  ⟨h.removed, fun x hx => (h.added x hx).imp_right (hd x),
    fun x v hv => (h.bindings x v hv).imp_left (hd x)⟩

theorem trans (h : a.Kept declared b) (h' : b.Kept declared c) : a.Kept declared c := by
  refine ⟨fun x hx => h'.removed x (h.removed x hx), fun x hx => ?_, fun x v hv => ?_⟩
  · rcases h'.added x hx with hx | hx
    · exact h.added x hx
    · exact .inr hx
  · rcases h.bindings x v hv with hx | ⟨v', hv', hflag, hvalue⟩
    · exact .inl hx
    rcases h'.bindings x v' hv' with hx | ⟨v'', hv'', hflag', hvalue'⟩
    · exact .inl hx
    refine .inr ⟨v'', hv'', hflag'.trans hflag, fun hconstant => ?_⟩
    rw [hvalue' (hflag.trans hconstant), hvalue hconstant]

theorem update {name : String} {old new : Binding} (hold : a.bindings.get? name = some old)
    (hflag : old.constant = false) (hnew : new.constant = false) :
    a.Kept declared { a with bindings := a.bindings.update name new } := by
  refine ⟨fun x hx => ?_, fun x hx => .inl ?_, fun x v hv => .inr ?_⟩
  · rwa [Record.keys_update]
  · rwa [Record.keys_update] at hx
  · by_cases hx : x = name
    · subst hx
      have hkey := Record.mem_keys_of_get? hold
      have hsame : v = old := by simpa [hold] using hv.symm
      subst hsame
      refine ⟨new, Record.get?_update_self hkey, hnew.trans hflag.symm, fun hconstant => ?_⟩
      rw [hflag] at hconstant
      cases hconstant
    · exact ⟨v, (Record.get?_update_of_ne hx).trans hv, rfl, fun _ => rfl⟩

theorem insert {name : String} {new : Binding} (hname : declared name) :
    a.Kept declared { a with bindings := a.bindings.insert name new } := by
  refine ⟨fun x hx => ?_, fun x hx => ?_, fun x v hv => ?_⟩
  · rw [Record.keys_insert]
    split
    · exact hx
    · exact List.mem_append_left _ hx
  · rw [Record.keys_insert] at hx
    split at hx
    · exact .inl hx
    · rcases List.mem_append.mp hx with hx | hx
      · exact .inl hx
      · rw [List.mem_singleton] at hx
        exact .inr (hx ▸ hname)
  · by_cases hx : x = name
    · exact .inl (hx ▸ hname)
    · exact .inr ⟨v, (Record.get?_insert_of_ne hx).trans hv, rfl, fun _ => rfl⟩

end Scope.Kept

/-- What becomes of the scopes of `s` until `s'` when code runs in `scope`. -/
structure State.Frame (s : State) (scope : ScopeId) (declared : String → Prop) (s' : State) :
    Prop where
  others : ∀ id, id.index < s.scopes.size → id ≠ scope →
    (s.scope id).Kept (fun _ => False) (s'.scope id)
  own : scope.index < s.scopes.size → (s.scope scope).Kept declared (s'.scope scope)

theorem Change.kept {s s' : State} (h : Change D s s') {id : ScopeId}
    (hid : id.index < s.scopes.size) {declared : String → Prop} :
    (s.scope id).Kept declared (s'.scope id) := by
  rcases h.scopes with heq | ⟨changed, name, v, b, hb, hconstant, rfl⟩
  · rw [State.scope, State.scope, heq]
    exact .refl
  · by_cases hne : id = changed
    · subst hne
      rw [State.scope_updateBindings_self hid]
      exact .update hb hconstant rfl
    · rw [State.scope_updateBindings_of_ne hne]
      exact .refl

namespace State.Frame

variable {s s' s'' : State} {scope : ScopeId} {declared : String → Prop}

theorem refl : s.Frame scope declared s :=
  ⟨fun _ _ _ => .refl, fun _ => .refl⟩

theorem trans (h : s.Frame scope declared s') (h' : s'.Frame scope declared s'')
    (hsize : s.scopes.size ≤ s'.scopes.size) : s.Frame scope declared s'' where
  others id hid hne := (h.others id hid hne).trans (h'.others id (Nat.lt_of_lt_of_le hid hsize) hne)
  own hid := (h.own hid).trans (h'.own (Nat.lt_of_lt_of_le hid hsize))

theorem change (h : Change D s s') : s.Frame scope declared s' :=
  ⟨fun _ hid _ => h.kept hid, fun hid => h.kept hid⟩

theorem declare {x : String} {v : Value} {constant : Bool} (hx : declared x) :
    s.Frame scope declared (s.declare scope x v constant) := by
  refine ⟨fun id hid hne => ?_, fun hid => ?_⟩
  · rw [State.declare, scope_updateBindings_of_ne hne]
    exact .refl
  · rw [State.declare, scope_updateBindings_self hid]
    exact .insert hx

/-- Of code that ran in a scope made for it, only what it left alone is to be seen. -/
theorem entered {kind : ScopeKind} {parent : ScopeId} {inner : String → Prop}
    (h : (s.enter kind parent).2.Frame (s.enter kind parent).1 inner s') :
    s.Frame scope declared s' := by
  have hkept : ∀ id : ScopeId, id.index < s.scopes.size →
      (s.scope id).Kept (fun _ => False) (s'.scope id) := by
    intro id hid
    have hold : (s.enter kind parent).2.scope id = s.scope id := scope_newScope_of_lt hid
    have hne : id ≠ (s.enter kind parent).1 := by
      rintro rfl
      exact Nat.lt_irrefl _ hid
    have hsize : id.index < (s.enter kind parent).2.scopes.size := by
      rw [size_enter]
      omega
    exact hold ▸ h.others id hsize hne
  exact ⟨fun id hid _ => hkept id hid, fun hid => (hkept scope hid).mono fun _ => False.elim⟩

end State.Frame

theorem Trail.frame {scope : ScopeId} {name : String → Prop} {s s' : State}
    (h : Trail D scope name s s') : s.Frame scope name s' := by
  induction h with
  | refl => exact .refl
  | change h hchange ih => exact ih.trans (.change hchange) h.size_scopes_le
  | declare h hx _ ih => exact ih.trans (.declare hx) h.size_scopes_le
  | enter kind h _ ih ihInner => exact ih.trans (.entered ihInner) h.size_scopes_le
  | @call scope closure name s s' s'' h _ _ _ ih ihInner =>
    have hcalled : s'.deeper.Frame scope name s'' := .entered ihInner
    have hreturned : s'.Frame scope name s''.shallower := ⟨hcalled.others, hcalled.own⟩
    exact ih.trans hreturned h.size_scopes_le

/-! ### Code and calls -/

/-- What can be run in a scope. -/
inductive Phrase
  | expression (e : Expr Nat)
  | statement (s : Stmt Nat)
  | block (body : List (Stmt Nat))

namespace Phrase

def run (scope : ScopeId) : Phrase → Eval Value
  | expression e => Eval.expression scope e
  | statement s => Eval.execute scope s
  | block body => Eval.perform (.block scope body)

def Permitted (p : Permit) : Phrase → Prop
  | expression e => e.Permitted p
  | statement s => s.Permitted p
  | block body => Permit.Stmts p body

/-- Whether the phrase contains a declaration of the name for the very scope it runs in. Handlers of
errors declare `error`. -/
def Declares (phrase : Phrase) (x : String) : Prop :=
  ¬ phrase.Permitted ⟨True, (· ≠ x)⟩

theorem permitted_anyName (phrase : Phrase) : phrase.Permitted (.anyName True) := by
  cases phrase with
  | expression e => exact e.permitted_anyName
  | statement s => exact s.permitted_anyName
  | block body => exact Permit.stmts_anyName body

end Phrase

theorem Site.Runs.phrase {k : Site D} {l : Limits} {phrase : Phrase} (hloop : D.loop)
    (h : phrase.Permitted k.permit) : k.Runs l (phrase.run k.scope) (·.Within D) := by
  cases phrase with
  | expression e => exact .expression h (.inl hloop)
  | statement s => exact .execute h (.inl hloop)
  | block body => exact .perform ⟨rfl, h, trivial, .inl hloop⟩

/-- Where a run starts whose depth of calls does not matter. -/
def State.limits (s : State) : Limits :=
  ⟨False, s.depth, s.maxDepth, 0, False.elim⟩

/-- Where code starts in a state of which it can reach only the natives of every program. -/
theorem State.ready_reachable {s : State} {roots : List Node} {k : Site (s.reachable roots True)}
    (hnative : ∀ f, s.Reaches roots (.value (.native f)) → f.builtin.IsPrelude)
    (hcontrol : k.control) : k.Ready s.limits s :=
  ⟨State.within_reachable (fun f _ => f.permitted_anyName) hnative,
    ⟨fun _ => hcontrol, .inl hcontrol⟩, rfl, rfl⟩

theorem Phrase.frame {s s' : State} {scope : ScopeId} {phrase : Phrase} {o : Outcome}
    (hnative : ∀ f, s.Reaches [.cell (.scope scope)] (.value (.native f)) → f.builtin.IsPrelude)
    (hends : (phrase.run scope).Ends s o s') : s.Frame scope phrase.Declares s' := by
  have hcell : (s.reachable [.cell (.scope scope)] True).cell (.scope scope) :=
    .inl (.root List.mem_cons_self)
  have hframe : ∀ name : String → Prop, phrase.Permitted ⟨True, name⟩ → s.Frame scope name s' := by
    intro name hpermitted
    let k : Site (s.reachable [.cell (.scope scope)] True) := ⟨scope, name, True, hcell⟩
    have hruns : k.Runs s.limits (phrase.run scope) (·.Within _) := .phrase trivial hpermitted
    exact (hruns.trail (State.ready_reachable hnative trivial) hends).1.frame
  -- A name that is not declared may be left out of what is permitted.
  have hname : ∀ x, phrase.Declares x ∨ s.Frame scope (· ≠ x) s' := by
    intro x
    by_cases hx : phrase.Permitted ⟨True, (· ≠ x)⟩
    · exact .inr (hframe _ hx)
    · exact .inl hx
  have hany := hframe _ phrase.permitted_anyName
  refine ⟨hany.others, fun hid => ⟨(hany.own hid).removed, fun x hx => ?_, fun x b hb => ?_⟩⟩
  · rcases hname x with hdeclared | hkept
    · exact .inr hdeclared
    · exact ((hkept.own hid).added x hx).imp_right fun hne => absurd rfl hne
  · rcases hname x with hdeclared | hkept
    · exact .inl hdeclared
    · exact ((hkept.own hid).bindings x b hb).imp_left fun hne => absurd rfl hne

theorem Closure.call_kept {s s' : State} {f : Closure} {arguments : List Value} {line : Nat}
    {o : Outcome} (hnative : ∀ g, s.Reaches (.value (.function f) :: arguments.map .value)
      (.value (.native g)) → g.builtin.IsPrelude)
    (hends : (Eval.callFunction f arguments line).Ends s o s') {id : ScopeId}
    (hid : id.index < s.scopes.size) : (s.scope id).Kept (fun _ => False) (s'.scope id) := by
  let roots : List Node := .value (.function f) :: arguments.map .value
  have hwithin : s.Within (s.reachable roots True) :=
    State.within_reachable (fun f _ => f.permitted_anyName) hnative
  -- The call runs in no scope of its caller, so the site is one that is yet to be made.
  let k : Site (s.reachable roots True) :=
    ⟨⟨s.scopes.size⟩, fun _ => True, True, hwithin.fresh _ (Nat.lt_irrefl _)⟩
  have hvalue : ∀ v, .value v ∈ roots → v.Within (s.reachable roots True) :=
    fun v hv => State.reachable_value (fun f _ => f.permitted_anyName) hnative (.root hv)
  have hruns : k.Runs s.limits (Eval.callFunction f arguments line) (·.Within _) :=
    .callFunction (hvalue (.function f) List.mem_cons_self)
      fun v hv => hvalue v (List.mem_cons_of_mem _ (List.mem_map_of_mem hv))
  have hframe := (hruns.trail (State.ready_reachable hnative trivial) hends).1.frame
  exact hframe.others id hid fun heq => Nat.lt_irrefl _ (heq ▸ hid)

/-- Running code in a scope keeps all other scopes as they are except for the values of variables, and
in its own scope keeps what it does not declare; a call keeps all scopes so. -/
theorem State.scopes_kept (s : State) :
    (∀ (scope : ScopeId) (phrase : Phrase) (o : Outcome) (s' : State),
      (∀ f, s.Reaches [.cell (.scope scope)] (.value (.native f)) → f.builtin.IsPrelude) →
      (phrase.run scope).Ends s o s' → s.Frame scope phrase.Declares s') ∧
    ∀ (f : Closure) (arguments : List Value) (line : Nat) (o : Outcome) (s' : State),
      (∀ g, s.Reaches (.value (.function f) :: arguments.map .value) (.value (.native g)) →
        g.builtin.IsPrelude) →
      (Eval.callFunction f arguments line).Ends s o s' →
      ∀ id : ScopeId, id.index < s.scopes.size →
        (s.scope id).Kept (fun _ => False) (s'.scope id) :=
  ⟨fun _ _ _ _ => Phrase.frame, fun _ _ _ _ _ hnative hends _ => Closure.call_kept hnative hends⟩

/-- A scope with the constant `c` around another one. -/
def nested : State :=
  { State.initial 0 with
    scopes := #[⟨none, ⟨[("c", ⟨.bool true, true⟩)]⟩, false⟩, ⟨some ⟨0⟩, .empty, false⟩] }

theorem nested_within : nested.Within ⟨fun _ => True, True⟩ := by
  have hempty : ∀ {α : Type} {i : Nat} {a : α} {P : Prop}, (#[] : Array α)[i]? = some a → P :=
    fun h => by simp at h
  refine ⟨fun id c _ hc => ⟨fun entry hentry => ?_, fun _ _ => trivial⟩, fun _ _ _ => hempty,
    fun _ _ _ => hempty, fun _ _ _ => hempty, fun _ _ _ => hempty, fun _ _ => trivial⟩
  have hmem := Array.mem_of_getElem? hc
  simp only [nested, List.mem_toArray, List.mem_cons, List.not_mem_nil, or_false] at hmem
  rcases hmem with rfl | rfl
  · rw [List.mem_singleton] at hentry
    subst hentry
    trivial
  · cases hentry

/-- Declaring a function `c` in the inner scope leaves the constant alone. -/
theorem nested_kept :
    ∃ o s', ((Phrase.block [.function (.mk 0 "c" [] [] 1)]).run ⟨1⟩).Ends nested o s' ∧
      (nested.scope ⟨0⟩).Kept (fun _ => False) (s'.scope ⟨0⟩) := by
  have hends : ((Phrase.block [.function (.mk 0 "c" [] [] 1)]).run ⟨1⟩).Ends nested
      (.ok (.function ⟨.mk 0 "c" [] [] 1, ⟨1⟩, none⟩))
      (nested.declare ⟨1⟩ "c" (.function ⟨.mk 0 "c" [] [] 1, ⟨1⟩, none⟩) true) :=
    ⟨3, rfl⟩
  have hnative : ∀ f, nested.Reaches [.cell (.scope ⟨1⟩)] (.value (.native f)) →
      f.builtin.IsPrelude := by
    refine fun f => nested_within.reaches fun root hroot => ?_
    rw [List.mem_singleton] at hroot
    subst hroot
    trivial
  have hframe := (State.scopes_kept nested).1 ⟨1⟩ _ _ _ hnative hends
  exact ⟨_, _, hends, hframe.others ⟨0⟩ (by decide) (by decide)⟩

end ScriptLang
