import ScriptLang.Proofs.Site

/-! Rules for code that runs in a site. There is one for each operation that evaluation is built
from. -/

namespace ScriptLang

variable {D : Domain} {α β : Type}

namespace Site

structure Ready (k : Site D) (l : Limits) (s : State) : Prop where
  within : s.Within D
  fits : k.Fits s
  depth_eq : s.depth = l.depth
  maxDepth_eq : s.maxDepth = l.maxDepth

/-- From every state the site may be in, the computation leaves a trail from the site. -/
def Runs (k : Site D) (l : Limits) (c : Eval α) (good : α → Prop) : Prop :=
  ∀ s, k.Ready l s → c.Meets (l.contract D) s fun r s' =>
    Trail D k.scope k.name s s' ∧
      match r with
      | .ok a => good a
      | .error signal => signal.Within D k.control

variable {k : Site D} {l : Limits} {good : α → Prop}

theorem Ready.trail {s s' : State} (h : k.Ready l s) (htrail : Trail D k.scope k.name s s') :
    k.Ready l s' where
  within := htrail.within h.within k.cell
  fits := h.fits.trail htrail
  depth_eq := htrail.depth_eq.trans h.depth_eq
  maxDepth_eq := htrail.maxDepth_eq.trans h.maxDepth_eq

theorem Ready.enter {s : State} (h : k.Ready l s) (kind : ScopeKind) :
    (k.inside kind (s.enter kind k.scope).1 (h.within.entered kind k.scope)).Ready l (s.enter kind k.scope).2 where
  within := h.within.enter k.cell
  fits := h.fits.enter kind _
  depth_eq := h.depth_eq
  maxDepth_eq := h.maxDepth_eq

namespace Runs

theorem pure {a : α} (h : good a) : k.Runs l (Pure.pure a) good :=
  fun _ _ => Eval.meets_pure.mpr ⟨.refl, h⟩

theorem throw {signal : Signal} (h : signal.Within D k.control) :
    k.Runs l (MonadExcept.throw signal : Eval α) good :=
  fun _ _ => Eval.meets_throw.mpr ⟨.refl, h⟩

theorem fault {f : Fault} : k.Runs l (Eval.fault f) good :=
  throw trivial

theorem ofExcept {result : Except RuntimeError α}
    (h : match result with
      | .ok a => good a
      | .error error => error.Within D) : k.Runs l (Eval.ofExcept result) good := by
  cases result with
  | ok a => exact pure h
  | error error => exact throw h

theorem bind {good' : β → Prop} {c : Eval α} {f : α → Eval β} (hc : k.Runs l c good)
    (hf : ∀ a, good a → k.Runs l (f a) good') : k.Runs l (c >>= f) good' := by
  intro s hs
  rw [Eval.meets_bind]
  refine (hc s hs).mono ?_
  rintro (signal | a) s' ⟨htrail, hr⟩
  · exact ⟨htrail, hr⟩
  · refine (hf a hr s' (hs.trail htrail)).mono ?_
    rintro r s'' ⟨htrail', hr'⟩
    exact ⟨htrail.trans htrail', hr'⟩

theorem get_bind {f : State → Eval α} (h : ∀ s, k.Ready l s → (f s).Meets (l.contract D) s fun r s' =>
      Trail D k.scope k.name s s' ∧
        match r with
        | .ok a => good a
        | .error signal => signal.Within D k.control) :
    k.Runs l (get >>= f) good := by
  intro s hs
  rw [Eval.meets_bind, Eval.meets_get]
  exact h s hs

theorem create {f : State → α × State}
    (h : ∀ s, k.Ready l s → Trail D k.scope k.name s (f s).2 ∧ good (f s).1) :
    k.Runs l (Eval.create f) good :=
  fun s hs => Eval.meets_create.mpr (h s hs)

theorem inspect {f : State → Except Fault α} (h : ∀ s a, k.Ready l s → f s = .ok a → good a) :
    k.Runs l (Eval.inspect f) good := by
  refine get_bind fun s hs => ?_
  split
  · next a ha => exact pure (h s a hs ha) s hs
  · exact fault s hs

theorem write {find : State → Except Fault Write}
    (h : ∀ s w, k.Ready l s → find s = .ok w → w.Allowed s ∧ w.value.Within D) :
    k.Runs l (Eval.write find) fun _ => True := by
  intro s hs
  rw [Eval.write, Eval.meets_bind, Eval.inspect, Eval.meets_bind, Eval.meets_get]
  cases hw : find s with
  | error f =>
    simp only [hw]
    exact ⟨.refl, trivial⟩
  | ok w =>
    obtain ⟨hallowed, hvalue⟩ := h s w hs hw
    simp only [hw, Eval.meets_pure]
    exact Eval.meets_modify.mpr ⟨.change .refl (.write hallowed hvalue), trivial⟩

theorem declare {x : String} {v : Value} {constant : Bool} (hx : k.name x) (hv : v.Within D) :
    k.Runs l (Eval.declare k.scope x v constant) fun _ => True :=
  fun _ _ => Eval.meets_modify.mpr ⟨.declare .refl hx hv, trivial⟩

/-! ### Tasks -/

/-- What a task has to be for code in the site to ask for it. -/
structure Asks (k : Site D) (l : Limits) (t : Task) : Prop where
  scope : k.scope = t.scope
  permitted : t.Permitted k.permit
  pending : t.pending.Within D
  size : D.loop ∨ t.size < l.size

theorem Asks.pre {t : Task} (h : Asks k l t) {s : State} (hs : k.Ready l s) :
    (l.contract D).pre t s where
  left :=
    { within := hs.within
      cell := h.scope ▸ k.cell
      permitted := ⟨k.name, h.permitted⟩
      pending := h.pending
      depth_le := by rw [hs.depth_eq, hs.maxDepth_eq]; exact l.depth_le }
  right := ⟨hs.maxDepth_eq, h.size.imp_right fun hsize => .inr ⟨hs.depth_eq, hsize⟩⟩

theorem perform {t : Task} (h : Asks k l t) : k.Runs l (Eval.perform t) (·.Within D) := by
  intro s hs
  refine Eval.meets_perform.mpr ⟨h.pre hs, fun o s' hpost => ?_⟩
  obtain ⟨htrail, ho⟩ := hpost k h.scope h.permitted hs.fits
  refine ⟨htrail, ?_⟩
  cases o <;> exact ho

theorem expression {e : Expr Nat} (he : e.Permitted k.permit)
    (hsize : D.loop ∨ sizeOf e < l.size) : k.Runs l (Eval.expression k.scope e) (·.Within D) :=
  perform ⟨rfl, he, trivial, hsize⟩

theorem mapM {γ : Type} {xs : List γ} {f : γ → Eval α} (h : ∀ x ∈ xs, k.Runs l (f x) good) :
    k.Runs l (xs.mapM f) fun results => ∀ a ∈ results, good a := by
  induction xs with
  | nil => exact pure (by simp)
  | cons x rest ih =>
    have hfirst := h x List.mem_cons_self
    have hrest := ih fun y hy => h y (List.mem_cons_of_mem _ hy)
    rw [List.mapM_cons]
    refine hfirst.bind fun a ha => hrest.bind fun results hresults => pure ?_
    intro b hb
    rcases List.mem_cons.mp hb with rfl | hb
    · exact ha
    · exact hresults b hb

theorem expressions {es : List (Expr Nat)} (hes : Permit.Exprs k.permit es)
    (hsize : l.Covers D (sizeOf es)) :
    k.Runs l (Eval.expressions k.scope es) fun vs => ∀ v ∈ vs, v.Within D :=
  mapM fun e he => expression (Permit.exprs_iff.mp hes e he) (hsize.lt (List.sizeOf_lt_of_mem he))

theorem fields {fields : List (String × Expr Nat)} (hfields : Permit.Fields k.permit fields)
    (hsize : l.Covers D (sizeOf fields)) :
    k.Runs l (fields.mapM fun (name, e) => return (name, ← Eval.expression k.scope e))
      fun entries => ∀ entry ∈ entries, entry.2.Within D := by
  refine mapM fun field hfield => ?_
  obtain ⟨name, e⟩ := field
  have hlt := List.sizeOf_lt_of_mem hfield
  have he : e.Permitted k.permit := Permit.fields_iff.mp hfields _ hfield
  have hsize' := hsize.lt (m := sizeOf e) (by simp only [Prod.mk.sizeOf_spec] at hlt; omega)
  exact (expression he hsize').bind fun v hv => pure hv

/-! ### Scopes of their own -/

theorem enter {f : ScopeId → Eval α}
    (h : ∀ inner cell, (k.inside .child inner cell).Runs l (f inner) good) :
    k.Runs l (Eval.create (·.enter .child k.scope) >>= f) good := by
  intro s hs
  rw [Eval.meets_bind, Eval.meets_create]
  refine (h _ (hs.within.entered .child k.scope) _ (hs.enter .child)).mono ?_
  rintro r s' ⟨htrail, hr⟩
  exact ⟨.enter .child .refl htrail, hr⟩

theorem enter_attempt {kind : ScopeKind} {body : List (Stmt Nat)} {f : Outcome → Eval α}
    (hbody : Permit.Stmts k.permit.inside body) (hsize : D.loop ∨ sizeOf body < l.size)
    (hf : ∀ o inner cell, o.Within D (k.inside kind inner cell).control → k.Runs l (f o) good) :
    k.Runs l (Eval.create (·.enter kind k.scope) >>= fun inner =>
      Eval.attempt (.block inner body) >>= f) good := by
  intro s hs
  rw [Eval.meets_bind, Eval.meets_create]
  change Eval.Meets _ (_ >>= f) _ _
  rw [Eval.meets_bind]
  have hinner := hs.enter kind
  have hasks : Asks (k.inside kind _ (hs.within.entered kind k.scope)) l (.block (s.enter kind k.scope).1 body) :=
    ⟨rfl, hbody, trivial, hsize⟩
  refine Eval.meets_attempt.mpr ⟨hasks.pre hinner, fun o s' hpost => ?_⟩
  obtain ⟨htrail, ho⟩ := hpost _ hasks.scope hasks.permitted hinner.fits
  have hentered : Trail D k.scope k.name s s' := .enter kind .refl htrail
  refine (hf o _ _ ho s' (hs.trail hentered)).mono ?_
  rintro r s'' ⟨htrail', hr⟩
  exact ⟨hentered.trans htrail', hr⟩

theorem blockIn {body : List (Stmt Nat)} (hbody : Permit.Stmts k.permit.inside body)
    (hsize : D.loop ∨ sizeOf body < l.size) :
    k.Runs l (Eval.blockIn .child k.scope body) (·.Within D) :=
  enter fun _ _ => perform ⟨rfl, hbody, trivial, hsize⟩

end Runs

end Site

end ScriptLang
