import ScriptLang.Proofs.Depth
import ScriptLang.Proofs.Progress
import ScriptLang.Proofs.Site

/-! Where code runs, with regard to loops. A spot knows whether it lies in the body of a loop, and from it
every task is asked for in a scope that permits loop control exactly if the task lies so: the body of a
loop does, the body of a function does not, and all else lies where the spot lies. What holds of values
holds from a number of classes on. -/

namespace ScriptLang

variable {N : Norm} {n : Nat} {α β : Type}

/-! ### Ends -/

/-- `control` says whether `break` and `continue` may be an end. -/
def Signal.Conforms (N : Norm) (n : Nat) (control : Bool) : Signal → Prop
  | raised error => error.Conforms N n
  | returned value => value.Conforms N n
  | broke | continued => control = true

def Outcome.Conforms (N : Norm) (n : Nat) (control : Bool) : Outcome → Prop
  | .ok value => value.Conforms N n
  | .error signal => signal.Conforms N n control

theorem Signal.Conforms.mono {n' : Nat} {control : Bool} {signal : Signal} (hn : n ≤ n')
    (h : signal.Conforms N n control) : signal.Conforms N n' control := by
  cases signal with
  | raised error => exact RuntimeError.Conforms.mono hn h
  | returned value => exact Value.Conforms.mono hn h
  | broke | continued => exact h

theorem RuntimeError.caught_conforms {error : RuntimeError} (h : error.Conforms N n) :
    error.caught.Conforms N n := by
  cases error with
  | thrown value line => exact h
  | fault f => trivial

theorem Outcome.result_conforms {o : Outcome} (h : o.Conforms N n false) :
    Returns.Conforms N n o.result := by
  match o with
  | .ok value => exact h
  | .error (.returned value) => exact h
  | .error (.raised error) => exact h
  | .error .broke => cases h
  | .error .continued => cases h

/-! ### Tasks -/

namespace Task

def located (inLoop : Bool) : Task → List (Bool × Stmt Nat)
  | expression _ e => e.located inLoop
  | block _ body => Located.stmts inLoop body
  | whileLoop _ test body _ => test.located inLoop ++ Located.stmts true body
  | forLoop _ test update body =>
    test.located inLoop ++ update.located inLoop ++ Located.stmts true body

/-- Whether the blocks that the task asks for are bodies of a loop. -/
def isLoop : Task → Bool
  | whileLoop .. | forLoop .. => true
  | expression .. | block .. => false

def isBlock : Task → Bool
  | block .. => true
  | expression .. | whileLoop .. | forLoop .. => false

end Task

namespace Norm

structure Begins (N : Norm) (t : Task) (s : State) : Prop where
  conforms : s.Conforms N
  scope_lt : t.scope.index < s.scopes.size
  code : N.Knows (t.located (s.permitsLoopControl t.scope))
  pending : t.pending.Conforms N s.classes.size

def Concludes (N : Norm) (t : Task) (s : State) (o : Outcome) (s' : State) : Prop :=
  s.Progress N s' ∧ o.Conforms N s'.classes.size (s.permitsLoopControl t.scope)

def contract (N : Norm) : Contract :=
  ⟨N.Begins, N.Concludes⟩

end Norm

/-! ### Spots -/

/-- A scope that code runs in during a call at some depth. `loops` says whether the code is a loop, whose
blocks are its bodies. -/
structure Spot where
  scope : ScopeId
  inLoop : Bool
  loops : Bool
  depth : Nat

namespace Spot

/-- Whether a task that is asked for at the spot lies in the body of a loop. -/
def label (k : Spot) (t : Task) : Bool :=
  k.inLoop || (k.loops && t.isBlock)

def contract (k : Spot) (N : Norm) : Contract where
  pre t s := N.Begins t s ∧
    (s.depth = k.depth ∧ s.permitsLoopControl t.scope = k.label t ∨
      s.depth = k.depth + 1 ∧ s.permitsLoopControl t.scope = false)
  post := N.Concludes

def inside (k : Spot) (inner : ScopeId) : Spot :=
  { k with scope := inner }

structure Ready (k : Spot) (N : Norm) (s : State) : Prop where
  conforms : s.Conforms N
  scope_lt : k.scope.index < s.scopes.size
  permits_eq : s.permitsLoopControl k.scope = k.inLoop
  depth_eq : s.depth = k.depth

/-- Progress to an end that is good or conforms as a signal. -/
structure Makes (k : Spot) (N : Norm) (good : Nat → α → Prop) (s : State) (r : Except Signal α)
    (s' : State) : Prop where
  progress : s.Progress N s'
  end_good :
    match r with
    | .ok a => good s'.classes.size a
    | .error signal => signal.Conforms N s'.classes.size k.inLoop

/-- From every state the spot may be in, the computation makes something good or ends by a signal. -/
def Runs (k : Spot) (N : Norm) (n : Nat) (c : Eval α) (good : Nat → α → Prop) : Prop :=
  ∀ s, k.Ready N s → n ≤ s.classes.size → c.Meets (k.contract N) s (k.Makes N good s)

variable {k : Spot} {s s' s'' : State} {good : Nat → α → Prop} {good' : Nat → β → Prop}

theorem Makes.after {r : Except Signal α} (h : k.Makes N good s' r s'') (hs : s.Progress N s') :
    k.Makes N good s r s'' :=
  ⟨hs.trans h.progress, h.end_good⟩

theorem Ready.progress (h : k.Ready N s) (hs : s.Progress N s') : k.Ready N s' where
  conforms := hs.conforms
  scope_lt := Nat.lt_of_lt_of_le h.scope_lt hs.scopes_le
  permits_eq := (hs.permits_eq _ h.scope_lt).trans h.permits_eq
  depth_eq := hs.depth_eq.trans h.depth_eq

theorem Ready.enter (h : k.Ready N s) :
    (k.inside (s.enter .child k.scope).1).Ready N (s.enter .child k.scope).2 where
  conforms := h.conforms.progress_enter.conforms
  scope_lt := State.enter_fst_lt
  permits_eq := State.permitsLoopControl_enter.trans h.permits_eq
  depth_eq := h.depth_eq

namespace Runs

theorem pure {a : α} (h : ∀ n', n ≤ n' → good n' a) : k.Runs N n (Pure.pure a) good :=
  fun _ hs hn => Eval.meets_pure.mpr ⟨hs.conforms.progress_refl, h _ hn⟩

theorem value {v : Value} (h : v.Conforms N n) :
    k.Runs N n (Pure.pure v) (Value.Conforms N) :=
  pure fun _ hn => h.mono hn

theorem throw {signal : Signal} (h : ∀ n', n ≤ n' → signal.Conforms N n' k.inLoop) :
    k.Runs N n (MonadExcept.throw signal : Eval α) good :=
  fun _ hs hn => Eval.meets_throw.mpr ⟨hs.conforms.progress_refl, h _ hn⟩

theorem fault {f : Fault} (h : f.Conforms N) : k.Runs N n (Eval.fault f) good :=
  throw fun _ _ => h

theorem bind {c : Eval α} {f : α → Eval β} (hc : k.Runs N n c good)
    (hf : ∀ n' a, n ≤ n' → good n' a → k.Runs N n' (f a) good') :
    k.Runs N n (c >>= f) good' := by
  intro s hs hn
  rw [Eval.meets_bind]
  refine (hc s hs hn).mono ?_
  rintro (signal | a) s' ⟨hprogress, hr⟩
  · exact ⟨hprogress, hr⟩
  · have hn' := Nat.le_trans hn hprogress.classes_le
    exact (hf _ a hn' hr s' (hs.progress hprogress) (Nat.le_refl _)).mono
      fun _ _ hmakes => hmakes.after hprogress

theorem get_bind {f : State → Eval α}
    (h : ∀ s, k.Ready N s → n ≤ s.classes.size → k.Runs N s.classes.size (f s) good) :
    k.Runs N n (get >>= f) good := by
  intro s hs hn
  rw [Eval.meets_bind, Eval.meets_get]
  exact h s hs hn s hs (Nat.le_refl _)

theorem create {f : State → α × State}
    (h : ∀ s, k.Ready N s → n ≤ s.classes.size →
      s.Progress N (f s).2 ∧ good (f s).2.classes.size (f s).1) :
    k.Runs N n (Eval.create f) good :=
  fun s hs hn => Eval.meets_create.mpr ⟨(h s hs hn).1, (h s hs hn).2⟩

theorem later {c : Eval α} {n' : Nat} (h : k.Runs N n c good) (hn : n ≤ n') :
    k.Runs N n' c good :=
  fun s hs hn' => h s hs (Nat.le_trans hn hn')

theorem inspect {f : State → Except Fault α}
    (h : ∀ s, k.Ready N s → n ≤ s.classes.size → Finds N (f s) (good s.classes.size)) :
    k.Runs N n (Eval.inspect f) good := by
  intro s hs hn
  have hfinds := h s hs hn
  rw [Eval.inspect, Eval.meets_bind, Eval.meets_get]
  dsimp only
  cases hf : f s with
  | ok a =>
    rw [hf] at hfinds
    exact ⟨hs.conforms.progress_refl, hfinds⟩
  | error e =>
    rw [hf] at hfinds
    exact ⟨hs.conforms.progress_refl, hfinds⟩

theorem change {f : State → State} (h : ∀ s, k.Ready N s → n ≤ s.classes.size → s.Progress N (f s)) :
    k.Runs N n (modify f) fun _ _ => True :=
  fun s hs hn => Eval.meets_modify.mpr ⟨h s hs hn, trivial⟩

theorem write {find : State → Except Fault Write} {v : Value} (hv : v.Conforms N n)
    (h : ∀ s, Finds N (find s) (·.value = v)) :
    k.Runs N n (Eval.write find) fun _ _ => True := by
  have hfound : k.Runs N n (Eval.inspect find) fun n' w => w.value.Conforms N n' := by
    refine inspect fun s _ hn => ?_
    have hfinds := h s
    cases hw : find s with
    | ok w =>
      rw [hw] at hfinds
      obtain rfl : w.value = v := hfinds
      exact hv.mono hn
    | error f =>
      rw [hw] at hfinds
      exact hfinds
  exact hfound.bind fun n' w _ hw => change fun s hs hn => hs.conforms.progress_write (hw.mono hn)

theorem declare {scope : ScopeId} {x : String} {v : Value} {constant : Bool}
    (hv : v.Conforms N n) : k.Runs N n (Eval.declare scope x v constant) fun _ _ => True :=
  change fun _ hs hn => hs.conforms.progress_declare (hv.mono hn)

theorem ofExcept {result : Except RuntimeError Value} (h : Returns.Conforms N n result) :
    k.Runs N n (Eval.ofExcept result) (Value.Conforms N) := by
  cases result with
  | ok v => exact value h
  | error error => exact throw fun _ hn => RuntimeError.Conforms.mono hn h

/-! ### Asking for tasks -/

/-- What a task has to be for code at the spot to ask for it in the spot's own scope. -/
structure Asks (k : Spot) (N : Norm) (n : Nat) (t : Task) : Prop where
  scope_eq : k.scope = t.scope
  label_eq : k.label t = k.inLoop
  code : N.Knows (t.located k.inLoop)
  pending : t.pending.Conforms N n

theorem Asks.of_not_isBlock {t : Task} (hscope : k.scope = t.scope) (hblock : t.isBlock = false)
    (hcode : N.Knows (t.located k.inLoop)) (hpending : t.pending.Conforms N n) : Asks k N n t :=
  ⟨hscope, by rw [label, hblock, Bool.and_false, Bool.or_false], hcode, hpending⟩

theorem perform {t : Task} (h : Asks k N n t) :
    k.Runs N n (Eval.perform t) (Value.Conforms N) := by
  intro s hs hn
  have hpermits : s.permitsLoopControl t.scope = k.inLoop := h.scope_eq ▸ hs.permits_eq
  have hbegins : N.Begins t s :=
    ⟨hs.conforms, h.scope_eq ▸ hs.scope_lt, hpermits ▸ h.code, h.pending.mono hn⟩
  refine Eval.meets_perform.mpr
    ⟨⟨hbegins, .inl ⟨hs.depth_eq, hpermits.trans h.label_eq.symm⟩⟩, fun o s' hpost => ?_⟩
  obtain ⟨hprogress, ho⟩ := hpost
  rw [hpermits] at ho
  refine ⟨hprogress, ?_⟩
  cases o <;> exact ho

theorem expression {e : Expr Nat} (he : N.Knows (e.located k.inLoop)) :
    k.Runs N n (Eval.expression k.scope e) (Value.Conforms N) :=
  perform (.of_not_isBlock rfl rfl he trivial)

theorem block {body : List (Stmt Nat)} (hloops : k.loops = false)
    (hbody : N.Knows (Located.stmts k.inLoop body)) :
    k.Runs N n (Eval.perform (.block k.scope body)) (Value.Conforms N) :=
  perform ⟨rfl, by simp [label, hloops], hbody, trivial⟩

theorem mapM {γ : Type} {xs : List γ} {f : γ → Eval α}
    (hgood : ∀ {m m' : Nat} {a : α}, m ≤ m' → good m a → good m' a)
    (h : ∀ x ∈ xs, k.Runs N n (f x) good) :
    k.Runs N n (xs.mapM f) fun n results => ∀ a ∈ results, good n a := by
  induction xs with
  | nil => exact pure (by simp)
  | cons x rest ih =>
    have hfirst := h x List.mem_cons_self
    have hrest := ih fun y hy => h y (List.mem_cons_of_mem _ hy)
    rw [List.mapM_cons]
    refine hfirst.bind fun m a hm ha => (hrest.later hm).bind fun m' results hm' hresults => ?_
    refine pure fun n' hn' b hb => ?_
    rcases List.mem_cons.mp hb with rfl | hb
    · exact hgood (Nat.le_trans hm' hn') ha
    · exact hgood hn' (hresults b hb)

theorem expressions {es : List (Expr Nat)} (hes : N.Knows (Located.exprs k.inLoop es)) :
    k.Runs N n (Eval.expressions k.scope es) fun n vs => ∀ v ∈ vs, v.Conforms N n :=
  mapM (fun hm hv => hv.mono hm) fun e he =>
    expression fun x hx => hes x (Located.mem_exprs.mpr ⟨e, he, hx⟩)

theorem fields {properties : List (String × Expr Nat)}
    (hproperties : N.Knows (Located.fields k.inLoop properties)) :
    k.Runs N n (properties.mapM fun (name, e) => return (name, ← Eval.expression k.scope e))
      fun n entries => ∀ entry ∈ entries, entry.2.Conforms N n := by
  refine mapM (fun hm hv => hv.mono hm) fun field hfield => ?_
  have he : N.Knows (field.2.located k.inLoop) :=
    fun x hx => hproperties x (Located.mem_fields.mpr ⟨field, hfield, hx⟩)
  exact (expression he).bind fun m v _ hv => pure fun n' hn' => hv.mono hn'

/-! ### Scopes of their own -/

theorem enter {f : ScopeId → Eval α} (h : ∀ inner, (k.inside inner).Runs N n (f inner) good) :
    k.Runs N n (Eval.create (·.enter .child k.scope) >>= f) good := by
  intro s hs hn
  rw [Eval.meets_bind, Eval.meets_create]
  exact (h _ _ hs.enter hn).mono fun _ _ hmakes =>
    ⟨hs.conforms.progress_enter.trans hmakes.progress, hmakes.end_good⟩

/-- After the block, whose end is looked at, the computation goes on at the spot. The blocks of a loop are
its bodies. -/
theorem enter_attempt {kind : ScopeKind} {body : List (Stmt Nat)} {f : Outcome → Eval α}
    (hkind : kind = if k.loops then .loop else .child)
    (hbody : N.Knows (Located.stmts (k.inLoop || k.loops) body))
    (hf : ∀ n' o, n ≤ n' → o.Conforms N n' (k.inLoop || k.loops) → k.Runs N n' (f o) good) :
    k.Runs N n (Eval.create (·.enter kind k.scope) >>= fun inner =>
      Eval.attempt (.block inner body) >>= f) good := by
  intro s hs hn
  have hentered : s.Progress N (s.enter kind k.scope).2 := hs.conforms.progress_enter
  -- The scope of a body permits loop control; that of any other block does if the spot's does.
  have hpermits : (s.enter kind k.scope).2.permitsLoopControl (s.enter kind k.scope).1 =
      (k.inLoop || k.loops) := by
    rw [State.permitsLoopControl_enter, hkind, ← hs.permits_eq]
    cases k.loops <;> simp
  have hbegins : N.Begins (.block (s.enter kind k.scope).1 body) (s.enter kind k.scope).2 :=
    ⟨hentered.conforms, State.enter_fst_lt,
      show N.Knows (Located.stmts (State.permitsLoopControl _ _) body) from hpermits ▸ hbody, trivial⟩
  have hlabel : k.label (.block (s.enter kind k.scope).1 body) = (k.inLoop || k.loops) := by
    simp [label, Task.isBlock]
  rw [Eval.meets_bind, Eval.meets_create]
  change Eval.Meets _ (_ >>= f) _ _
  rw [Eval.meets_bind]
  refine Eval.meets_attempt.mpr
    ⟨⟨hbegins, .inl ⟨hs.depth_eq, hpermits.trans hlabel.symm⟩⟩, fun o s' hpost => ?_⟩
  obtain ⟨hprogress, ho⟩ := hpost
  have hsofar : s.Progress N s' := hentered.trans hprogress
  have hrest := hf s'.classes.size o (Nat.le_trans hn hsofar.classes_le) (hpermits ▸ ho)
  exact (hrest s' (hs.progress hsofar) (Nat.le_refl _)).mono fun _ _ hmakes => hmakes.after hsofar

theorem blockIn {body : List (Stmt Nat)} (hloops : k.loops = false)
    (hbody : N.Knows (Located.stmts k.inLoop body)) :
    k.Runs N n (Eval.blockIn .child k.scope body) (Value.Conforms N) :=
  enter fun _ => block hloops hbody

end Runs

end Spot

end ScriptLang
