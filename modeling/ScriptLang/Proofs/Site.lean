import ScriptLang.Proofs.Contract
import ScriptLang.Proofs.Trail

/-! Where code runs, and what running it there may do. The rules follow the operations that evaluation
is built from: each leaves a trail from its site. -/

namespace ScriptLang

/-- A scope that code runs in, with the names it may declare there. `control` says whether `break` and
`continue` may end it. -/
structure Site (D : Domain) where
  scope : ScopeId
  name : String → Prop
  control : Prop
  cell : D.cell (.scope scope)

/-- The depth of calls, the depth it may grow to, and a size that the code asked for stays below. It
is `limited` if the depth has not gone beyond what it may grow to. -/
structure Limits where
  limited : Prop
  depth : Nat
  maxDepth : Nat
  size : Nat
  depth_le : limited → depth ≤ maxDepth

/-- Without loops, the code asked for is smaller than code of size `n`. -/
def Limits.Covers (l : Limits) (D : Domain) (n : Nat) : Prop :=
  D.loop ∨ n ≤ l.size

variable {D : Domain}

theorem Limits.Covers.lt {l : Limits} {m n : Nat} (h : l.Covers D n) (hlt : m < n) :
    D.loop ∨ m < l.size :=
  h.imp_right (Nat.lt_of_lt_of_le hlt)

namespace Site

def permit (k : Site D) : Permit :=
  ⟨D.loop, k.name⟩

/-- A scope of its own that was entered from the site. -/
def inside (k : Site D) (kind : ScopeKind) (scope : ScopeId) (cell : D.cell (.scope scope)) :
    Site D where
  scope
  name := fun _ => True
  control :=
    match kind with
    | .child => k.control
    | .loop => True
    | .function => False
  cell

/-- The scope permits loop control only if the site does, and stays so. -/
structure Fits (k : Site D) (s : State) : Prop where
  control : s.permitsLoopControl k.scope = true → k.control
  fixed : k.control ∨ k.scope.index < s.scopes.size

theorem Fits.trail {k : Site D} {s s' : State} (h : k.Fits s)
    (htrail : Trail D k.scope k.name s s') : k.Fits s' := by
  rcases h.fixed with hcontrol | hid
  · exact ⟨fun _ => hcontrol, .inl hcontrol⟩
  · have hid' := Nat.lt_of_lt_of_le hid htrail.size_scopes_le
    exact ⟨fun hs' => h.control (htrail.permitsLoopControl_eq hid ▸ hs'), .inr hid'⟩

theorem Fits.enter {k : Site D} {s : State} (h : k.Fits s) (kind : ScopeKind)
    (cell : D.cell (.scope (s.enter kind k.scope).1)) :
    (k.inside kind _ cell).Fits (s.enter kind k.scope).2 := by
  constructor
  · intro hs'
    have hpermits := State.permitsLoopControl_enter.symm.trans hs'
    cases kind with
    | child => exact h.control hpermits
    | loop => trivial
    | function => cases hpermits
  · right
    exact State.enter_fst_lt

end Site

/-! ### Ends within a domain -/

def RuntimeError.Within (D : Domain) : RuntimeError → Prop
  | thrown value _ => value.Within D
  | fault _ => True

def Signal.Within (D : Domain) (control : Prop) : Signal → Prop
  | raised error => error.Within D
  | returned value => value.Within D
  | broke | continued => control

def Outcome.Within (D : Domain) (control : Prop) : Outcome → Prop
  | .ok value => value.Within D
  | .error signal => signal.Within D control

theorem RuntimeError.caught_within {error : RuntimeError} (h : error.Within D) :
    error.caught.Within D := by
  cases error with
  | thrown value line => exact h
  | fault f => trivial

/-! ### Tasks -/

namespace Task

def Permitted (p : Permit) : Task → Prop
  | expression _ e => e.Permitted p
  | block _ body => Permit.Stmts p body
  | whileLoop _ test body _ => p.loop ∧ test.Permitted p ∧ Permit.Stmts p.inside body
  | forLoop _ test update body =>
    p.loop ∧ test.Permitted p ∧ update.Permitted p ∧ Permit.Stmts p.inside body

/-- The value that the task ends with if it has nothing left to do. -/
def pending : Task → Value
  | whileLoop _ _ _ last => last
  | expression .. | block .. | forLoop .. => .null

noncomputable def size : Task → Nat
  | expression _ e => sizeOf e
  | block _ body => sizeOf body
  | whileLoop .. | forLoop .. => 0

end Task

/-- The task is permitted in some site, and starts from a state within the domain. -/
structure Domain.Starts (D : Domain) (limited : Prop) (t : Task) (s : State) : Prop where
  within : s.Within D
  cell : D.cell (.scope t.scope)
  permitted : ∃ name, t.Permitted ⟨D.loop, name⟩
  pending : t.pending.Within D
  depth_le : limited → s.depth ≤ s.maxDepth

/-- A task leaves a trail from whatever site it starts in. -/
def Domain.Finishes (D : Domain) (t : Task) (s : State) (o : Outcome) (s' : State) : Prop :=
  ∀ k : Site D, k.scope = t.scope → t.Permitted k.permit → k.Fits s →
    Trail D k.scope k.name s s' ∧ o.Within D k.control

def Domain.contract (D : Domain) (limited : Prop) : Contract :=
  ⟨D.Starts limited, D.Finishes⟩

/-- Without loops, a task is asked for at a greater depth, or it is smaller. -/
def Limits.contract (l : Limits) (D : Domain) : Contract where
  pre t s := D.Starts l.limited t s ∧ s.maxDepth = l.maxDepth ∧
    (D.loop ∨ l.depth < s.depth ∨ s.depth = l.depth ∧ t.size < l.size)
  post := D.Finishes

end ScriptLang
