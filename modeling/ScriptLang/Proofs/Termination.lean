import ScriptLang.Proofs.Evaluation
import ScriptLang.Proofs.Reachable

/-! Programs without loops end, however they call: the depth of calls is limited, and at each depth the
code still to be run gets smaller. -/

namespace ScriptLang

variable {ι : Type}

/-- Neither here nor in a nested function is there a `while` or a `for`. -/
def FunctionDecl.LoopFree (f : FunctionDecl ι) : Prop :=
  f.Permitted (.anyName False)

def Program.LoopFree (program : Program ι) : Prop :=
  Permit.Stmts (.anyName False) program

/-- A function that calls itself, once more whenever the limit stops it. -/
def descend : FunctionDecl Nat :=
  let again : Stmt Nat := .expression (.call (.place (.variable "descend" 1)) [] 1) 1
  .mk 0 "descend" [] [.expression (.attempt [again] [again] 1) 1] 1

def descending : State :=
  { State.initial 2 with
    scopes := #[⟨none, ⟨[("descend", ⟨.function ⟨descend, ⟨0⟩, none⟩, true⟩)]⟩, false⟩] }

theorem descend_loopFree : descend.LoopFree := by
  simp only [FunctionDecl.LoopFree, descend, FunctionDecl.Permitted, Permit.Stmts, Stmt.Permitted,
    Expr.Permitted, Place.Permitted, Permit.Exprs, Permit.anyName, Permit.inside, and_self]

theorem descending_within : descending.Within ⟨fun _ => True, False⟩ := by
  have hempty : ∀ {α : Type} {i : Nat} {a : α} {P : Prop}, (#[] : Array α)[i]? = some a → P :=
    fun h => by simp at h
  refine ⟨fun id c _ hc => ?_, fun _ _ _ => hempty, fun _ _ _ => hempty, fun _ _ _ => hempty,
    fun _ _ _ => hempty, fun _ _ => trivial⟩
  have hmem := Array.mem_of_getElem? hc
  simp only [descending, List.mem_toArray, List.mem_singleton] at hmem
  subst hmem
  refine ⟨fun entry hentry => ?_, fun _ => nofun⟩
  rw [List.mem_singleton] at hentry
  subst hentry
  exact ⟨descend_loopFree, trivial, fun _ => nofun⟩

end ScriptLang
