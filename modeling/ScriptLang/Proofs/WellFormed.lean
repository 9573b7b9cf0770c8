import ScriptLang.Syntax

/-! Programs as they can be read. The types leave one thing open: each arm of a `match` begins with a
pattern or with `default`, and at most one of them with `default`. -/

namespace ScriptLang

variable {ι : Type}

/-- Not both arms are the default. -/
def Arm.OneDefault (a b : Arm ι) : Prop :=
  a.isDefault = false ∨ b.isDefault = false

mutual

def Place.WellFormed : Place ι → Prop
  | .variable .. => True
  | .dot container .. => container.WellFormed
  | .index container key _ => container.WellFormed ∧ key.WellFormed

def Expr.WellFormed : Expr ι → Prop
  | .number .. | .string .. => True
  | .place p => p.WellFormed
  | .object properties _ => WellFormed.Fields properties
  | .array elements _ => WellFormed.Exprs elements
  | .binary _ left right _ => left.WellFormed ∧ right.WellFormed
  | .assign target value _ => target.WellFormed ∧ value.WellFormed
  | .call callee arguments _ => callee.WellFormed ∧ WellFormed.Exprs arguments
  | .construct target arguments _ => target.WellFormed ∧ WellFormed.Exprs arguments
  | .select scrutinee arms _ =>
    scrutinee.WellFormed ∧ WellFormed.Arms arms ∧ arms.Pairwise Arm.OneDefault
  | .function f => f.WellFormed
  | .attempt body handler _ => WellFormed.Stmts body ∧ WellFormed.Stmts handler

def WellFormed.Exprs : List (Expr ι) → Prop
  | [] => True
  | e :: rest => e.WellFormed ∧ WellFormed.Exprs rest

def WellFormed.Fields : List (String × Expr ι) → Prop
  | [] => True
  | (_, value) :: rest => value.WellFormed ∧ WellFormed.Fields rest

def WellFormed.Arms : List (Arm ι) → Prop
  | [] => True
  | .mk patterns isDefault body :: rest =>
    (patterns ≠ [] ∨ isDefault = true) ∧ WellFormed.Exprs patterns ∧ WellFormed.Stmts body ∧
      WellFormed.Arms rest

def FunctionDecl.WellFormed : FunctionDecl ι → Prop
  | .mk _ _ _ body _ => WellFormed.Stmts body

def WellFormed.Functions : List (FunctionDecl ι) → Prop
  | [] => True
  | f :: rest => f.WellFormed ∧ WellFormed.Functions rest

def VariableDecl.WellFormed : VariableDecl ι → Prop
  | .variable _ none _ => True
  | .variable _ (some value) _ | .constant _ value _ => value.WellFormed

def ClassDecl.WellFormed : ClassDecl ι → Prop
  | .mk _ _ staticFields methods staticMethods _ =>
    WellFormed.Fields staticFields ∧ WellFormed.Functions methods ∧
      WellFormed.Functions staticMethods

def Stmt.WellFormed : Stmt ι → Prop
  | .declare d => d.WellFormed
  | .function f => f.WellFormed
  | .branch test body none _ => test.WellFormed ∧ WellFormed.Stmts body
  | .branch test body (some alternate) _ =>
    test.WellFormed ∧ WellFormed.Stmts body ∧ WellFormed.Stmts alternate
  | .forLoop start test update body _ =>
    start.WellFormed ∧ test.WellFormed ∧ update.WellFormed ∧ WellFormed.Stmts body
  | .whileLoop test body _ => test.WellFormed ∧ WellFormed.Stmts body
  | .returns none _ | .breaks _ | .continues _ => True
  | .returns (some value) _ | .throws value _ => value.WellFormed
  | .declareClass c => c.WellFormed
  | .declareEnum .. => True
  | .expression e _ => e.WellFormed

def WellFormed.Stmts : List (Stmt ι) → Prop
  | [] => True
  | s :: rest => s.WellFormed ∧ WellFormed.Stmts rest

end

namespace WellFormed

theorem exprs_iff {es : List (Expr ι)} : Exprs es ↔ ∀ e ∈ es, e.WellFormed := by
  induction es with
  | nil => simp [Exprs]
  | cons e es ih => simp [Exprs, ih]

theorem fields_iff {fields : List (String × Expr ι)} :
    Fields fields ↔ ∀ p ∈ fields, p.2.WellFormed := by
  induction fields with
  | nil => simp [Fields]
  | cons p fields ih => simp [Fields, ih]

theorem functions_iff {fs : List (FunctionDecl ι)} : Functions fs ↔ ∀ f ∈ fs, f.WellFormed := by
  induction fs with
  | nil => simp [Functions]
  | cons f fs ih => simp [Functions, ih]

theorem stmts_iff {ss : List (Stmt ι)} : Stmts ss ↔ ∀ s ∈ ss, s.WellFormed := by
  induction ss with
  | nil => simp [Stmts]
  | cons s ss ih => simp [Stmts, ih]

theorem arms_iff {arms : List (Arm ι)} :
    Arms arms ↔ ∀ arm ∈ arms, (arm.patterns ≠ [] ∨ arm.isDefault = true) ∧
      Exprs arm.patterns ∧ Stmts arm.body := by
  induction arms with
  | nil => simp [Arms]
  | cons arm arms ih =>
    obtain ⟨patterns, isDefault, body⟩ := arm
    simp only [Arms, ih, List.forall_mem_cons, Arm.patterns, Arm.isDefault, Arm.body, and_assoc]

end WellFormed

end ScriptLang
