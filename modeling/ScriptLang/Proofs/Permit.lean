import ScriptLang.Evaluation.Statement

/-! What code may do: whether it may loop, here and in every function it makes, and which names it may
declare in the scope it runs in. A body that gets a scope of its own may declare any name there. -/

namespace ScriptLang

structure Permit where
  loop : Prop
  name : String → Prop

namespace Permit

/-- What is permitted in a scope of its own. -/
def anyName (loop : Prop) : Permit :=
  ⟨loop, fun _ => True⟩

def inside (p : Permit) : Permit :=
  anyName p.loop

end Permit

variable {ι : Type}

mutual

def Place.Permitted (p : Permit) : Place ι → Prop
  | .variable .. => True
  | .dot container .. => container.Permitted p
  | .index container key _ => container.Permitted p ∧ key.Permitted p

def Expr.Permitted (p : Permit) : Expr ι → Prop
  | .number .. | .string .. => True
  | .place q => q.Permitted p
  | .object properties _ => Permit.Fields p properties
  | .array elements _ => Permit.Exprs p elements
  | .binary _ left right _ => left.Permitted p ∧ right.Permitted p
  | .assign target value _ => target.Permitted p ∧ value.Permitted p
  | .call callee arguments _ => callee.Permitted p ∧ Permit.Exprs p arguments
  | .construct target arguments _ => target.Permitted p ∧ Permit.Exprs p arguments
  | .select scrutinee arms _ => scrutinee.Permitted p.inside ∧ Permit.Arms p.inside arms
  | .function f => f.Permitted p ∧ (f.name ≠ FunctionDecl.anonymous → p.name f.name)
  | .attempt body handler _ =>
    p.name "error" ∧ Permit.Stmts p.inside body ∧ Permit.Stmts p.inside handler

def Permit.Exprs (p : Permit) : List (Expr ι) → Prop
  | [] => True
  | e :: rest => e.Permitted p ∧ Permit.Exprs p rest

def Permit.Fields (p : Permit) : List (String × Expr ι) → Prop
  | [] => True
  | (_, value) :: rest => value.Permitted p ∧ Permit.Fields p rest

def Permit.Arms (p : Permit) : List (Arm ι) → Prop
  | [] => True
  | .mk patterns _ body :: rest =>
    Permit.Exprs p patterns ∧ Permit.Stmts p.inside body ∧ Permit.Arms p rest

/-- A function runs in a scope of its own. -/
def FunctionDecl.Permitted (p : Permit) : FunctionDecl ι → Prop
  | .mk _ _ _ body _ => Permit.Stmts p.inside body

def Permit.Functions (p : Permit) : List (FunctionDecl ι) → Prop
  | [] => True
  | f :: rest => f.Permitted p ∧ Permit.Functions p rest

def VariableDecl.Permitted (p : Permit) : VariableDecl ι → Prop
  | .variable name none _ => p.name name
  | .variable name (some value) _ | .constant name value _ => p.name name ∧ value.Permitted p

def ClassDecl.Permitted (p : Permit) : ClassDecl ι → Prop
  | .mk name _ staticFields methods staticMethods _ =>
    p.name name ∧ Permit.Fields p staticFields ∧ Permit.Functions p methods ∧
      Permit.Functions p staticMethods

def Stmt.Permitted (p : Permit) : Stmt ι → Prop
  | .declare d => d.Permitted p
  | .function f => p.name f.name ∧ f.Permitted p
  | .branch test body none _ => test.Permitted p ∧ Permit.Stmts p.inside body
  | .branch test body (some alternate) _ =>
    test.Permitted p ∧ Permit.Stmts p.inside body ∧ Permit.Stmts p.inside alternate
  | .forLoop start test update body _ =>
    p.loop ∧ start.Permitted p.inside ∧ test.Permitted p.inside ∧ update.Permitted p.inside ∧
      Permit.Stmts p.inside body
  | .whileLoop test body _ => p.loop ∧ test.Permitted p ∧ Permit.Stmts p.inside body
  | .returns none _ | .breaks _ | .continues _ => True
  | .returns (some value) _ | .throws value _ => value.Permitted p
  | .declareClass c => c.Permitted p
  | .declareEnum name .. => p.name name
  | .expression e _ => e.Permitted p

def Permit.Stmts (p : Permit) : List (Stmt ι) → Prop
  | [] => True
  | s :: rest => s.Permitted p ∧ Permit.Stmts p rest

end

namespace Permit

variable {p : Permit}

theorem exprs_iff {es : List (Expr ι)} : Exprs p es ↔ ∀ e ∈ es, e.Permitted p := by
  induction es with
  | nil => simp [Exprs]
  | cons e rest ih => simp [Exprs, ih]

theorem fields_iff {fields : List (String × Expr ι)} :
    Fields p fields ↔ ∀ field ∈ fields, field.2.Permitted p := by
  induction fields with
  | nil => simp [Fields]
  | cons field rest ih => simp [Fields, ih]

theorem functions_iff {fs : List (FunctionDecl ι)} :
    Functions p fs ↔ ∀ f ∈ fs, f.Permitted p := by
  induction fs with
  | nil => simp [Functions]
  | cons f rest ih => simp [Functions, ih]

theorem arms_iff {arms : List (Arm ι)} :
    Arms p arms ↔ ∀ arm ∈ arms, (∀ e ∈ arm.patterns, e.Permitted p) ∧ Stmts p.inside arm.body := by
  induction arms with
  | nil => simp [Arms]
  | cons arm rest ih =>
    obtain ⟨patterns, isDefault, body⟩ := arm
    simp [Arms, ih, exprs_iff, Arm.patterns, Arm.body, and_assoc]

end Permit

/-! ### No restriction -/

mutual

theorem Place.permitted_anyName : ∀ p : Place ι, p.Permitted (.anyName True)
  | .variable .. => trivial
  | .dot container .. => container.permitted_anyName
  | .index container key _ => ⟨container.permitted_anyName, key.permitted_anyName⟩

theorem Expr.permitted_anyName : ∀ e : Expr ι, e.Permitted (.anyName True)
  | .number .. | .string .. => trivial
  | .place p => p.permitted_anyName
  | .object properties _ => Permit.fields_anyName properties
  | .array elements _ => Permit.exprs_anyName elements
  | .binary _ left right _ => ⟨left.permitted_anyName, right.permitted_anyName⟩
  | .assign target value _ => ⟨target.permitted_anyName, value.permitted_anyName⟩
  | .call callee arguments _ => ⟨callee.permitted_anyName, Permit.exprs_anyName arguments⟩
  | .construct target arguments _ => ⟨target.permitted_anyName, Permit.exprs_anyName arguments⟩
  | .select scrutinee arms _ => ⟨scrutinee.permitted_anyName, Permit.arms_anyName arms⟩
  | .function f => ⟨f.permitted_anyName, fun _ => trivial⟩
  | .attempt body handler _ =>
    ⟨trivial, Permit.stmts_anyName body, Permit.stmts_anyName handler⟩

theorem Permit.exprs_anyName : ∀ es : List (Expr ι), Permit.Exprs (.anyName True) es
  | [] => trivial
  | e :: rest => ⟨e.permitted_anyName, Permit.exprs_anyName rest⟩

theorem Permit.fields_anyName : ∀ fields : List (String × Expr ι), Permit.Fields (.anyName True) fields
  | [] => trivial
  | (_, value) :: rest => ⟨value.permitted_anyName, Permit.fields_anyName rest⟩

theorem Permit.arms_anyName : ∀ arms : List (Arm ι), Permit.Arms (.anyName True) arms
  | [] => trivial
  | .mk patterns _ body :: rest =>
    ⟨Permit.exprs_anyName patterns, Permit.stmts_anyName body, Permit.arms_anyName rest⟩

theorem FunctionDecl.permitted_anyName : ∀ f : FunctionDecl ι, f.Permitted (.anyName True)
  | .mk _ _ _ body _ => Permit.stmts_anyName body

theorem Permit.functions_anyName : ∀ fs : List (FunctionDecl ι), Permit.Functions (.anyName True) fs
  | [] => trivial
  | f :: rest => ⟨f.permitted_anyName, Permit.functions_anyName rest⟩

theorem VariableDecl.permitted_anyName : ∀ d : VariableDecl ι, d.Permitted (.anyName True)
  | .variable _ none _ => trivial
  | .variable _ (some value) _ | .constant _ value _ => ⟨trivial, value.permitted_anyName⟩

theorem ClassDecl.permitted_anyName : ∀ c : ClassDecl ι, c.Permitted (.anyName True)
  | .mk _ _ staticFields methods staticMethods _ =>
    ⟨trivial, Permit.fields_anyName staticFields, Permit.functions_anyName methods,
      Permit.functions_anyName staticMethods⟩

theorem Stmt.permitted_anyName : ∀ s : Stmt ι, s.Permitted (.anyName True)
  | .declare d => d.permitted_anyName
  | .function f => ⟨trivial, f.permitted_anyName⟩
  | .branch test body none _ => ⟨test.permitted_anyName, Permit.stmts_anyName body⟩
  | .branch test body (some alternate) _ =>
    ⟨test.permitted_anyName, Permit.stmts_anyName body, Permit.stmts_anyName alternate⟩
  | .forLoop start test update body _ =>
    ⟨trivial, start.permitted_anyName, test.permitted_anyName, update.permitted_anyName,
      Permit.stmts_anyName body⟩
  | .whileLoop test body _ => ⟨trivial, test.permitted_anyName, Permit.stmts_anyName body⟩
  | .returns none _ | .breaks _ | .continues _ => trivial
  | .returns (some value) _ | .throws value _ => value.permitted_anyName
  | .declareClass c => c.permitted_anyName
  | .declareEnum .. => trivial
  | .expression e _ => e.permitted_anyName

theorem Permit.stmts_anyName : ∀ body : List (Stmt ι), Permit.Stmts (.anyName True) body
  | [] => trivial
  | s :: rest => ⟨s.permitted_anyName, Permit.stmts_anyName rest⟩

end

theorem FunctionDecl.permitted_iff {p : Permit} {f : FunctionDecl ι} :
    f.Permitted p ↔ Permit.Stmts p.inside f.body := by
  obtain ⟨identity, name, parameters, body, line⟩ := f
  rw [FunctionDecl.Permitted, FunctionDecl.body]

theorem FunctionDecl.Permitted.inside {p : Permit} {f : FunctionDecl ι} (h : f.Permitted p) :
    f.Permitted p.inside := by
  have hbody : Permit.Stmts p.inside f.body := permitted_iff.mp h
  exact permitted_iff.mpr hbody

end ScriptLang
