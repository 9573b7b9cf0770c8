import ScriptLang.Syntax

/-! The statements of a program with their places: each is told to lie in the body of a loop or not. The
body of a function starts over, and a ternary is a function. What else a loop consists of lies where the
loop does. -/

namespace ScriptLang

variable {ι : Type}

mutual

def Place.located (inLoop : Bool) : Place ι → List (Bool × Stmt ι)
  | .variable .. => []
  | .dot container .. => container.located inLoop
  | .index container key _ => container.located inLoop ++ key.located inLoop

def Expr.located (inLoop : Bool) : Expr ι → List (Bool × Stmt ι)
  | .number .. | .string .. => []
  | .place p => p.located inLoop
  | .object properties _ => Located.fields inLoop properties
  | .array elements _ => Located.exprs inLoop elements
  | .binary _ left right _ => left.located inLoop ++ right.located inLoop
  | .assign target value _ => target.located inLoop ++ value.located inLoop
  | .call callee arguments _ => callee.located inLoop ++ Located.exprs inLoop arguments
  | .construct target arguments _ => target.located inLoop ++ Located.exprs inLoop arguments
  | .select scrutinee arms _ => scrutinee.located inLoop ++ Located.arms inLoop arms
  | .function f => f.located
  | .attempt body handler _ => Located.stmts inLoop body ++ Located.stmts inLoop handler

def Located.exprs (inLoop : Bool) : List (Expr ι) → List (Bool × Stmt ι)
  | [] => []
  | e :: rest => e.located inLoop ++ Located.exprs inLoop rest

def Located.fields (inLoop : Bool) : List (String × Expr ι) → List (Bool × Stmt ι)
  | [] => []
  | (_, value) :: rest => value.located inLoop ++ Located.fields inLoop rest

def Located.arms (inLoop : Bool) : List (Arm ι) → List (Bool × Stmt ι)
  | [] => []
  | .mk patterns _ body :: rest =>
    Located.exprs inLoop patterns ++ Located.stmts inLoop body ++ Located.arms inLoop rest

def FunctionDecl.located : FunctionDecl ι → List (Bool × Stmt ι)
  | .mk _ _ _ body _ => Located.stmts false body

def Located.functions : List (FunctionDecl ι) → List (Bool × Stmt ι)
  | [] => []
  | f :: rest => f.located ++ Located.functions rest

def VariableDecl.located (inLoop : Bool) : VariableDecl ι → List (Bool × Stmt ι)
  | .variable _ none _ => []
  | .variable _ (some value) _ | .constant _ value _ => value.located inLoop

def ClassDecl.located (inLoop : Bool) : ClassDecl ι → List (Bool × Stmt ι)
  | .mk _ _ staticFields methods staticMethods _ =>
    Located.fields inLoop staticFields ++ Located.functions methods ++ Located.functions staticMethods

/-- What lies inside of the statement. -/
def Stmt.inner (inLoop : Bool) : Stmt ι → List (Bool × Stmt ι)
  | .declare d => d.located inLoop
  | .function f => f.located
  | .branch test body none _ => test.located inLoop ++ Located.stmts inLoop body
  | .branch test body (some alternate) _ =>
    test.located inLoop ++ Located.stmts inLoop body ++ Located.stmts inLoop alternate
  | .forLoop start test update body _ =>
    start.located inLoop ++
      (test.located inLoop ++ update.located inLoop ++ Located.stmts true body)
  | .whileLoop test body _ => test.located inLoop ++ Located.stmts true body
  | .returns none _ | .breaks _ | .continues _ | .declareEnum .. => []
  | .returns (some value) _ | .throws value _ => value.located inLoop
  | .declareClass c => c.located inLoop
  | .expression e _ => e.located inLoop

def Located.stmts (inLoop : Bool) : List (Stmt ι) → List (Bool × Stmt ι)
  | [] => []
  | s :: rest => (inLoop, s) :: (s.inner inLoop ++ Located.stmts inLoop rest)

end

theorem FunctionDecl.located_eq (f : FunctionDecl ι) : f.located = Located.stmts false f.body := by
  obtain ⟨identity, name, parameters, body, line⟩ := f
  rw [located, FunctionDecl.body]

namespace Located

variable {inLoop : Bool} {x : Bool × Stmt ι}

theorem mem_exprs {es : List (Expr ι)} :
    x ∈ exprs inLoop es ↔ ∃ e ∈ es, x ∈ e.located inLoop := by
  induction es with
  | nil => simp [exprs]
  | cons e rest ih => simp [exprs, ih]

theorem mem_fields {properties : List (String × Expr ι)} :
    x ∈ fields inLoop properties ↔ ∃ field ∈ properties, x ∈ field.2.located inLoop := by
  induction properties with
  | nil => simp [fields]
  | cons field rest ih => simp [fields, ih]

theorem mem_functions {fs : List (FunctionDecl ι)} :
    x ∈ functions fs ↔ ∃ f ∈ fs, x ∈ f.located := by
  induction fs with
  | nil => simp [functions]
  | cons f rest ih => simp [functions, ih]

theorem mem_arms {arms : List (Arm ι)} :
    x ∈ Located.arms inLoop arms ↔
      ∃ arm ∈ arms, (∃ e ∈ arm.patterns, x ∈ e.located inLoop) ∨ x ∈ stmts inLoop arm.body := by
  induction arms with
  | nil => simp [Located.arms]
  | cons arm rest ih =>
    obtain ⟨patterns, isDefault, body⟩ := arm
    simp [Located.arms, ih, mem_exprs, Arm.patterns, Arm.body, or_assoc]

end Located

end ScriptLang
