import ScriptLang.Proofs.WellFormed

/-! Programs as plain trees, whose types rule nothing out: any expression can stand as a target, any
statement can start a loop, and a constant can lack its value. Which of them are programs is a predicate
of its own. A `match` holds its cases apart from its default. -/

namespace ScriptLang

namespace Tree

mutual

inductive Expr : Type
  | number (value : Float) (line : Nat)
  | string (value : String) (line : Nat)
  | identifier (name : String) (line : Nat)
  | object (properties : List (String × Expr)) (line : Nat)
  | array (elements : List Expr) (line : Nat)
  | binary (operator : Operator) (left right : Expr) (line : Nat)
  | assignment (target value : Expr) (line : Nat)
  | member (container property : Expr) (computed : Bool) (line : Nat)
  | call (callee : Expr) (arguments : List Expr) (line : Nat)
  | construct (target : Expr) (arguments : List Expr) (line : Nat)
  | select (scrutinee : Expr) (cases : List Case) (default : Option (List Stmt)) (line : Nat)
  | function (f : FunctionDef)
  | attempt (body handler : List Stmt) (line : Nat)

inductive Case : Type
  | mk (patterns : List Expr) (body : List Stmt)

inductive FunctionDef : Type
  | mk (name : String) (parameters : List String) (body : List Stmt) (line : Nat)

inductive ClassDef : Type
  | mk (name : String) (fields : List String) (staticFields : List (String × Expr))
      (methods staticMethods : List FunctionDef) (line : Nat)

inductive Stmt : Type
  | declare (name : String) (constant : Bool) (value : Option Expr) (line : Nat)
  | function (f : FunctionDef)
  | branch (test : Expr) (body : List Stmt) (alternate : Option (List Stmt)) (line : Nat)
  | forLoop (start : Stmt) (test update : Expr) (body : List Stmt) (line : Nat)
  | whileLoop (test : Expr) (body : List Stmt) (line : Nat)
  | returns (value : Option Expr) (line : Nat)
  | breaks (line : Nat)
  | continues (line : Nat)
  | throws (value : Expr) (line : Nat)
  | declareClass (c : ClassDef)
  | declareEnum (name : String) (members : List String) (line : Nat)
  | expression (e : Expr) (line : Nat)

end

abbrev Program : Type :=
  List Stmt

def Expr.IsIdentifier : Expr → Prop
  | identifier .. => True
  | _ => False

def Expr.IsTarget : Expr → Prop
  | identifier .. | member .. => True
  | _ => False

def Stmt.IsDeclaration : Stmt → Prop
  | declare .. => True
  | _ => False

mutual

def Expr.WellFormed : Expr → Prop
  | .number .. | .string .. | .identifier .. => True
  | .object properties _ => Fields properties
  | .array elements _ => Exprs elements
  | .binary _ left right _ => left.WellFormed ∧ right.WellFormed
  | .assignment target value _ => target.IsTarget ∧ target.WellFormed ∧ value.WellFormed
  | .member container property computed _ =>
    (computed = false → property.IsIdentifier) ∧ container.WellFormed ∧ property.WellFormed
  | .call callee arguments _ => callee.WellFormed ∧ Exprs arguments
  | .construct target arguments _ => target.IsTarget ∧ target.WellFormed ∧ Exprs arguments
  | .select scrutinee cases none _ => scrutinee.WellFormed ∧ Cases cases
  | .select scrutinee cases (some default) _ =>
    scrutinee.WellFormed ∧ Cases cases ∧ Stmts default
  | .function f => f.WellFormed
  | .attempt body handler _ => Stmts body ∧ Stmts handler

def Exprs : List Expr → Prop
  | [] => True
  | e :: rest => e.WellFormed ∧ Exprs rest

def Fields : List (String × Expr) → Prop
  | [] => True
  | (_, value) :: rest => value.WellFormed ∧ Fields rest

/-- Every case has a pattern. -/
def Cases : List Case → Prop
  | [] => True
  | .mk patterns body :: rest => patterns ≠ [] ∧ Exprs patterns ∧ Stmts body ∧ Cases rest

def FunctionDef.WellFormed : FunctionDef → Prop
  | .mk _ _ body _ => Stmts body

def Functions : List FunctionDef → Prop
  | [] => True
  | f :: rest => f.WellFormed ∧ Functions rest

def ClassDef.WellFormed : ClassDef → Prop
  | .mk _ _ staticFields methods staticMethods _ =>
    Fields staticFields ∧ Functions methods ∧ Functions staticMethods

def Stmt.WellFormed : Stmt → Prop
  | .declare _ constant none _ => constant = false
  | .declare _ _ (some value) _ => value.WellFormed
  | .function f => f.WellFormed
  | .branch test body none _ => test.WellFormed ∧ Stmts body
  | .branch test body (some alternate) _ => test.WellFormed ∧ Stmts body ∧ Stmts alternate
  | .forLoop start test update body _ =>
    start.IsDeclaration ∧ start.WellFormed ∧ test.WellFormed ∧ update.WellFormed ∧ Stmts body
  | .whileLoop test body _ => test.WellFormed ∧ Stmts body
  | .returns none _ | .breaks _ | .continues _ => True
  | .returns (some value) _ | .throws value _ => value.WellFormed
  | .declareClass c => c.WellFormed
  | .declareEnum .. => True
  | .expression e _ => e.WellFormed

def Stmts : List Stmt → Prop
  | [] => True
  | s :: rest => s.WellFormed ∧ Stmts rest

end

def Program.WellFormed (program : Program) : Prop :=
  Stmts program

end Tree

/-! ### The plain tree of a program -/

variable {ι : Type}

mutual

def Place.tree : Place ι → Tree.Expr
  | .variable x line => .identifier x line
  | .dot container x nameLine line => .member container.tree (.identifier x nameLine) false line
  | .index container key line => .member container.tree key.tree true line

def Expr.tree : Expr ι → Tree.Expr
  | .number x line => .number x line
  | .string s line => .string s line
  | .place p => p.tree
  | .object properties line => .object (Tree.ofFields properties) line
  | .array elements line => .array (Tree.ofExprs elements) line
  | .binary operator left right line => .binary operator left.tree right.tree line
  | .assign target value line => .assignment target.tree value.tree line
  | .call callee arguments line => .call callee.tree (Tree.ofExprs arguments) line
  | .construct target arguments line => .construct target.tree (Tree.ofExprs arguments) line
  | .select scrutinee arms line =>
    .select scrutinee.tree (Tree.casesOf arms) (Tree.defaultOf arms) line
  | .function f => .function f.tree
  | .attempt body handler line => .attempt (Tree.ofStmts body) (Tree.ofStmts handler) line

def Tree.ofExprs : List (Expr ι) → List Tree.Expr
  | [] => []
  | e :: rest => e.tree :: Tree.ofExprs rest

def Tree.ofFields : List (String × Expr ι) → List (String × Tree.Expr)
  | [] => []
  | (key, value) :: rest => (key, value.tree) :: Tree.ofFields rest

/-- An arm without patterns is no case. -/
def Tree.casesOf : List (Arm ι) → List Tree.Case
  | [] => []
  | .mk [] _ _ :: rest => Tree.casesOf rest
  | .mk (e :: es) _ body :: rest =>
    .mk (e.tree :: Tree.ofExprs es) (Tree.ofStmts body) :: Tree.casesOf rest

def Tree.defaultOf : List (Arm ι) → Option (List Tree.Stmt)
  | [] => none
  | .mk _ true body :: _ => some (Tree.ofStmts body)
  | .mk _ false _ :: rest => Tree.defaultOf rest

def FunctionDecl.tree : FunctionDecl ι → Tree.FunctionDef
  | .mk _ name parameters body line => .mk name parameters (Tree.ofStmts body) line

def Tree.ofFunctions : List (FunctionDecl ι) → List Tree.FunctionDef
  | [] => []
  | f :: rest => f.tree :: Tree.ofFunctions rest

def VariableDecl.tree : VariableDecl ι → Tree.Stmt
  | .variable x none line => .declare x false none line
  | .variable x (some value) line => .declare x false (some value.tree) line
  | .constant x value line => .declare x true (some value.tree) line

def ClassDecl.tree : ClassDecl ι → Tree.ClassDef
  | .mk x fields staticFields methods staticMethods line =>
    .mk x fields (Tree.ofFields staticFields) (Tree.ofFunctions methods)
      (Tree.ofFunctions staticMethods) line

def Stmt.tree : Stmt ι → Tree.Stmt
  | .declare d => d.tree
  | .function f => .function f.tree
  | .branch test body none line => .branch test.tree (Tree.ofStmts body) none line
  | .branch test body (some alternate) line =>
    .branch test.tree (Tree.ofStmts body) (some (Tree.ofStmts alternate)) line
  | .forLoop start test update body line =>
    .forLoop start.tree test.tree update.tree (Tree.ofStmts body) line
  | .whileLoop test body line => .whileLoop test.tree (Tree.ofStmts body) line
  | .returns none line => .returns none line
  | .returns (some value) line => .returns (some value.tree) line
  | .breaks line => .breaks line
  | .continues line => .continues line
  | .throws value line => .throws value.tree line
  | .declareClass c => .declareClass c.tree
  | .declareEnum x members line => .declareEnum x members line
  | .expression e line => .expression e.tree line

def Tree.ofStmts : List (Stmt ι) → List Tree.Stmt
  | [] => []
  | s :: rest => s.tree :: Tree.ofStmts rest

end

def Program.tree (program : Program ι) : Tree.Program :=
  Tree.ofStmts program

end ScriptLang
