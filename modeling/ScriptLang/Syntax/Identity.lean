import ScriptLang.Syntax

/-! Giving every function of a program a number of its own, in the order they are met. -/

namespace ScriptLang

namespace Numbering

variable {ι : Type}

def next : StateM Nat Nat :=
  modifyGet fun n => (n, n + 1)

mutual

def place : Place ι → StateM Nat (Place Nat)
  | .variable name line => return .variable name line
  | .dot container name nameLine line => return .dot (← expr container) name nameLine line
  | .index container key line => return .index (← expr container) (← expr key) line

def expr : Expr ι → StateM Nat (Expr Nat)
  | .number value line => return .number value line
  | .string value line => return .string value line
  | .place p => return .place (← place p)
  | .object properties line => return .object (← fields properties) line
  | .array elements line => return .array (← exprs elements) line
  | .binary operator left right line => return .binary operator (← expr left) (← expr right) line
  | .assign target value line => return .assign (← place target) (← expr value) line
  | .call callee arguments line => return .call (← expr callee) (← exprs arguments) line
  | .construct target arguments line => return .construct (← place target) (← exprs arguments) line
  | .select scrutinee arms line => return .select (← expr scrutinee) (← armList arms) line
  | .function f => return .function (← function f)
  | .attempt body handler line => return .attempt (← stmts body) (← stmts handler) line

def exprs : List (Expr ι) → StateM Nat (List (Expr Nat))
  | [] => return []
  | e :: rest => return (← expr e) :: (← exprs rest)

def fields : List (String × Expr ι) → StateM Nat (List (String × Expr Nat))
  | [] => return []
  | (name, value) :: rest => return (name, ← expr value) :: (← fields rest)

def armList : List (Arm ι) → StateM Nat (List (Arm Nat))
  | [] => return []
  | .mk patterns isDefault body :: rest =>
    return .mk (← exprs patterns) isDefault (← stmts body) :: (← armList rest)

def function : FunctionDecl ι → StateM Nat (FunctionDecl Nat)
  | .mk _ name parameters body line => return .mk (← next) name parameters (← stmts body) line

def functions : List (FunctionDecl ι) → StateM Nat (List (FunctionDecl Nat))
  | [] => return []
  | f :: rest => return (← function f) :: (← functions rest)

def variableDecl : VariableDecl ι → StateM Nat (VariableDecl Nat)
  | .variable name none line => return .variable name none line
  | .variable name (some value) line => return .variable name (some (← expr value)) line
  | .constant name value line => return .constant name (← expr value) line

def classDecl : ClassDecl ι → StateM Nat (ClassDecl Nat)
  | .mk name fieldNames staticFields methods staticMethods line =>
    return .mk name fieldNames (← fields staticFields) (← functions methods)
      (← functions staticMethods) line

def stmt : Stmt ι → StateM Nat (Stmt Nat)
  | .declare d => return .declare (← variableDecl d)
  | .function f => return .function (← function f)
  | .branch test body none line => return .branch (← expr test) (← stmts body) none line
  | .branch test body (some alternate) line =>
    return .branch (← expr test) (← stmts body) (some (← stmts alternate)) line
  | .forLoop start test update body line =>
    return .forLoop (← variableDecl start) (← expr test) (← expr update) (← stmts body) line
  | .whileLoop test body line => return .whileLoop (← expr test) (← stmts body) line
  | .returns none line => return .returns none line
  | .returns (some value) line => return .returns (some (← expr value)) line
  | .breaks line => return .breaks line
  | .continues line => return .continues line
  | .throws value line => return .throws (← expr value) line
  | .declareClass c => return .declareClass (← classDecl c)
  | .declareEnum name members line => return .declareEnum name members line
  | .expression e line => return .expression (← expr e) line

def stmts : List (Stmt ι) → StateM Nat (List (Stmt Nat))
  | [] => return []
  | s :: rest => return (← stmt s) :: (← stmts rest)

end

end Numbering

/-- The program with its functions numbered from `first` on, and the next number. -/
def Program.identify {ι : Type} (program : Program ι) (first : Nat) : Program Nat × Nat :=
  (Numbering.stmts program).run first

end ScriptLang
