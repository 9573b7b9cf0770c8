/-! Programs as trees. Every node carries the line it was read from. The type parameter is what
identifies a function: nothing in a freshly read program, a number once the program is run. -/

namespace ScriptLang

inductive Operator
  | add | sub | mul | div | mod | equal | notEqual | less | greater | and | or
  deriving DecidableEq, Repr

def Operator.text : Operator → String
  | add => "+"
  | sub => "-"
  | mul => "*"
  | div => "/"
  | mod => "%"
  | equal => "=="
  | notEqual => "!="
  | less => "<"
  | greater => ">"
  | and => "&&"
  | or => "|"

mutual

/-- What a name, a `.` or a pair of brackets denotes: the expressions that can be assigned to. -/
inductive Place (ι : Type) : Type
  | variable (name : String) (line : Nat)
  | dot (container : Expr ι) (name : String) (nameLine : Nat) (line : Nat)
  | index (container key : Expr ι) (line : Nat)

inductive Expr (ι : Type) : Type
  | number (value : Float) (line : Nat)
  | string (value : String) (line : Nat)
  | place (p : Place ι)
  | object (properties : List (String × Expr ι)) (line : Nat)
  | array (elements : List (Expr ι)) (line : Nat)
  | binary (operator : Operator) (left right : Expr ι) (line : Nat)
  | assign (target : Place ι) (value : Expr ι) (line : Nat)
  | call (callee : Expr ι) (arguments : List (Expr ι)) (line : Nat)
  | construct (target : Place ι) (arguments : List (Expr ι)) (line : Nat)
  | select (scrutinee : Expr ι) (arms : List (Arm ι)) (line : Nat)
  | function (f : FunctionDecl ι)
  | attempt (body handler : List (Stmt ι)) (line : Nat)

/-- An arm of a `match`: the body runs if one of the patterns matches, and in a default arm also if
no pattern of any arm does. -/
inductive Arm (ι : Type) : Type
  | mk (patterns : List (Expr ι)) (isDefault : Bool) (body : List (Stmt ι))

inductive FunctionDecl (ι : Type) : Type
  | mk (identity : ι) (name : String) (parameters : List String) (body : List (Stmt ι)) (line : Nat)

inductive VariableDecl (ι : Type) : Type
  | variable (name : String) (value : Option (Expr ι)) (line : Nat)
  | constant (name : String) (value : Expr ι) (line : Nat)

inductive ClassDecl (ι : Type) : Type
  | mk (name : String) (fields : List String) (staticFields : List (String × Expr ι))
      (methods staticMethods : List (FunctionDecl ι)) (line : Nat)

inductive Stmt (ι : Type) : Type
  | declare (d : VariableDecl ι)
  | function (f : FunctionDecl ι)
  | branch (test : Expr ι) (body : List (Stmt ι)) (alternate : Option (List (Stmt ι))) (line : Nat)
  | forLoop (start : VariableDecl ι) (test update : Expr ι) (body : List (Stmt ι)) (line : Nat)
  | whileLoop (test : Expr ι) (body : List (Stmt ι)) (line : Nat)
  | returns (value : Option (Expr ι)) (line : Nat)
  | breaks (line : Nat)
  | continues (line : Nat)
  | throws (value : Expr ι) (line : Nat)
  | declareClass (c : ClassDecl ι)
  | declareEnum (name : String) (members : List String) (line : Nat)
  | expression (e : Expr ι) (line : Nat)

end

abbrev Program (ι : Type) : Type :=
  List (Stmt ι)

/-- A program as it is read: its functions have no identity yet. -/
abbrev Source : Type :=
  Program Unit

variable {ι : Type}

namespace Arm

def patterns : Arm ι → List (Expr ι)
  | mk patterns _ _ => patterns

def isDefault : Arm ι → Bool
  | mk _ isDefault _ => isDefault

def body : Arm ι → List (Stmt ι)
  | mk _ _ body => body

end Arm

namespace FunctionDecl

/-- The name of a function that was written without one; it is no word of the language. -/
def anonymous : String :=
  "<anonymous>"

def identity : FunctionDecl ι → ι
  | mk identity _ _ _ _ => identity

def name : FunctionDecl ι → String
  | mk _ name _ _ _ => name

def parameters : FunctionDecl ι → List String
  | mk _ _ parameters _ _ => parameters

def body : FunctionDecl ι → List (Stmt ι)
  | mk _ _ _ body _ => body

def line : FunctionDecl ι → Nat
  | mk _ _ _ _ line => line

end FunctionDecl

end ScriptLang
