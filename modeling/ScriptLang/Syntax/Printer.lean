import ScriptLang.Number.Style
import ScriptLang.Syntax
import ScriptLang.Text.Quoted

/-! Programs as nested lists of words. Each list begins with the name of a node and the line it
was read from. -/

namespace ScriptLang

namespace Printer

open Text (quoted)

def node (name : String) (line : Nat) (parts : List String) : String :=
  "(" ++ " ".intercalate ((name ++ "@" ++ toString line) :: parts) ++ ")"

def list (items : List String) : String :=
  "[" ++ " ".intercalate items ++ "]"

def group (parts : List String) : String :=
  "(" ++ " ".intercalate parts ++ ")"

variable {ι : Type}

mutual

def place : Place ι → String
  | .variable name line => node "id" line [quoted name]
  | .dot container name nameLine line =>
    node "dot" line [expr container, node "id" nameLine [quoted name]]
  | .index container key line => node "index" line [expr container, expr key]

def expr : Expr ι → String
  | .number value line => node "num" line [Number.Style.display.text value]
  | .string value line => node "str" line [quoted value]
  | .place p => place p
  | .object properties line => node "obj" line [list (quotedFields properties)]
  | .array elements line => node "arr" line [list (exprs elements)]
  | .binary operator left right line => node operator.text line [expr left, expr right]
  | .assign target value line => node "=" line [place target, expr value]
  | .call callee arguments line => node "call" line [expr callee, list (exprs arguments)]
  | .construct target arguments line => node "new" line [place target, list (exprs arguments)]
  | .select scrutinee arms line =>
    node "match" line [expr scrutinee, list (cases arms), defaultBody arms]
  | .function f => function "fn" f
  | .attempt body handler line => node "try" line [list (stmts body), list (stmts handler)]

def exprs : List (Expr ι) → List String
  | [] => []
  | e :: rest => expr e :: exprs rest

def quotedFields : List (String × Expr ι) → List String
  | [] => []
  | (name, value) :: rest => group [quoted name, expr value] :: quotedFields rest

def bareFields : List (String × Expr ι) → List String
  | [] => []
  | (name, value) :: rest => group [name, expr value] :: bareFields rest

/-- The arms that have patterns. -/
def cases : List (Arm ι) → List String
  | [] => []
  | .mk [] _ _ :: rest => cases rest
  | .mk (pattern :: patterns) _ body :: rest =>
    group ["case", list (expr pattern :: exprs patterns), list (stmts body)] :: cases rest

/-- The body of the default arm. -/
def defaultBody : List (Arm ι) → String
  | [] => "none"
  | .mk _ true body :: _ => list (stmts body)
  | .mk _ false _ :: rest => defaultBody rest

def function (word : String) : FunctionDecl ι → String
  | .mk _ name parameters body line =>
    node word line [name, list parameters, list (stmts body)]

def functions (word : String) : List (FunctionDecl ι) → List String
  | [] => []
  | f :: rest => function word f :: functions word rest

def variableDecl : VariableDecl ι → String
  | .variable name none line => node "let" line [name, "none"]
  | .variable name (some value) line => node "let" line [name, expr value]
  | .constant name value line => node "const" line [name, expr value]

def classDecl : ClassDecl ι → String
  | .mk name fields staticFields methods staticMethods line =>
    node "class" line [name, list fields, list (bareFields staticFields),
      list (functions "method" methods), list (functions "method" staticMethods)]

def stmt : Stmt ι → String
  | .declare d => variableDecl d
  | .function f => function "fndecl" f
  | .branch test body none line => node "if" line [expr test, list (stmts body), "none"]
  | .branch test body (some alternate) line =>
    node "if" line [expr test, list (stmts body), list (stmts alternate)]
  | .forLoop start test update body line =>
    node "for" line [variableDecl start, expr test, expr update, list (stmts body)]
  | .whileLoop test body line => node "while" line [expr test, list (stmts body)]
  | .returns none line => node "return" line ["none"]
  | .returns (some value) line => node "return" line [expr value]
  | .breaks line => node "break" line []
  | .continues line => node "continue" line []
  | .throws value line => node "throw" line [expr value]
  | .declareClass c => classDecl c
  | .declareEnum name members line => node "enum" line [name, list members]
  | .expression e line => node "expr" line [expr e]

def stmts : List (Stmt ι) → List String
  | [] => []
  | s :: rest => stmt s :: stmts rest

end

end Printer

def Program.texts {ι : Type} (program : Program ι) : List String :=
  Printer.stmts program

end ScriptLang
