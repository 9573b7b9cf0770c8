import ScriptLang.Grammar.Statement

/-! Other numbers for the lines of tokens, trees and parse errors. Parsers copy lines and never compute with
them, so they do the same with any numbers in their place. -/

namespace ScriptLang

variable {ι : Type}

def Position.mapLine (f : Nat → Nat) (p : Position) : Position :=
  ⟨f p.line, p.column⟩

def Token.mapLine (f : Nat → Nat) (t : Token) : Token :=
  ⟨t.kind, t.literal, t.lexeme, t.position.mapLine f⟩

@[simp]
theorem Token.kind_mapLine (f : Nat → Nat) (t : Token) : (t.mapLine f).kind = t.kind :=
  rfl

@[simp]
theorem Token.literal_mapLine (f : Nat → Nat) (t : Token) : (t.mapLine f).literal = t.literal :=
  rfl

@[simp]
theorem Token.line_mapLine (f : Nat → Nat) (t : Token) : (t.mapLine f).line = f t.line :=
  rfl

@[simp]
theorem Token.mapLine_id : Token.mapLine id = id :=
  rfl

def ParseError.mapLine (f : Nat → Nat) : ParseError → ParseError
  | unexpectedCharacter c p => unexpectedCharacter c (p.mapLine f)
  | unexpectedToken expected found p => unexpectedToken expected found (p.mapLine f)
  | unexpectedEndOfInput expected p => unexpectedEndOfInput expected (p.mapLine f)
  | constantWithoutValue name p => constantWithoutValue name (p.mapLine f)
  | invalidMemberProperty p => invalidMemberProperty (p.mapLine f)
  | invalidAssignmentTarget p => invalidAssignmentTarget (p.mapLine f)
  | invalidParameter p => invalidParameter (p.mapLine f)
  | duplicateDefault p => duplicateDefault (p.mapLine f)
  | invalidTernary p => invalidTernary (p.mapLine f)
  | invalidTernaryTest p => invalidTernaryTest (p.mapLine f)

@[simp]
theorem ParseError.mapLine_id (e : ParseError) : e.mapLine id = e := by
  cases e <;> rfl

theorem ParseError.unexpected_mapLine (f : Nat → Nat) (t : Token) (expected : String) :
    unexpected (t.mapLine f) expected = (unexpected t expected).mapLine f := by
  have hdescribe : (t.mapLine f).describe = t.describe := rfl
  rw [unexpected, unexpected, hdescribe, Token.kind_mapLine]
  split <;> rfl

/-! ### Trees -/

mutual

def Place.mapLine (f : Nat → Nat) : Place ι → Place ι
  | .variable name line => .variable name (f line)
  | .dot container name nameLine line => .dot (container.mapLine f) name (f nameLine) (f line)
  | .index container key line => .index (container.mapLine f) (key.mapLine f) (f line)

def Expr.mapLine (f : Nat → Nat) : Expr ι → Expr ι
  | .number value line => .number value (f line)
  | .string value line => .string value (f line)
  | .place p => .place (p.mapLine f)
  | .object properties line => .object (MapLine.fields f properties) (f line)
  | .array elements line => .array (MapLine.exprs f elements) (f line)
  | .binary operator left right line => .binary operator (left.mapLine f) (right.mapLine f) (f line)
  | .assign target value line => .assign (target.mapLine f) (value.mapLine f) (f line)
  | .call callee arguments line => .call (callee.mapLine f) (MapLine.exprs f arguments) (f line)
  | .construct target arguments line =>
    .construct (target.mapLine f) (MapLine.exprs f arguments) (f line)
  | .select scrutinee arms line => .select (scrutinee.mapLine f) (MapLine.arms f arms) (f line)
  | .function decl => .function (decl.mapLine f)
  | .attempt body handler line => .attempt (MapLine.stmts f body) (MapLine.stmts f handler) (f line)

def MapLine.exprs (f : Nat → Nat) : List (Expr ι) → List (Expr ι)
  | [] => []
  | e :: rest => e.mapLine f :: MapLine.exprs f rest

def MapLine.fields (f : Nat → Nat) : List (String × Expr ι) → List (String × Expr ι)
  | [] => []
  | (name, value) :: rest => (name, value.mapLine f) :: MapLine.fields f rest

def MapLine.arms (f : Nat → Nat) : List (Arm ι) → List (Arm ι)
  | [] => []
  | arm :: rest => arm.mapLine f :: MapLine.arms f rest

def Arm.mapLine (f : Nat → Nat) : Arm ι → Arm ι
  | .mk patterns isDefault body => .mk (MapLine.exprs f patterns) isDefault (MapLine.stmts f body)

def FunctionDecl.mapLine (f : Nat → Nat) : FunctionDecl ι → FunctionDecl ι
  | .mk identity name parameters body line =>
    .mk identity name parameters (MapLine.stmts f body) (f line)

def MapLine.functions (f : Nat → Nat) : List (FunctionDecl ι) → List (FunctionDecl ι)
  | [] => []
  | decl :: rest => decl.mapLine f :: MapLine.functions f rest

def VariableDecl.mapLine (f : Nat → Nat) : VariableDecl ι → VariableDecl ι
  | .variable name none line => .variable name none (f line)
  | .variable name (some value) line => .variable name (some (value.mapLine f)) (f line)
  | .constant name value line => .constant name (value.mapLine f) (f line)

def ClassDecl.mapLine (f : Nat → Nat) : ClassDecl ι → ClassDecl ι
  | .mk name fieldNames staticFields methods staticMethods line =>
    .mk name fieldNames (MapLine.fields f staticFields) (MapLine.functions f methods)
      (MapLine.functions f staticMethods) (f line)

def Stmt.mapLine (f : Nat → Nat) : Stmt ι → Stmt ι
  | .declare d => .declare (d.mapLine f)
  | .function decl => .function (decl.mapLine f)
  | .branch test body none line => .branch (test.mapLine f) (MapLine.stmts f body) none (f line)
  | .branch test body (some alternate) line =>
    .branch (test.mapLine f) (MapLine.stmts f body) (some (MapLine.stmts f alternate)) (f line)
  | .forLoop start test update body line =>
    .forLoop (start.mapLine f) (test.mapLine f) (update.mapLine f) (MapLine.stmts f body) (f line)
  | .whileLoop test body line => .whileLoop (test.mapLine f) (MapLine.stmts f body) (f line)
  | .returns none line => .returns none (f line)
  | .returns (some value) line => .returns (some (value.mapLine f)) (f line)
  | .breaks line => .breaks (f line)
  | .continues line => .continues (f line)
  | .throws value line => .throws (value.mapLine f) (f line)
  | .declareClass c => .declareClass (c.mapLine f)
  | .declareEnum name members line => .declareEnum name members (f line)
  | .expression e line => .expression (e.mapLine f) (f line)

def MapLine.stmts (f : Nat → Nat) : List (Stmt ι) → List (Stmt ι)
  | [] => []
  | s :: rest => s.mapLine f :: MapLine.stmts f rest

end

/-! ### Results of parsers -/

/-- What carries lines. -/
class Lined (α : Type) where
  mapLine : (Nat → Nat) → α → α

namespace Lined

instance : Lined Unit := ⟨fun _ => id⟩
instance : Lined Bool := ⟨fun _ => id⟩
instance : Lined String := ⟨fun _ => id⟩
instance : Lined Token := ⟨Token.mapLine⟩
instance : Lined (Expr ι) := ⟨Expr.mapLine⟩
instance : Lined (Arm ι) := ⟨Arm.mapLine⟩
instance : Lined (FunctionDecl ι) := ⟨FunctionDecl.mapLine⟩
instance : Lined (VariableDecl ι) := ⟨VariableDecl.mapLine⟩
instance : Lined (Stmt ι) := ⟨Stmt.mapLine⟩

variable {α β : Type} [Lined α] [Lined β]

instance : Lined (List α) := ⟨fun f => List.map (mapLine f)⟩
instance : Lined (Option α) := ⟨fun f => Option.map (mapLine f)⟩
instance : Lined (α × β) := ⟨fun f => Prod.map (mapLine f) (mapLine f)⟩
instance : Lined (α ⊕ β) := ⟨fun f => Sum.map (mapLine f) (mapLine f)⟩

open Grammar.Nested in
instance : Lined ClassParts where
  mapLine f parts :=
    ⟨parts.fields, mapLine f parts.staticFields, mapLine f parts.methods, mapLine f parts.staticMethods⟩

theorem mapLine_reverse {f : Nat → Nat} (l : List α) : mapLine f l.reverse = (mapLine f l).reverse :=
  List.map_reverse

@[simp]
theorem mapLine_strings {f : Nat → Nat} (l : List String) : mapLine f l = l :=
  List.map_id l

end Lined

open Lined

namespace MapLine

variable {f : Nat → Nat}

@[simp]
theorem exprs_eq (es : List (Expr ι)) : exprs f es = mapLine f es := by
  induction es with
  | nil => rfl
  | cons e rest ih => rw [exprs, ih]; rfl

@[simp]
theorem fields_eq (properties : List (String × Expr ι)) : fields f properties = mapLine f properties := by
  induction properties with
  | nil => rfl
  | cons field rest ih => rw [fields, ih]; rfl

@[simp]
theorem arms_eq (as : List (Arm ι)) : arms f as = mapLine f as := by
  induction as with
  | nil => rfl
  | cons arm rest ih => rw [arms, ih]; rfl

@[simp]
theorem functions_eq (fs : List (FunctionDecl ι)) : functions f fs = mapLine f fs := by
  induction fs with
  | nil => rfl
  | cons decl rest ih => rw [functions, ih]; rfl

@[simp]
theorem stmts_eq (body : List (Stmt ι)) : stmts f body = mapLine f body := by
  induction body with
  | nil => rfl
  | cons s rest ih => rw [stmts, ih]; rfl

/-! The constructors that hold lists. The others are as they are defined. -/

theorem object_eq (properties : List (String × Expr ι)) (line : Nat) :
    mapLine f (Expr.object properties line) = .object (mapLine f properties) (f line) :=
  congrArg (Expr.object · (f line)) (fields_eq properties)

theorem array_eq (elements : List (Expr ι)) (line : Nat) :
    mapLine f (Expr.array elements line) = .array (mapLine f elements) (f line) :=
  congrArg (Expr.array · (f line)) (exprs_eq elements)

theorem call_eq (callee : Expr ι) (arguments : List (Expr ι)) (line : Nat) :
    mapLine f (Expr.call callee arguments line) =
      .call (mapLine f callee) (mapLine f arguments) (f line) :=
  congrArg (Expr.call _ · (f line)) (exprs_eq arguments)

theorem construct_eq (target : Place ι) (arguments : List (Expr ι)) (line : Nat) :
    mapLine f (Expr.construct target arguments line) =
      .construct (target.mapLine f) (mapLine f arguments) (f line) :=
  congrArg (Expr.construct _ · (f line)) (exprs_eq arguments)

theorem select_eq (scrutinee : Expr ι) (as : List (Arm ι)) (line : Nat) :
    mapLine f (Expr.select scrutinee as line) = .select (mapLine f scrutinee) (mapLine f as) (f line) :=
  congrArg (Expr.select _ · (f line)) (arms_eq as)

theorem attempt_eq (body handler : List (Stmt ι)) (line : Nat) :
    mapLine f (Expr.attempt body handler line) = .attempt (mapLine f body) (mapLine f handler) (f line) := by
  rw [← stmts_eq, ← stmts_eq]
  rfl

theorem arm_eq (patterns : List (Expr ι)) (isDefault : Bool) (body : List (Stmt ι)) :
    mapLine f (Arm.mk patterns isDefault body) = .mk (mapLine f patterns) isDefault (mapLine f body) := by
  rw [← exprs_eq, ← stmts_eq]
  rfl

theorem function_eq (identity : ι) (name : String) (parameters : List String) (body : List (Stmt ι))
    (line : Nat) :
    mapLine f (FunctionDecl.mk identity name parameters body line) =
      .mk identity name parameters (mapLine f body) (f line) :=
  congrArg (FunctionDecl.mk identity name parameters · (f line)) (stmts_eq body)

theorem class_eq (name : String) (fieldNames : List String) (staticFields : List (String × Expr ι))
    (methods staticMethods : List (FunctionDecl ι)) (line : Nat) :
    mapLine f (Stmt.declareClass (.mk name fieldNames staticFields methods staticMethods line)) =
      .declareClass (.mk name fieldNames (mapLine f staticFields) (mapLine f methods)
        (mapLine f staticMethods) (f line)) := by
  rw [← fields_eq, ← functions_eq, ← functions_eq]
  rfl

theorem branch_eq (test : Expr ι) (body : List (Stmt ι)) (alternate : Option (List (Stmt ι)))
    (line : Nat) :
    mapLine f (Stmt.branch test body alternate line) =
      .branch (mapLine f test) (mapLine f body) (mapLine f alternate) (f line) := by
  cases alternate with
  | none => exact congrArg (Stmt.branch _ · none (f line)) (stmts_eq body)
  | some alternate =>
    show _ = Stmt.branch _ _ (some (mapLine f alternate)) _
    rw [← stmts_eq, ← stmts_eq]
    rfl

theorem forLoop_eq (start : VariableDecl ι) (test update : Expr ι) (body : List (Stmt ι)) (line : Nat) :
    mapLine f (Stmt.forLoop start test update body line) =
      .forLoop (mapLine f start) (mapLine f test) (mapLine f update) (mapLine f body) (f line) :=
  congrArg (Stmt.forLoop _ _ _ · (f line)) (stmts_eq body)

theorem whileLoop_eq (test : Expr ι) (body : List (Stmt ι)) (line : Nat) :
    mapLine f (Stmt.whileLoop test body line) =
      .whileLoop (mapLine f test) (mapLine f body) (f line) :=
  congrArg (Stmt.whileLoop _ · (f line)) (stmts_eq body)

end MapLine

end ScriptLang
