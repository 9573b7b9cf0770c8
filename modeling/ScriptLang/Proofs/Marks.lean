import ScriptLang.Proofs.Relabelling
import ScriptLang.Syntax.Identity

/-! What a tree is marked with: the numbers of its lines, and its functions. Other numbers for lines change
the marks one by one, and numbering a program tells its functions apart. -/

namespace ScriptLang

variable {ι : Type}

inductive Mark (ι : Type)
  | line (n : Nat)
  | function (f : FunctionDecl ι)

/-! ### Marks of trees -/

mutual

def Place.marks : Place ι → List (Mark ι)
  | .variable _ line => [.line line]
  | .dot container _ nameLine line => .line line :: .line nameLine :: container.marks
  | .index container key line => .line line :: (container.marks ++ key.marks)

def Expr.marks : Expr ι → List (Mark ι)
  | .number _ line | .string _ line => [.line line]
  | .place p => p.marks
  | .object properties line => .line line :: Marks.fields properties
  | .array elements line => .line line :: Marks.exprs elements
  | .binary _ left right line => .line line :: (left.marks ++ right.marks)
  | .assign target value line => .line line :: (target.marks ++ value.marks)
  | .call callee arguments line => .line line :: (callee.marks ++ Marks.exprs arguments)
  | .construct target arguments line => .line line :: (target.marks ++ Marks.exprs arguments)
  | .select scrutinee arms line => .line line :: (scrutinee.marks ++ Marks.arms arms)
  | .function f => f.marks
  | .attempt body handler line => .line line :: (Marks.stmts body ++ Marks.stmts handler)

def Marks.exprs : List (Expr ι) → List (Mark ι)
  | [] => []
  | e :: rest => e.marks ++ Marks.exprs rest

def Marks.fields : List (String × Expr ι) → List (Mark ι)
  | [] => []
  | (_, value) :: rest => value.marks ++ Marks.fields rest

def Marks.arms : List (Arm ι) → List (Mark ι)
  | [] => []
  | arm :: rest => arm.marks ++ Marks.arms rest

def Arm.marks : Arm ι → List (Mark ι)
  | .mk patterns _ body => Marks.exprs patterns ++ Marks.stmts body

/-- A function is a mark of its own, ahead of those inside of it. -/
def FunctionDecl.marks : FunctionDecl ι → List (Mark ι)
  | .mk identity name parameters body line =>
    .function (.mk identity name parameters body line) :: .line line :: Marks.stmts body

def Marks.functions : List (FunctionDecl ι) → List (Mark ι)
  | [] => []
  | f :: rest => f.marks ++ Marks.functions rest

def VariableDecl.marks : VariableDecl ι → List (Mark ι)
  | .variable _ none line => [.line line]
  | .variable _ (some value) line | .constant _ value line => .line line :: value.marks

def ClassDecl.marks : ClassDecl ι → List (Mark ι)
  | .mk _ _ staticFields methods staticMethods line =>
    .line line ::
      (Marks.fields staticFields ++ (Marks.functions methods ++ Marks.functions staticMethods))

def Stmt.marks : Stmt ι → List (Mark ι)
  | .declare d => d.marks
  | .function f => f.marks
  | .branch test body none line => .line line :: (test.marks ++ Marks.stmts body)
  | .branch test body (some alternate) line =>
    .line line :: (test.marks ++ (Marks.stmts body ++ Marks.stmts alternate))
  | .forLoop start test update body line =>
    .line line :: (start.marks ++ (test.marks ++ (update.marks ++ Marks.stmts body)))
  | .whileLoop test body line => .line line :: (test.marks ++ Marks.stmts body)
  | .returns none line | .breaks line | .continues line | .declareEnum _ _ line => [.line line]
  | .returns (some value) line | .throws value line => .line line :: value.marks
  | .declareClass c => c.marks
  | .expression e line => .line line :: e.marks

def Marks.stmts : List (Stmt ι) → List (Mark ι)
  | [] => []
  | s :: rest => s.marks ++ Marks.stmts rest

end

namespace Marks

theorem exprs_eq (es : List (Expr ι)) : exprs es = es.flatMap Expr.marks := by
  induction es with
  | nil => rfl
  | cons e rest ih => exact congrArg (e.marks ++ ·) ih

theorem fields_eq (properties : List (String × Expr ι)) :
    fields properties = properties.flatMap (·.2.marks) := by
  induction properties with
  | nil => rfl
  | cons field rest ih => exact congrArg (field.2.marks ++ ·) ih

theorem arms_eq (as : List (Arm ι)) : arms as = as.flatMap Arm.marks := by
  induction as with
  | nil => rfl
  | cons arm rest ih => exact congrArg (arm.marks ++ ·) ih

theorem functions_eq (fs : List (FunctionDecl ι)) : functions fs = fs.flatMap FunctionDecl.marks := by
  induction fs with
  | nil => rfl
  | cons f rest ih => exact congrArg (f.marks ++ ·) ih

theorem stmts_eq (body : List (Stmt ι)) : stmts body = body.flatMap Stmt.marks := by
  induction body with
  | nil => rfl
  | cons s rest ih => exact congrArg (s.marks ++ ·) ih

end Marks

/-! ### Other numbers for lines -/

def Mark.mapLine (g : Nat → Nat) : Mark ι → Mark ι
  | line n => line (g n)
  | function f => function (f.mapLine g)

namespace Marks

variable {g : Nat → Nat} {marks marks' others others' : List (Mark ι)} {m m' : Mark ι}

/-- The second list of marks is the first with other numbers for lines. -/
def Maps (g : Nat → Nat) (marks marks' : List (Mark ι)) : Prop :=
  marks' = marks.map (Mark.mapLine g)

theorem Maps.append (h : Maps g marks marks') (h' : Maps g others others') :
    Maps g (marks ++ others) (marks' ++ others') := by
  rw [Maps, List.map_append, ← h, ← h']

theorem Maps.cons (h : Maps g marks marks') : Maps g (m :: marks) (m.mapLine g :: marks') :=
  congrArg (m.mapLine g :: ·) h

theorem Maps.nil : Maps g ([] : List (Mark ι)) [] :=
  rfl

end Marks

open Marks (Maps)

mutual

theorem Place.marks_maps (g : Nat → Nat) : ∀ p : Place ι, Maps g p.marks (p.mapLine g).marks
  | .variable .. => .cons .nil
  | .dot container .. => .cons (.cons (container.marks_maps g))
  | .index container key _ => .cons ((container.marks_maps g).append (key.marks_maps g))

theorem Expr.marks_maps (g : Nat → Nat) : ∀ e : Expr ι, Maps g e.marks (e.mapLine g).marks
  | .number .. | .string .. => .cons .nil
  | .place p => p.marks_maps g
  | .object properties _ => .cons (Marks.fields_maps g properties)
  | .array elements _ => .cons (Marks.exprs_maps g elements)
  | .binary _ left right _ => .cons ((left.marks_maps g).append (right.marks_maps g))
  | .assign target value _ => .cons ((target.marks_maps g).append (value.marks_maps g))
  | .call callee arguments _ => .cons ((callee.marks_maps g).append (Marks.exprs_maps g arguments))
  | .construct target arguments _ => .cons ((target.marks_maps g).append (Marks.exprs_maps g arguments))
  | .select scrutinee arms _ => .cons ((scrutinee.marks_maps g).append (Marks.arms_maps g arms))
  | .function f => f.marks_maps g
  | .attempt body handler _ => .cons ((Marks.stmts_maps g body).append (Marks.stmts_maps g handler))

theorem Marks.exprs_maps (g : Nat → Nat) :
    ∀ es : List (Expr ι), Maps g (Marks.exprs es) (Marks.exprs (MapLine.exprs g es))
  | [] => .nil
  | e :: rest => (e.marks_maps g).append (Marks.exprs_maps g rest)

theorem Marks.fields_maps (g : Nat → Nat) :
    ∀ properties : List (String × Expr ι),
      Maps g (Marks.fields properties) (Marks.fields (MapLine.fields g properties))
  | [] => .nil
  | (_, value) :: rest => (value.marks_maps g).append (Marks.fields_maps g rest)

theorem Marks.arms_maps (g : Nat → Nat) :
    ∀ as : List (Arm ι), Maps g (Marks.arms as) (Marks.arms (MapLine.arms g as))
  | [] => .nil
  | arm :: rest => (arm.marks_maps g).append (Marks.arms_maps g rest)

theorem Arm.marks_maps (g : Nat → Nat) : ∀ arm : Arm ι, Maps g arm.marks (arm.mapLine g).marks
  | .mk patterns _ body => (Marks.exprs_maps g patterns).append (Marks.stmts_maps g body)

theorem FunctionDecl.marks_maps (g : Nat → Nat) :
    ∀ f : FunctionDecl ι, Maps g f.marks (f.mapLine g).marks
  | .mk _ _ _ body _ => .cons (.cons (Marks.stmts_maps g body))

theorem Marks.functions_maps (g : Nat → Nat) :
    ∀ fs : List (FunctionDecl ι), Maps g (Marks.functions fs) (Marks.functions (MapLine.functions g fs))
  | [] => .nil
  | f :: rest => (f.marks_maps g).append (Marks.functions_maps g rest)

theorem VariableDecl.marks_maps (g : Nat → Nat) :
    ∀ d : VariableDecl ι, Maps g d.marks (d.mapLine g).marks
  | .constant _ value _ | .variable _ (some value) _ => .cons (value.marks_maps g)
  | .variable _ none _ => .cons .nil

theorem ClassDecl.marks_maps (g : Nat → Nat) : ∀ c : ClassDecl ι, Maps g c.marks (c.mapLine g).marks
  | .mk _ _ staticFields methods staticMethods _ =>
    .cons ((Marks.fields_maps g staticFields).append
      ((Marks.functions_maps g methods).append (Marks.functions_maps g staticMethods)))

theorem Stmt.marks_maps (g : Nat → Nat) : ∀ s : Stmt ι, Maps g s.marks (s.mapLine g).marks
  | .declare d => d.marks_maps g
  | .function f => f.marks_maps g
  | .branch test body none _ => .cons ((test.marks_maps g).append (Marks.stmts_maps g body))
  | .branch test body (some alternate) _ =>
    .cons ((test.marks_maps g).append
      ((Marks.stmts_maps g body).append (Marks.stmts_maps g alternate)))
  | .forLoop start test update body _ =>
    .cons ((start.marks_maps g).append ((test.marks_maps g).append
      ((update.marks_maps g).append (Marks.stmts_maps g body))))
  | .whileLoop test body _ => .cons ((test.marks_maps g).append (Marks.stmts_maps g body))
  | .returns none _ | .breaks _ | .continues _ | .declareEnum .. => .cons .nil
  | .returns (some value) _ | .throws value _ | .expression value _ => .cons (value.marks_maps g)
  | .declareClass c => c.marks_maps g

theorem Marks.stmts_maps (g : Nat → Nat) :
    ∀ body : List (Stmt ι), Maps g (Marks.stmts body) (Marks.stmts (MapLine.stmts g body))
  | [] => .nil
  | s :: rest => (s.marks_maps g).append (Marks.stmts_maps g rest)

end

end ScriptLang
