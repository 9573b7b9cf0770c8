import ScriptLang.Proofs.Marks
import ScriptLang.Token

/-! How many functions there are on a line, and how many tokens that a function can be read from. -/

namespace ScriptLang

open TokenKind (keyword symbol)

variable {ι α β γ : Type} {n : Nat}

/-- Tokens of the kind can be what a function is read from. -/
def TokenKind.Introduces (kind : TokenKind) : Prop :=
  kind = keyword .fnKw ∨ kind = .identifier ∨ kind = symbol .arrow

instance (kind : TokenKind) : Decidable kind.Introduces :=
  inferInstanceAs (Decidable (_ ∨ _))

/-! ### Charges -/

/-- How many functions on line `n` something has, or may still introduce. -/
class Charged (α : Type) where
  charge : Nat → α → Nat

open Charged (charge)

instance : Charged Token :=
  ⟨fun n t => if t.line = n ∧ t.kind.Introduces then 1 else 0⟩

instance : Charged (Mark ι) where
  charge n
    | .line _ => 0
    | .function f => if f.line = n then 1 else 0

instance [Charged α] : Charged (List α) :=
  ⟨fun n as => as.foldr (fun a rest => charge n a + rest) 0⟩

instance [Charged α] : Charged (Option α) where
  charge n
    | none => 0
    | some a => charge n a

instance [Charged α] [Charged β] : Charged (α × β) :=
  ⟨fun n pair => charge n pair.1 + charge n pair.2⟩

instance [Charged α] [Charged β] : Charged (α ⊕ β) where
  charge n
    | .inl a => charge n a
    | .inr b => charge n b

instance : Charged Unit := ⟨fun _ _ => 0⟩
instance : Charged Bool := ⟨fun _ _ => 0⟩
instance : Charged String := ⟨fun _ _ => 0⟩
instance : Charged (Place ι) := ⟨fun n p => charge n p.marks⟩
instance : Charged (Expr ι) := ⟨fun n e => charge n e.marks⟩
instance : Charged (Arm ι) := ⟨fun n arm => charge n arm.marks⟩
instance : Charged (FunctionDecl ι) := ⟨fun n f => charge n f.marks⟩
instance : Charged (VariableDecl ι) := ⟨fun n d => charge n d.marks⟩
instance : Charged (Stmt ι) := ⟨fun n s => charge n s.marks⟩

section Lists

variable [Charged α] [Charged β]

@[simp]
theorem charge_nil : charge n ([] : List α) = 0 :=
  rfl

@[simp]
theorem charge_cons {a : α} {as : List α} : charge n (a :: as) = charge n a + charge n as :=
  rfl

@[simp]
theorem charge_append {as bs : List α} : charge n (as ++ bs) = charge n as + charge n bs := by
  induction as with
  | nil => exact (Nat.zero_add _).symm
  | cons a as ih => rw [List.cons_append, charge_cons, charge_cons, ih, Nat.add_assoc]

@[simp]
theorem charge_reverse {as : List α} : charge n as.reverse = charge n as := by
  induction as with
  | nil => rfl
  | cons a as ih =>
    rw [List.reverse_cons, charge_append, ih, charge_cons, charge_cons, charge_nil, Nat.add_zero,
      Nat.add_comm]

theorem charge_flatMap {as : List α} {f : α → List β} (h : ∀ a, charge n (f a) = charge n a) :
    charge n (as.flatMap f) = charge n as := by
  induction as with
  | nil => rfl
  | cons a as ih => rw [List.flatMap_cons, charge_append, h, ih, charge_cons]

@[simp]
theorem charge_none : charge n (none : Option α) = 0 :=
  rfl

@[simp]
theorem charge_some {a : α} : charge n (some a) = charge n a :=
  rfl

@[simp]
theorem charge_pair {a : α} {b : β} : charge n (a, b) = charge n a + charge n b :=
  rfl

@[simp]
theorem charge_inl {a : α} : charge n (.inl a : α ⊕ β) = charge n a :=
  rfl

@[simp]
theorem charge_inr {b : β} : charge n (.inr b : α ⊕ β) = charge n b :=
  rfl

end Lists

@[simp]
theorem charge_unit {u : Unit} : charge n u = 0 :=
  rfl

@[simp]
theorem charge_bool {b : Bool} : charge n b = 0 :=
  rfl

@[simp]
theorem charge_string {text : String} : charge n text = 0 :=
  rfl

theorem charge_token {t : Token} (h : t.kind.Introduces) : charge n t = if t.line = n then 1 else 0 := by
  show (if t.line = n ∧ t.kind.Introduces then 1 else 0) = _
  simp only [h, and_true]

/-! ### Charges of trees -/

section Marks

variable {line : Nat} {marks others : List (Mark ι)}

@[simp]
theorem charge_line : charge n (Mark.line line :: marks) = charge n marks :=
  Nat.zero_add _

theorem charge_exprs {es : List (Expr ι)} : charge n (Marks.exprs es) = charge n es :=
  (congrArg (charge n) (Marks.exprs_eq es)).trans (charge_flatMap fun _ => rfl)

theorem charge_fields {properties : List (String × Expr ι)} :
    charge n (Marks.fields properties) = charge n properties :=
  (congrArg (charge n) (Marks.fields_eq properties)).trans
    (charge_flatMap fun _ => (Nat.zero_add _).symm)

theorem charge_arms {arms : List (Arm ι)} : charge n (Marks.arms arms) = charge n arms :=
  (congrArg (charge n) (Marks.arms_eq arms)).trans (charge_flatMap fun _ => rfl)

theorem charge_functions {fs : List (FunctionDecl ι)} : charge n (Marks.functions fs) = charge n fs :=
  (congrArg (charge n) (Marks.functions_eq fs)).trans (charge_flatMap fun _ => rfl)

theorem charge_stmts {body : List (Stmt ι)} : charge n (Marks.stmts body) = charge n body :=
  (congrArg (charge n) (Marks.stmts_eq body)).trans (charge_flatMap fun _ => rfl)

end Marks

section Trees

variable {line nameLine : Nat} {name text : String} {x : Float} {operator : Operator} {p : Place ι}
  {e left right test update : Expr ι} {es : List (Expr ι)} {arms : List (Arm ι)} {f : FunctionDecl ι}
  {fields : List (String × Expr ι)} {body handler : List (Stmt ι)} {isDefault : Bool}
  {identity : ι} {names : List String} {methods staticMethods : List (FunctionDecl ι)}
  {start : VariableDecl ι} {alternate : Option (List (Stmt ι))} {value : Option (Expr ι)}

@[simp]
theorem charge_variable : charge n (Place.variable name line : Place ι) = 0 :=
  rfl

@[simp]
theorem charge_dot : charge n (Place.dot e name nameLine line) = charge n e :=
  charge_line.trans charge_line

@[simp]
theorem charge_index : charge n (Place.index left right line) = charge n left + charge n right :=
  charge_line.trans charge_append

@[simp]
theorem charge_number : charge n (Expr.number x line : Expr ι) = 0 :=
  rfl

@[simp]
theorem charge_text : charge n (Expr.string text line : Expr ι) = 0 :=
  rfl

@[simp]
theorem charge_place : charge n (Expr.place p) = charge n p :=
  rfl

@[simp]
theorem charge_object : charge n (Expr.object fields line) = charge n fields :=
  charge_line.trans charge_fields

@[simp]
theorem charge_array : charge n (Expr.array es line) = charge n es :=
  charge_line.trans charge_exprs

@[simp]
theorem charge_binary :
    charge n (Expr.binary operator left right line) = charge n left + charge n right :=
  charge_line.trans charge_append

@[simp]
theorem charge_assign : charge n (Expr.assign p e line) = charge n p + charge n e :=
  charge_line.trans charge_append

@[simp]
theorem charge_call : charge n (Expr.call e es line) = charge n e + charge n es :=
  charge_line.trans (charge_append.trans (congrArg _ charge_exprs))

@[simp]
theorem charge_construct : charge n (Expr.construct p es line) = charge n p + charge n es :=
  charge_line.trans (charge_append.trans (congrArg _ charge_exprs))

@[simp]
theorem charge_select : charge n (Expr.select e arms line) = charge n e + charge n arms :=
  charge_line.trans (charge_append.trans (congrArg _ charge_arms))

@[simp]
theorem charge_function : charge n (Expr.function f) = charge n f :=
  rfl

@[simp]
theorem charge_attempt : charge n (Expr.attempt body handler line) = charge n body + charge n handler :=
  charge_line.trans (charge_append.trans (congr (congrArg _ charge_stmts) charge_stmts))

@[simp]
theorem charge_arm : charge n (Arm.mk es isDefault body) = charge n es + charge n body :=
  charge_append.trans (congr (congrArg _ charge_exprs) charge_stmts)

@[simp]
theorem charge_functionDecl :
    charge n (FunctionDecl.mk identity name names body line) =
      (if line = n then 1 else 0) + charge n body :=
  charge_cons.trans (congrArg _ (charge_line.trans charge_stmts))

@[simp]
theorem charge_variableDecl : charge n (VariableDecl.variable name value line) = charge n value := by
  cases value with
  | none => rfl
  | some value => exact charge_line

@[simp]
theorem charge_constantDecl : charge n (VariableDecl.constant name e line) = charge n e :=
  charge_line

@[simp]
theorem charge_declare : charge n (Stmt.declare start) = charge n start :=
  rfl

@[simp]
theorem charge_functionStmt : charge n (Stmt.function f) = charge n f :=
  rfl

@[simp]
theorem charge_branch :
    charge n (Stmt.branch test body alternate line) =
      charge n test + (charge n body + charge n alternate) := by
  cases alternate with
  | none => exact charge_line.trans (charge_append.trans (congrArg _ charge_stmts))
  | some alternate =>
    refine charge_line.trans (charge_append.trans (congrArg _ ?_))
    exact charge_append.trans (congr (congrArg _ charge_stmts) charge_stmts)

@[simp]
theorem charge_forLoop :
    charge n (Stmt.forLoop start test update body line) =
      charge n start + (charge n test + (charge n update + charge n body)) :=
  charge_line.trans (charge_append.trans (congrArg _ (charge_append.trans (congrArg _
    (charge_append.trans (congrArg _ charge_stmts))))))

@[simp]
theorem charge_whileLoop : charge n (Stmt.whileLoop test body line) = charge n test + charge n body :=
  charge_line.trans (charge_append.trans (congrArg _ charge_stmts))

@[simp]
theorem charge_returns : charge n (Stmt.returns value line) = charge n value := by
  cases value with
  | none => rfl
  | some value => exact charge_line

@[simp]
theorem charge_breaks : charge n (Stmt.breaks line : Stmt ι) = 0 :=
  rfl

@[simp]
theorem charge_continues : charge n (Stmt.continues line : Stmt ι) = 0 :=
  rfl

@[simp]
theorem charge_throws : charge n (Stmt.throws e line) = charge n e :=
  charge_line

@[simp]
theorem charge_declareClass :
    charge n (Stmt.declareClass (.mk name names fields methods staticMethods line)) =
      charge n fields + (charge n methods + charge n staticMethods) :=
  charge_line.trans (charge_append.trans (congr (congrArg _ charge_fields)
    (charge_append.trans (congr (congrArg _ charge_functions) charge_functions))))

@[simp]
theorem charge_declareEnum : charge n (Stmt.declareEnum name names line : Stmt ι) = 0 :=
  rfl

@[simp]
theorem charge_expression : charge n (Stmt.expression e line) = charge n e :=
  charge_line

end Trees

end ScriptLang
