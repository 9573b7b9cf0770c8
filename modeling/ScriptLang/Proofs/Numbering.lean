import ScriptLang.Proofs.Marks

/-! Numbering the functions of a program. Every function gets the next number when it is met, so the numbers
of a program are those from the first on, each once, and they do not depend on lines. -/

namespace ScriptLang

open Lined (mapLine)

variable {ι : Type}

/-! ### Other numbers for lines -/

namespace Numbering

variable {α β : Type} [Lined α] [Lined β] {g : Nat → Nat}

/-- The second computation gives the same with other numbers for lines. -/
def Commutes (g : Nat → Nat) (c c' : StateM Nat α) : Prop :=
  ∀ n, c'.run n = (mapLine g (c.run n).1, (c.run n).2)

theorem Commutes.pure {a a' : α} (h : a' = mapLine g a) : Commutes g (Pure.pure a) (Pure.pure a') :=
  fun _ => h ▸ rfl

theorem Commutes.bind {c c' : StateM Nat α} {f f' : α → StateM Nat β} (h : Commutes g c c')
    (hf : ∀ a, Commutes g (f a) (f' (mapLine g a))) : Commutes g (c >>= f) (c' >>= f') := by
  intro n
  have hrest := hf (c.run n).1 (c.run n).2
  show (f' (c'.run n).1).run (c'.run n).2 = _
  rw [h n]
  exact hrest

end Numbering

open ScriptLang.Numbering (Commutes)

instance : Lined (Place ι) := ⟨Place.mapLine⟩
instance : Lined (ClassDecl ι) := ⟨ClassDecl.mapLine⟩

mutual

theorem Place.number_mapLine (g : Nat → Nat) :
    ∀ p : Place ι, Commutes g (Numbering.place p) (Numbering.place (p.mapLine g))
  | .variable .. => .pure rfl
  | .dot container .. => (container.number_mapLine g).bind fun _ => .pure rfl
  | .index container key _ =>
    (container.number_mapLine g).bind fun _ => (key.number_mapLine g).bind fun _ => .pure rfl

theorem Expr.number_mapLine (g : Nat → Nat) :
    ∀ e : Expr ι, Commutes g (Numbering.expr e) (Numbering.expr (e.mapLine g))
  | .number .. | .string .. => .pure rfl
  | .place p => (p.number_mapLine g).bind fun _ => .pure rfl
  | .object properties line =>
    (Numbering.fields_mapLine g properties).bind fun properties =>
      .pure (MapLine.object_eq properties line).symm
  | .array elements line =>
    (Numbering.exprs_mapLine g elements).bind fun elements =>
      .pure (MapLine.array_eq elements line).symm
  | .binary _ left right _ =>
    (left.number_mapLine g).bind fun _ => (right.number_mapLine g).bind fun _ => .pure rfl
  | .assign target value _ =>
    (target.number_mapLine g).bind fun _ => (value.number_mapLine g).bind fun _ => .pure rfl
  | .call callee arguments line =>
    (callee.number_mapLine g).bind fun callee => (Numbering.exprs_mapLine g arguments).bind fun arguments =>
      .pure (MapLine.call_eq callee arguments line).symm
  | .construct target arguments line =>
    (target.number_mapLine g).bind fun target => (Numbering.exprs_mapLine g arguments).bind fun arguments =>
      .pure (MapLine.construct_eq target arguments line).symm
  | .select scrutinee arms line =>
    (scrutinee.number_mapLine g).bind fun scrutinee => (Numbering.arms_mapLine g arms).bind fun arms =>
      .pure (MapLine.select_eq scrutinee arms line).symm
  | .function f => (f.number_mapLine g).bind fun _ => .pure rfl
  | .attempt body handler line =>
    (Numbering.stmts_mapLine g body).bind fun body => (Numbering.stmts_mapLine g handler).bind fun handler =>
      .pure (MapLine.attempt_eq body handler line).symm

theorem Numbering.exprs_mapLine (g : Nat → Nat) :
    ∀ es : List (Expr ι), Commutes g (Numbering.exprs es) (Numbering.exprs (MapLine.exprs g es))
  | [] => .pure rfl
  | e :: rest => (e.number_mapLine g).bind fun _ => (Numbering.exprs_mapLine g rest).bind fun _ => .pure rfl

theorem Numbering.fields_mapLine (g : Nat → Nat) :
    ∀ properties : List (String × Expr ι),
      Commutes g (Numbering.fields properties) (Numbering.fields (MapLine.fields g properties))
  | [] => .pure rfl
  | (_, value) :: rest =>
    (value.number_mapLine g).bind fun _ => (Numbering.fields_mapLine g rest).bind fun _ => .pure rfl

theorem Numbering.arms_mapLine (g : Nat → Nat) :
    ∀ arms : List (Arm ι), Commutes g (Numbering.armList arms) (Numbering.armList (MapLine.arms g arms))
  | [] => .pure rfl
  | .mk patterns isDefault body :: rest =>
    (Numbering.exprs_mapLine g patterns).bind fun patterns =>
      (Numbering.stmts_mapLine g body).bind fun body => (Numbering.arms_mapLine g rest).bind fun rest =>
        .pure (congrArg (· :: mapLine g rest) (MapLine.arm_eq patterns isDefault body).symm)

theorem FunctionDecl.number_mapLine (g : Nat → Nat) :
    ∀ f : FunctionDecl ι, Commutes g (Numbering.function f) (Numbering.function (f.mapLine g))
  | .mk _ name parameters body line => by
    intro n
    have hrest : Commutes g (do return FunctionDecl.mk n name parameters (← Numbering.stmts body) line)
        (do return .mk n name parameters (← Numbering.stmts (MapLine.stmts g body)) (g line)) :=
      (Numbering.stmts_mapLine g body).bind fun body =>
        .pure (MapLine.function_eq n name parameters body line).symm
    exact hrest (n + 1)

theorem Numbering.functions_mapLine (g : Nat → Nat) :
    ∀ fs : List (FunctionDecl ι),
      Commutes g (Numbering.functions fs) (Numbering.functions (MapLine.functions g fs))
  | [] => .pure rfl
  | f :: rest =>
    (f.number_mapLine g).bind fun _ => (Numbering.functions_mapLine g rest).bind fun _ => .pure rfl

theorem VariableDecl.number_mapLine (g : Nat → Nat) :
    ∀ d : VariableDecl ι, Commutes g (Numbering.variableDecl d) (Numbering.variableDecl (d.mapLine g))
  | .constant _ value _ | .variable _ (some value) _ => (value.number_mapLine g).bind fun _ => .pure rfl
  | .variable _ none _ => .pure rfl

theorem ClassDecl.number_mapLine (g : Nat → Nat) :
    ∀ c : ClassDecl ι, Commutes g (Numbering.classDecl c) (Numbering.classDecl (c.mapLine g))
  | .mk name fieldNames staticFields methods staticMethods line =>
    (Numbering.fields_mapLine g staticFields).bind fun staticFields =>
      (Numbering.functions_mapLine g methods).bind fun methods =>
        (Numbering.functions_mapLine g staticMethods).bind fun staticMethods =>
          .pure (Stmt.declareClass.inj
            (MapLine.class_eq name fieldNames staticFields methods staticMethods line)).symm

theorem Stmt.number_mapLine (g : Nat → Nat) :
    ∀ s : Stmt ι, Commutes g (Numbering.stmt s) (Numbering.stmt (s.mapLine g))
  | .declare d => (d.number_mapLine g).bind fun _ => .pure rfl
  | .function f => (f.number_mapLine g).bind fun _ => .pure rfl
  | .branch test body none line =>
    (test.number_mapLine g).bind fun test => (Numbering.stmts_mapLine g body).bind fun body =>
      .pure (MapLine.branch_eq test body none line).symm
  | .branch test body (some alternate) line =>
    (test.number_mapLine g).bind fun test => (Numbering.stmts_mapLine g body).bind fun body =>
      (Numbering.stmts_mapLine g alternate).bind fun alternate =>
        .pure (MapLine.branch_eq test body (some alternate) line).symm
  | .forLoop start test update body line =>
    (start.number_mapLine g).bind fun start => (test.number_mapLine g).bind fun test =>
      (update.number_mapLine g).bind fun update => (Numbering.stmts_mapLine g body).bind fun body =>
        .pure (MapLine.forLoop_eq start test update body line).symm
  | .whileLoop test body line =>
    (test.number_mapLine g).bind fun test => (Numbering.stmts_mapLine g body).bind fun body =>
      .pure (MapLine.whileLoop_eq test body line).symm
  | .returns none _ | .breaks _ | .continues _ | .declareEnum .. => .pure rfl
  | .returns (some value) _ | .throws value _ | .expression value _ =>
    (value.number_mapLine g).bind fun _ => .pure rfl
  | .declareClass c => (c.number_mapLine g).bind fun _ => .pure rfl

theorem Numbering.stmts_mapLine (g : Nat → Nat) :
    ∀ body : List (Stmt ι), Commutes g (Numbering.stmts body) (Numbering.stmts (MapLine.stmts g body))
  | [] => .pure rfl
  | s :: rest => (s.number_mapLine g).bind fun _ => (Numbering.stmts_mapLine g rest).bind fun _ => .pure rfl

end

theorem Program.identify_mapLine (program : Program ι) (g : Nat → Nat) (first : Nat) :
    Program.identify (mapLine g program) first =
      (mapLine g (program.identify first).1, (program.identify first).2) := by
  rw [← MapLine.stmts_eq]
  exact Numbering.stmts_mapLine g program first

/-! ### The numbers of a program -/

def Mark.function? : Mark ι → Option (FunctionDecl ι)
  | line _ => none
  | function f => some f

/-- The functions of a program, each ahead of those inside of it. -/
def Program.functions (program : Program ι) : List (FunctionDecl ι) :=
  (Marks.stmts program).filterMap Mark.function?

namespace Marks

variable {marks others : List (Mark ι)} {marks' others' : List (Mark Nat)} {n n' n'' : Nat}

/-- The functions among the second marks are those among the first, numbered from `n` up to `n'`. -/
structure Numbers (marks : List (Mark ι)) (n : Nat) (marks' : List (Mark Nat)) (n' : Nat) : Prop where
  lines_eq : (marks'.filterMap Mark.function?).map FunctionDecl.line =
    (marks.filterMap Mark.function?).map FunctionDecl.line
  identities_eq : (marks'.filterMap Mark.function?).map FunctionDecl.identity =
    List.range' n (marks'.filterMap Mark.function?).length
  next_eq : n' = n + (marks'.filterMap Mark.function?).length

namespace Numbers

theorem nil : Numbers ([] : List (Mark ι)) n [] n :=
  ⟨rfl, rfl, rfl⟩

theorem line {k k' : Nat} (h : Numbers marks n marks' n') :
    Numbers (.line k :: marks) n (.line k' :: marks') n' :=
  ⟨h.lines_eq, h.identities_eq, h.next_eq⟩

theorem append (h : Numbers marks n marks' n') (h' : Numbers others n' others' n'') :
    Numbers (marks ++ others) n (marks' ++ others') n'' := by
  obtain rfl := h.next_eq
  refine ⟨?_, ?_, ?_⟩
  · rw [List.filterMap_append, List.filterMap_append, List.map_append, List.map_append, h.lines_eq,
      h'.lines_eq]
  · rw [List.filterMap_append, List.map_append, h.identities_eq, h'.identities_eq,
      List.range'_append_1, List.length_append]
  · rw [h'.next_eq, List.filterMap_append, List.length_append, Nat.add_assoc]

theorem function {f : FunctionDecl ι} {f' : FunctionDecl Nat} (hline : f'.line = f.line)
    (hidentity : f'.identity = n) (h : Numbers marks (n + 1) marks' n') :
    Numbers (.function f :: marks) n (.function f' :: marks') n' := by
  refine ⟨List.cons_eq_cons.mpr ⟨hline, h.lines_eq⟩, ?_, ?_⟩
  · exact List.cons_eq_cons.mpr ⟨hidentity, h.identities_eq⟩
  · exact h.next_eq.trans (Nat.add_right_comm n 1 _)

end Numbers

end Marks

open Marks (Numbers)

mutual

theorem Place.numbers (n : Nat) :
    ∀ p : Place ι, Numbers p.marks n ((Numbering.place p).run n).1.marks ((Numbering.place p).run n).2
  | .variable .. => .line .nil
  | .dot container .. => .line (.line (container.numbers n))
  | .index container key _ => .line ((container.numbers n).append (key.numbers _))

theorem Expr.numbers (n : Nat) :
    ∀ e : Expr ι, Numbers e.marks n ((Numbering.expr e).run n).1.marks ((Numbering.expr e).run n).2
  | .number .. | .string .. => .line .nil
  | .place p => p.numbers n
  | .object properties _ => .line (Marks.fields_numbers n properties)
  | .array elements _ => .line (Marks.exprs_numbers n elements)
  | .binary _ left right _ => .line ((left.numbers n).append (right.numbers _))
  | .assign target value _ => .line ((target.numbers n).append (value.numbers _))
  | .call callee arguments _ => .line ((callee.numbers n).append (Marks.exprs_numbers _ arguments))
  | .construct target arguments _ => .line ((target.numbers n).append (Marks.exprs_numbers _ arguments))
  | .select scrutinee arms _ => .line ((scrutinee.numbers n).append (Marks.arms_numbers _ arms))
  | .function f => f.numbers n
  | .attempt body handler _ => .line ((Marks.stmts_numbers n body).append (Marks.stmts_numbers _ handler))

theorem Marks.exprs_numbers (n : Nat) :
    ∀ es : List (Expr ι),
      Numbers (Marks.exprs es) n (Marks.exprs ((Numbering.exprs es).run n).1) ((Numbering.exprs es).run n).2
  | [] => .nil
  | e :: rest => (e.numbers n).append (Marks.exprs_numbers _ rest)

theorem Marks.fields_numbers (n : Nat) :
    ∀ properties : List (String × Expr ι),
      Numbers (Marks.fields properties) n (Marks.fields ((Numbering.fields properties).run n).1)
        ((Numbering.fields properties).run n).2
  | [] => .nil
  | (_, value) :: rest => (value.numbers n).append (Marks.fields_numbers _ rest)

theorem Marks.arms_numbers (n : Nat) :
    ∀ arms : List (Arm ι),
      Numbers (Marks.arms arms) n (Marks.arms ((Numbering.armList arms).run n).1)
        ((Numbering.armList arms).run n).2
  | [] => .nil
  | .mk patterns _ body :: rest =>
    ((Marks.exprs_numbers n patterns).append (Marks.stmts_numbers _ body)).append (Marks.arms_numbers _ rest)

theorem FunctionDecl.numbers (n : Nat) :
    ∀ f : FunctionDecl ι,
      Numbers f.marks n ((Numbering.function f).run n).1.marks ((Numbering.function f).run n).2
  | .mk _ _ _ body _ => .function rfl rfl (.line (Marks.stmts_numbers (n + 1) body))

theorem Marks.functions_numbers (n : Nat) :
    ∀ fs : List (FunctionDecl ι),
      Numbers (Marks.functions fs) n (Marks.functions ((Numbering.functions fs).run n).1)
        ((Numbering.functions fs).run n).2
  | [] => .nil
  | f :: rest => (f.numbers n).append (Marks.functions_numbers _ rest)

theorem VariableDecl.numbers (n : Nat) :
    ∀ d : VariableDecl ι,
      Numbers d.marks n ((Numbering.variableDecl d).run n).1.marks ((Numbering.variableDecl d).run n).2
  | .constant _ value _ | .variable _ (some value) _ => .line (value.numbers n)
  | .variable _ none _ => .line .nil

theorem ClassDecl.numbers (n : Nat) :
    ∀ c : ClassDecl ι,
      Numbers c.marks n ((Numbering.classDecl c).run n).1.marks ((Numbering.classDecl c).run n).2
  | .mk _ _ staticFields methods staticMethods _ =>
    .line ((Marks.fields_numbers n staticFields).append
      ((Marks.functions_numbers _ methods).append (Marks.functions_numbers _ staticMethods)))

theorem Stmt.numbers (n : Nat) :
    ∀ s : Stmt ι, Numbers s.marks n ((Numbering.stmt s).run n).1.marks ((Numbering.stmt s).run n).2
  | .declare d => d.numbers n
  | .function f => f.numbers n
  | .branch test body none _ => .line ((test.numbers n).append (Marks.stmts_numbers _ body))
  | .branch test body (some alternate) _ =>
    .line ((test.numbers n).append
      ((Marks.stmts_numbers _ body).append (Marks.stmts_numbers _ alternate)))
  | .forLoop start test update body _ =>
    .line ((start.numbers n).append ((test.numbers _).append
      ((update.numbers _).append (Marks.stmts_numbers _ body))))
  | .whileLoop test body _ => .line ((test.numbers n).append (Marks.stmts_numbers _ body))
  | .returns none _ | .breaks _ | .continues _ | .declareEnum .. => .line .nil
  | .returns (some value) _ | .throws value _ | .expression value _ => .line (value.numbers n)
  | .declareClass c => c.numbers n

theorem Marks.stmts_numbers (n : Nat) :
    ∀ body : List (Stmt ι),
      Numbers (Marks.stmts body) n (Marks.stmts ((Numbering.stmts body).run n).1)
        ((Numbering.stmts body).run n).2
  | [] => .nil
  | s :: rest => (s.numbers n).append (Marks.stmts_numbers _ rest)

end

end ScriptLang
