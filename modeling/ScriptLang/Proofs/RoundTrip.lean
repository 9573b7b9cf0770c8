import ScriptLang.Proofs.Command

/-! Every well-formed program is read back from the tokens that spell it. -/

namespace ScriptLang

open Grammar
open TokenKind (symbol)
open Token (mark)
open Spelling

mutual

theorem Place.WellFormed.spells : ∀ {p : Place Unit}, p.WellFormed → Spells p.spell (.place p)
  | .variable .., _ => spells_variable
  | .dot .., h => spells_dot (Expr.WellFormed.spells h)
  | .index .., h => spells_index (Expr.WellFormed.spells h.1) (Expr.WellFormed.spells h.2)

theorem Expr.WellFormed.spells : ∀ {e : Expr Unit}, e.WellFormed → Spells e.spell e
  | .number .., _ => spells_number
  | .string .., _ => spells_string
  | .place _, h => Place.WellFormed.spells h
  | .object .., h => spells_object (WellFormed.Fields.spells h)
  | .array .., h => spells_array (WellFormed.Exprs.spells h)
  | .binary .., h => spells_binary (Expr.WellFormed.spells h.1) (Expr.WellFormed.spells h.2)
  | .assign .., h => spells_assign (Place.WellFormed.spells h.1) (Expr.WellFormed.spells h.2)
  | .call .., h => spells_call (Expr.WellFormed.spells h.1) (WellFormed.Exprs.spells h.2)
  | .construct .., h => spells_construct (Place.WellFormed.spells h.1) (WellFormed.Exprs.spells h.2)
  | .select .., h =>
    spells_select (Expr.WellFormed.spells h.1) (WellFormed.Arms.spells h.2.1) h.2.2
  | .function _, h => spells_function (FunctionDecl.WellFormed.spells h)
  | .attempt .., h => spells_attempt (WellFormed.Stmts.spells h.1) (WellFormed.Stmts.spells h.2)

theorem WellFormed.Exprs.spells : ∀ {es : List (Expr Unit)}, WellFormed.Exprs es →
    ∀ e ∈ es, Spells e.spell e
  | [], _ => nofun
  | _ :: _, h =>
    List.forall_mem_cons.mpr ⟨Expr.WellFormed.spells h.1, WellFormed.Exprs.spells h.2⟩

theorem WellFormed.Fields.spells : ∀ {fields : List (String × Expr Unit)},
    WellFormed.Fields fields → ∀ p ∈ fields, Spells p.2.spell p.2
  | [], _ => nofun
  | (_, _) :: _, h =>
    List.forall_mem_cons.mpr ⟨Expr.WellFormed.spells h.1, WellFormed.Fields.spells h.2⟩

theorem WellFormed.Arms.spells : ∀ {arms : List (Arm Unit)}, WellFormed.Arms arms →
    ∀ arm ∈ arms, SpellsArm arm
  | [], _ => nofun
  | .mk .. :: _, h =>
    List.forall_mem_cons.mpr ⟨⟨WellFormed.Exprs.spells h.2.1, WellFormed.Stmts.spells h.2.2.1, h.1⟩,
      WellFormed.Arms.spells h.2.2.2⟩

theorem FunctionDecl.WellFormed.spells : ∀ {f : FunctionDecl Unit}, f.WellFormed →
    ∀ s ∈ f.body, SpellsStatement s
  | .mk .., h => WellFormed.Stmts.spells h

theorem WellFormed.Functions.spells : ∀ {fs : List (FunctionDecl Unit)}, WellFormed.Functions fs →
    ∀ f ∈ fs, ∀ s ∈ f.body, SpellsStatement s
  | [], _ => nofun
  | _ :: _, h =>
    List.forall_mem_cons.mpr ⟨FunctionDecl.WellFormed.spells h.1, WellFormed.Functions.spells h.2⟩

theorem VariableDecl.WellFormed.spells : ∀ {d : VariableDecl Unit}, d.WellFormed →
    SpellsDeclaration d
  | .variable _ none _, _ => spellsDeclaration_bare
  | .variable _ (some _) _, h => spellsDeclaration_variable (Expr.WellFormed.spells h)
  | .constant .., h => spellsDeclaration_constant (Expr.WellFormed.spells h)

theorem ClassDecl.WellFormed.spells : ∀ {c : ClassDecl Unit}, c.WellFormed →
    SpellsStatement (.declareClass c)
  | .mk .., h =>
    spellsStatement_declareClass (WellFormed.Fields.spells h.1) (WellFormed.Functions.spells h.2.1)
      (WellFormed.Functions.spells h.2.2)

theorem Stmt.WellFormed.spells : ∀ {s : Stmt Unit}, s.WellFormed → SpellsStatement s
  | .declare _, h => spellsStatement_declare (VariableDecl.WellFormed.spells h)
  | .function _, h => spellsStatement_function (FunctionDecl.WellFormed.spells h)
  | .branch _ _ none _, h =>
    spellsStatement_branch (Expr.WellFormed.spells h.1) (WellFormed.Stmts.spells h.2)
  | .branch _ _ (some _) _, h =>
    spellsStatement_branch_else (Expr.WellFormed.spells h.1) (WellFormed.Stmts.spells h.2.1)
      (WellFormed.Stmts.spells h.2.2)
  | .forLoop .., h =>
    spellsStatement_forLoop (VariableDecl.WellFormed.spells h.1) (Expr.WellFormed.spells h.2.1)
      (Expr.WellFormed.spells h.2.2.1) (WellFormed.Stmts.spells h.2.2.2)
  | .whileLoop .., h =>
    spellsStatement_whileLoop (Expr.WellFormed.spells h.1) (WellFormed.Stmts.spells h.2)
  | .returns none _, _ => spellsStatement_returns
  | .returns (some _) _, h => spellsStatement_returns_value (Expr.WellFormed.spells h)
  | .breaks _, _ => spellsStatement_breaks
  | .continues _, _ => spellsStatement_continues
  | .throws .., h => spellsStatement_throws (Expr.WellFormed.spells h)
  | .declareClass _, h => ClassDecl.WellFormed.spells h
  | .declareEnum .., _ => spellsStatement_declareEnum
  | .expression .., h => spellsStatement_expression (Expr.WellFormed.spells h)

theorem WellFormed.Stmts.spells : ∀ {ss : List (Stmt Unit)}, WellFormed.Stmts ss →
    ∀ s ∈ ss, SpellsStatement s
  | [], _ => nofun
  | _ :: _, h =>
    List.forall_mem_cons.mpr ⟨Stmt.WellFormed.spells h.1, WellFormed.Stmts.spells h.2⟩

end

/-! ### Spelled tokens are significant -/

section Significant

variable {line : Nat} {tokens rest : List Token}

@[simp]
theorem significant_mark {s : Symbol} :
    significant (mark s line :: rest) = mark s line :: significant rest :=
  significant_cons nofun

@[simp]
theorem significant_word {k : Keyword} :
    significant (Token.word k line :: rest) = Token.word k line :: significant rest :=
  significant_cons nofun

@[simp]
theorem significant_name {x : String} :
    significant (Token.name x line :: rest) = Token.name x line :: significant rest :=
  significant_cons nofun

theorem significant_names {separator : Symbol} {xs : List String} :
    significant (names separator xs) = names separator xs := by
  induction xs with
  | nil => rfl
  | cons x xs ih =>
    rw [names, List.flatMap_cons, significant_append, ← names, ih]
    simp

attribute [local simp] enclosed braced significant_append significant_names

mutual

theorem Place.significant_spell : ∀ p : Place Unit, significant p.spell = p.spell
  | .variable .. => by simp [Place.spell]
  | .dot container .. => by simp [Place.spell, Expr.significant_spell container]
  | .index container key _ => by
    simp [Place.spell, Expr.significant_spell container, Expr.significant_spell key]

theorem Expr.significant_spell : ∀ e : Expr Unit, significant e.spell = e.spell
  | .number .. | .string .. => rfl
  | .place p => by simp [Expr.spell, Place.significant_spell p]
  | .object properties _ => by simp [Expr.spell, significant_properties properties]
  | .array elements _ => by simp [Expr.spell, significant_items elements]
  | .binary _ left right _ => by
    simp [Expr.spell, Expr.significant_spell left, Expr.significant_spell right]
  | .assign target value _ => by
    simp [Expr.spell, Place.significant_spell target, Expr.significant_spell value]
  | .call callee arguments _ => by
    simp [Expr.spell, Expr.significant_spell callee, significant_items arguments]
  | .construct target arguments _ => by
    simp [Expr.spell, Place.significant_spell target, significant_items arguments]
  | .select scrutinee arms _ => by
    simp [Expr.spell, Expr.significant_spell scrutinee, significant_arms arms]
  | .function f => by simp [Expr.spell, FunctionDecl.significant_spell f]
  | .attempt body handler _ => by
    simp [Expr.spell, significant_statements body, significant_statements handler]

theorem significant_items : ∀ es : List (Expr Unit), significant (items es) = items es
  | [] => rfl
  | e :: rest => by simp [items, Expr.significant_spell e, significant_items rest]

theorem significant_properties : ∀ properties : List (String × Expr Unit),
    significant (Spelling.properties properties) = Spelling.properties properties
  | [] => rfl
  | (_, value) :: rest => by
    simp [Spelling.properties, Expr.significant_spell value, significant_properties rest]

theorem significant_patterns : ∀ es : List (Expr Unit), significant (patterns es) = patterns es
  | [] => rfl
  | e :: rest => by simp [patterns, Expr.significant_spell e, significant_patterns rest]

theorem significant_arms : ∀ arms : List (Arm Unit),
    significant (Spelling.arms arms) = Spelling.arms arms
  | [] => rfl
  | .mk es true body :: rest => by
    simp [Spelling.arms, significant_patterns es, significant_statements body,
      significant_arms rest]
  | .mk (e :: es) false body :: rest => by
    simp [Spelling.arms, Expr.significant_spell e, significant_patterns es,
      significant_statements body, significant_arms rest]
  | .mk [] false _ :: _ => rfl

theorem FunctionDecl.significant_spell : ∀ f : FunctionDecl Unit, significant f.spell = f.spell
  | .mk _ _ _ body _ => by simp [FunctionDecl.spell, significant_statements body]

theorem significant_methods (isStatic : Bool) : ∀ fs : List (FunctionDecl Unit),
    significant (methods isStatic fs) = methods isStatic fs
  | [] => rfl
  | f :: rest => by
    cases isStatic
    all_goals simp [methods, FunctionDecl.significant_spell f, significant_methods _ rest]

theorem significant_staticFields : ∀ fields : List (String × Expr Unit),
    significant (Spelling.staticFields fields) = Spelling.staticFields fields
  | [] => rfl
  | (_, value) :: rest => by
    simp [Spelling.staticFields, Expr.significant_spell value, significant_staticFields rest]

theorem VariableDecl.significant_spell : ∀ d : VariableDecl Unit, significant d.spell = d.spell
  | .variable _ none _ => by simp [VariableDecl.spell]
  | .variable _ (some value) _ | .constant _ value _ => by
    simp [VariableDecl.spell, Expr.significant_spell value]

theorem ClassDecl.significant_spell : ∀ c : ClassDecl Unit, significant c.spell = c.spell
  | .mk _ _ staticFields methods staticMethods _ => by
    simp [ClassDecl.spell, significant_staticFields staticFields, significant_methods false methods,
      significant_methods true staticMethods]

theorem Stmt.significant_spell : ∀ s : Stmt Unit, significant s.spell = s.spell
  | .declare d => by simp [Stmt.spell, VariableDecl.significant_spell d]
  | .function f => by simp [Stmt.spell, FunctionDecl.significant_spell f]
  | .branch test body none _ | .whileLoop test body _ => by
    simp [Stmt.spell, Expr.significant_spell test, significant_statements body]
  | .branch test body (some alternate) _ => by
    simp [Stmt.spell, Expr.significant_spell test, significant_statements body,
      significant_statements alternate]
  | .forLoop start test update body _ => by
    simp [Stmt.spell, VariableDecl.significant_spell start, Expr.significant_spell test,
      Expr.significant_spell update, significant_statements body]
  | .returns none _ | .breaks _ | .continues _ => by simp [Stmt.spell]
  | .returns (some value) _ | .throws value _ | .expression value _ => by
    simp [Stmt.spell, Expr.significant_spell value]
  | .declareClass c => by simp [Stmt.spell, ClassDecl.significant_spell c]
  | .declareEnum .. => by simp [Stmt.spell]

theorem significant_statements : ∀ ss : List (Stmt Unit),
    significant (statements ss) = statements ss
  | [] => rfl
  | s :: rest => by simp [statements, Stmt.significant_spell s, significant_statements rest]

end

end Significant

/-! ### Programs -/

theorem program_finish {depth : Nat} {ss : List (Stmt Unit)} (hss : ∀ s ∈ ss, SpellsStatement s)
    (hdepth : (statements ss).length ≤ depth) (acc : List (Stmt Unit)) :
    Finishes (nested depth).programStep acc (statements ss ++ [Token.endAt ⟨1, 1⟩])
      (acc.reverse ++ ss) [Token.endAt ⟨1, 1⟩] := by
  induction ss generalizing acc with
  | nil =>
    refine .last ?_
    simp [statements, Nested.programStep, Token.endAt]
  | cons s ss ih =>
    simp only [statements, List.length_cons, List.length_append] at hdepth
    have hstep : ∀ rest, (nested depth).programStep acc (s.spell ++ mark .semicolon 1 :: rest) =
        .ok (.inl (s :: acc), rest) := by
      intro rest
      have hread : (nested depth).statement (s.spell ++ mark .semicolon 1 :: rest) = .ok (s, rest) :=
        statement_read (hss s List.mem_cons_self) (by omega)
      obtain ⟨first, tokens, hspell, hne, -, hend⟩ := spell_statement_eq s
      rw [hspell, List.cons_append] at hread ⊢
      simp [Nested.programStep, hne, hend, bind_of_ok hread, -bind_pure_comp]
    have hrest := ih (fun s hs => hss s (List.mem_cons_of_mem _ hs)) (by omega) (s :: acc)
    simp only [statements, List.cons_append, List.append_assoc]
    refine .next (hstep _) (by simp only [weight_mark, weight_append]; omega) ?_
    simpa using hrest

theorem Source.significant_spell (source : Source) : significant source.spell = source.spell := by
  rw [Source.spell, significant_append, significant_statements]
  rfl

theorem Source.parseTokens_spell {source : Source} (h : WellFormed.Stmts source) :
    parseTokens source.spell = .ok source := by
  have hlength : (statements source).length ≤ source.spell.length + 1 := by
    simp only [Source.spell, List.length_append]
    omega
  have hread : (nested (source.spell.length + 1)).program source.spell =
      .ok (source, [Token.endAt ⟨1, 1⟩]) :=
    (program_finish (WellFormed.Stmts.spells h) hlength []).repeatFrom
  rw [parseTokens, readProgram, Source.significant_spell, StateT.run', hread]
  rfl

end ScriptLang
