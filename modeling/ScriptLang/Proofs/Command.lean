import ScriptLang.Proofs.Construct

/-! Spelled statements are read back, given that their parts are. -/

namespace ScriptLang.Grammar

open TokenKind (keyword symbol)
open Token (mark word)
open Spelling

/-! ### The forms of a statement -/

section Forms

variable {g : Nested} {t : Token} {rest : List Token} {line : Nat}

theorem bareStatement_of_declaration (h : t.kind = keyword .letKw ∨ t.kind = keyword .constKw) :
    g.bareStatement (t :: rest) =
      (do return .declare (← g.variableDecl) : Parser (Stmt Unit)) (t :: rest) := by
  obtain h | h := h
  all_goals
    rw [Nested.bareStatement, peek_bind (by simp [h]), h]

@[simp]
theorem bareStatement_fnKw :
    g.bareStatement (word .fnKw line :: rest) = g.functionDecl line (word .fnKw line :: rest) :=
  rfl

@[simp]
theorem bareStatement_ifKw :
    g.bareStatement (word .ifKw line :: rest) = g.branchBody (word .ifKw line :: rest) :=
  rfl

@[simp]
theorem bareStatement_forKw :
    g.bareStatement (word .forKw line :: rest) = g.forLoop (word .forKw line :: rest) :=
  rfl

@[simp]
theorem bareStatement_whileKw :
    g.bareStatement (word .whileKw line :: rest) =
      g.whileLoop line (word .whileKw line :: rest) :=
  rfl

@[simp]
theorem bareStatement_returnKw :
    g.bareStatement (word .returnKw line :: rest) = g.returns line (word .returnKw line :: rest) :=
  rfl

@[simp]
theorem bareStatement_breakKw :
    g.bareStatement (word .breakKw line :: rest) = .ok (.breaks line, rest) :=
  rfl

@[simp]
theorem bareStatement_continueKw :
    g.bareStatement (word .continueKw line :: rest) = .ok (.continues line, rest) :=
  rfl

@[simp]
theorem bareStatement_throwKw :
    g.bareStatement (word .throwKw line :: rest) =
      (do return .throws (← g.expression) line : Parser (Stmt Unit)) rest :=
  rfl

@[simp]
theorem bareStatement_classKw :
    g.bareStatement (word .classKw line :: rest) = g.classDecl (word .classKw line :: rest) :=
  rfl

@[simp]
theorem bareStatement_enumKw :
    g.bareStatement (word .enumKw line :: rest) = enumDecl (word .enumKw line :: rest) :=
  rfl

@[simp]
theorem bareStatement_enclosed {tokens : List Token} :
    g.bareStatement (enclosed line tokens ++ rest) =
      (do return .expression (← g.assignment) line : Parser (Stmt Unit))
        (enclosed line tokens ++ rest) :=
  rfl

end Forms

/-- The declaration is read if the token behind it ends an expression. -/
def SpellsDeclaration (d : VariableDecl Unit) : Prop :=
  ∀ depth, d.spell.length ≤ depth → ∀ t rest, endsExpression t.kind = true →
    (nested depth).variableDecl (d.spell ++ t :: rest) = .ok (d, t :: rest)

variable {x : String} {line : Nat} {value test : Expr Unit} {body : List (Stmt Unit)}

/-! ### Declarations -/

theorem spellsDeclaration_bare : SpellsDeclaration (.variable x none line) := by
  intro depth _ t rest ht
  have hequals := (endsExpression_iff.mp ht).2
  have hne := endsExpression_ne ht
  simp [Nested.variableDecl, hne, hequals, -bind_pure_comp]

theorem spellsDeclaration_variable (hvalue : Spells value.spell value) :
    SpellsDeclaration (.variable x (some value) line) := by
  intro depth hdepth t rest ht
  simp only [VariableDecl.spell, List.length_cons, length_enclosed] at hdepth
  have hread : (nested depth).expression (enclosed 1 value.spell ++ t :: rest) =
      .ok (value, t :: rest) :=
    hvalue.expression (by omega) rest ht
  simp [Nested.variableDecl, bind_of_ok hread, -bind_pure_comp]

theorem spellsDeclaration_constant (hvalue : Spells value.spell value) :
    SpellsDeclaration (.constant x value line) := by
  intro depth hdepth t rest ht
  simp only [VariableDecl.spell, List.length_cons, length_enclosed] at hdepth
  have hread : (nested depth).expression (enclosed 1 value.spell ++ t :: rest) =
      .ok (value, t :: rest) :=
    hvalue.expression (by omega) rest ht
  simp [Nested.variableDecl, bind_of_ok hread, -bind_pure_comp]

theorem variableDecl_word (d : VariableDecl Unit) :
    ∃ first tokens, d.spell = first :: tokens ∧
      (first.kind = keyword .letKw ∨ first.kind = keyword .constKw) := by
  match d with
  | .variable _ none _ | .variable _ (some _) _ => exact ⟨_, _, rfl, .inl rfl⟩
  | .constant .. => exact ⟨_, _, rfl, .inr rfl⟩

theorem spellsStatement_declare {d : VariableDecl Unit} (hd : SpellsDeclaration d) :
    SpellsStatement (.declare d) := by
  intro depth hdepth rest
  have hread := hd depth hdepth (mark .semicolon 1) rest rfl
  obtain ⟨first, tokens, hspell, hfirst⟩ := variableDecl_word d
  rw [hspell, List.cons_append] at hread
  rw [Stmt.spell, hspell, List.cons_append, bareStatement_of_declaration hfirst, bind_of_ok hread]
  rfl

theorem spellsStatement_function {f : FunctionDecl Unit} (hbody : ∀ s ∈ f.body, SpellsStatement s) :
    SpellsStatement (.function f) := by
  intro depth hdepth rest
  simp only [Stmt.spell, List.length_cons] at hdepth
  have hread : (nested depth).functionRest f.name f.line (f.spell ++ mark .semicolon 1 :: rest) =
      .ok (f, mark .semicolon 1 :: rest) :=
    functionRest_read hbody (by omega)
  simp [Nested.functionDecl, bind_of_ok hread, -bind_pure_comp]

/-! ### Control -/

section Control

variable {depth : Nat} {rest : List Token} {opening closing : String}

theorem test_read (htest : Spells test.spell test) (hdepth : test.spell.length < depth) :
    (nested depth).test opening closing (enclosed 1 test.spell ++ rest) = .ok (test, rest) := by
  obtain ⟨depth, rfl⟩ : ∃ inner, depth = inner + 1 := ⟨depth - 1, by omega⟩
  have hread : (nested (depth + 1)).expression (test.spell ++ mark .rightParen 1 :: rest) =
      .ok (test, mark .rightParen 1 :: rest) :=
    htest depth (by omega) _ rest rfl
  simp [enclosed, Nested.test, bind_of_ok hread, -bind_pure_comp]

theorem spellsStatement_branch (htest : Spells test.spell test)
    (hbody : ∀ s ∈ body, SpellsStatement s) : SpellsStatement (.branch test body none line) := by
  intro depth hdepth rest
  simp only [Stmt.spell, List.length_cons, List.length_append, length_enclosed, length_braced]
    at hdepth
  have hread : (nested depth).test "'(' after 'if'" "')' after if condition"
      (enclosed 1 test.spell ++ (braced (statements body) ++ mark .semicolon 1 :: rest)) =
        .ok (test, _) :=
    test_read htest (by omega)
  have hblock : (nested depth).block (braced (statements body) ++ mark .semicolon 1 :: rest) =
      .ok (body, mark .semicolon 1 :: rest) :=
    block_read hbody (by omega)
  simp [Nested.branchBody, Nested.alternate, bind_of_ok hread,
    bind_of_ok hblock, -bind_pure_comp]

theorem spellsStatement_branch_else {alternate : List (Stmt Unit)}
    (htest : Spells test.spell test) (hbody : ∀ s ∈ body, SpellsStatement s)
    (halternate : ∀ s ∈ alternate, SpellsStatement s) :
    SpellsStatement (.branch test body (some alternate) line) := by
  intro depth hdepth rest
  simp only [Stmt.spell, List.length_cons, List.length_append, length_enclosed, length_braced]
    at hdepth
  have hread : (nested depth).test "'(' after 'if'" "')' after if condition"
      (enclosed 1 test.spell ++ (braced (statements body) ++ word .elseKw 1 ::
        (braced (statements alternate) ++ mark .semicolon 1 :: rest))) = .ok (test, _) :=
    test_read htest (by omega)
  have hblock : (nested depth).block (braced (statements body) ++ word .elseKw 1 ::
      (braced (statements alternate) ++ mark .semicolon 1 :: rest)) =
        .ok (body, word .elseKw 1 :: _) :=
    block_read hbody (by omega)
  have hblock' : (nested depth).block
      (braced (statements alternate) ++ mark .semicolon 1 :: rest) =
        .ok (alternate, mark .semicolon 1 :: rest) :=
    block_read halternate (by omega)
  have hbrace : nextIs (keyword .ifKw) (braced (statements alternate) ++ mark .semicolon 1 :: rest) =
      .ok (false, braced (statements alternate) ++ mark .semicolon 1 :: rest) :=
    rfl
  simp [Nested.branchBody, Nested.alternate, bind_of_ok hread,
    bind_of_ok hblock, bind_of_ok hblock', bind_of_ok hbrace, -bind_pure_comp]

theorem spellsStatement_whileLoop (htest : Spells test.spell test)
    (hbody : ∀ s ∈ body, SpellsStatement s) : SpellsStatement (.whileLoop test body line) := by
  intro depth hdepth rest
  simp only [Stmt.spell, List.length_cons, List.length_append, length_enclosed, length_braced]
    at hdepth
  have hread : (nested depth).test "'(' after 'while'" "')' after while condition"
      (enclosed 1 test.spell ++ (braced (statements body) ++ mark .semicolon 1 :: rest)) =
        .ok (test, _) :=
    test_read htest (by omega)
  have hblock : (nested depth).block (braced (statements body) ++ mark .semicolon 1 :: rest) =
      .ok (body, mark .semicolon 1 :: rest) :=
    block_read hbody (by omega)
  simp [Nested.whileLoop, bind_of_ok hread, bind_of_ok hblock,
    -bind_pure_comp]

theorem spellsStatement_forLoop {start : VariableDecl Unit} {update : Expr Unit}
    (hstart : SpellsDeclaration start) (htest : Spells test.spell test)
    (hupdate : Spells update.spell update) (hbody : ∀ s ∈ body, SpellsStatement s) :
    SpellsStatement (.forLoop start test update body line) := by
  intro depth hdepth rest
  simp only [Stmt.spell, List.length_cons, List.length_append, length_enclosed, length_braced]
    at hdepth
  have hstart' : ∀ rest', (nested depth).variableDecl (start.spell ++ mark .semicolon 1 :: rest') =
      .ok (start, mark .semicolon 1 :: rest') :=
    fun rest' => hstart depth (by omega) (mark .semicolon 1) rest' rfl
  have htest' : ∀ rest', (nested depth).expression
      (enclosed 1 test.spell ++ mark .semicolon 1 :: rest') =
        .ok (test, mark .semicolon 1 :: rest') :=
    fun rest' => htest.expression (by omega) rest' rfl
  have hupdate' : ∀ rest', (nested depth).expression
      (enclosed 1 update.spell ++ mark .rightParen 1 :: rest') =
        .ok (update, mark .rightParen 1 :: rest') :=
    fun rest' => hupdate.expression (by omega) rest' rfl
  have hblock : (nested depth).block (braced (statements body) ++ mark .semicolon 1 :: rest) =
      .ok (body, mark .semicolon 1 :: rest) :=
    block_read hbody (by omega)
  obtain ⟨first, tokens, hspell, hfirst⟩ := variableDecl_word start
  rw [hspell] at hstart'
  simp only [List.cons_append] at hstart'
  obtain hfirst | hfirst := hfirst
  all_goals
    simp [hspell, Nested.forLoop, hfirst,
      bind_of_ok (hstart' _), bind_of_ok (htest' _), bind_of_ok (hupdate' _), bind_of_ok hblock,
      -bind_pure_comp]

end Control

/-! ### Exits and expressions -/

theorem spellsStatement_returns : SpellsStatement (.returns none line) := by
  intro depth _ rest
  simp [Nested.returns, -bind_pure_comp]

theorem spellsStatement_returns_value (hvalue : Spells value.spell value) :
    SpellsStatement (.returns (some value) line) := by
  intro depth hdepth rest
  simp only [Stmt.spell, List.length_cons, length_enclosed] at hdepth
  have hread : (nested depth).expression (enclosed 1 value.spell ++ mark .semicolon 1 :: rest) =
      .ok (value, mark .semicolon 1 :: rest) :=
    hvalue.expression (by omega) rest rfl
  simp [Nested.returns, bind_of_ok hread, -bind_pure_comp]

theorem spellsStatement_breaks : SpellsStatement (.breaks line) := by
  intro depth _ rest
  simp [-bind_pure_comp]

theorem spellsStatement_continues : SpellsStatement (.continues line) := by
  intro depth _ rest
  simp [-bind_pure_comp]

theorem spellsStatement_throws (hvalue : Spells value.spell value) :
    SpellsStatement (.throws value line) := by
  intro depth hdepth rest
  simp only [Stmt.spell, List.length_cons, length_enclosed] at hdepth
  have hread : (nested depth).expression (enclosed 1 value.spell ++ mark .semicolon 1 :: rest) =
      .ok (value, mark .semicolon 1 :: rest) :=
    hvalue.expression (by omega) rest rfl
  simp [bind_of_ok hread, -bind_pure_comp]

theorem spellsStatement_expression (hvalue : Spells value.spell value) :
    SpellsStatement (.expression value line) := by
  intro depth hdepth rest
  simp only [Stmt.spell, length_enclosed] at hdepth
  have hread : (nested depth).assignment (enclosed line value.spell ++ mark .semicolon 1 :: rest) =
      .ok (value, mark .semicolon 1 :: rest) :=
    hvalue.assignment (by omega) rest rfl
  simp [bind_of_ok hread, -bind_pure_comp]

/-! ### Enums -/

theorem memberNames_finish {xs : List String} {rest : List Token} (acc : List String) :
    Finishes memberNameStep acc (names .comma xs ++ mark .rightBrace line :: rest)
      (acc.reverse ++ xs) rest := by
  induction xs generalizing acc with
  | nil =>
    refine .last ?_
    simp [names, memberNameStep]
  | cons x xs ih =>
    have hstep : ∀ rest', memberNameStep acc (Token.name x 1 :: mark .comma 1 :: rest') =
        .ok (.inl (x :: acc), rest') := by
      intro rest'
      simp [memberNameStep, -bind_pure_comp]
    have hrest := ih (x :: acc)
    simp only [names, List.flatMap_cons, List.cons_append, List.nil_append] at hrest ⊢
    refine .next (hstep _) (by simp only [weight_mark, weight_name, weight_append]; omega) ?_
    simpa using hrest

theorem spellsStatement_declareEnum {members : List String} :
    SpellsStatement (.declareEnum x members line) := by
  intro depth _ rest
  have hread : repeatFrom memberNameStep []
      (names .comma members ++ mark .rightBrace 1 :: mark .semicolon 1 :: rest) =
        .ok (members, mark .semicolon 1 :: rest) :=
    (memberNames_finish []).repeatFrom
  simp [enumDecl, braced, bind_of_ok hread, -bind_pure_comp]

/-! ### Classes -/

section Classes

open Nested (ClassParts)

variable {depth : Nat} {parts result : ClassParts} {tail rest : List Token}

theorem fields_finish {xs : List String}
    (htail : Finishes (nested depth).classStep
      { parts with fields := xs.reverse ++ parts.fields } tail result rest) :
    Finishes (nested depth).classStep parts (names .semicolon xs ++ tail) result rest := by
  induction xs generalizing parts with
  | nil => exact htail
  | cons x xs ih =>
    have hstep : ∀ rest', (nested depth).classStep parts
        (Token.name x 1 :: mark .semicolon 1 :: rest') =
          .ok (.inl { parts with fields := x :: parts.fields }, rest') := by
      intro rest'
      simp [Nested.classStep, Nested.classMember, -bind_pure_comp]
    simp only [names, List.flatMap_cons, List.cons_append, List.nil_append] at ih ⊢
    refine .next (hstep _) (by simp only [weight_mark, weight_name, weight_append]; omega) (ih ?_)
    simpa using htail

theorem staticFields_finish {fields : List (String × Expr Unit)}
    (hvalues : ∀ p ∈ fields, Spells p.2.spell p.2)
    (hdepth : (Spelling.staticFields fields).length ≤ depth)
    (htail : Finishes (nested depth).classStep
      { parts with staticFields := fields.reverse ++ parts.staticFields } tail result rest) :
    Finishes (nested depth).classStep parts (Spelling.staticFields fields ++ tail) result rest := by
  induction fields generalizing parts with
  | nil => exact htail
  | cons field fields ih =>
    obtain ⟨x, value⟩ := field
    simp only [Spelling.staticFields, List.length_cons, List.length_append, length_enclosed]
      at hdepth
    have hvalue : Spells value.spell value := hvalues _ List.mem_cons_self
    have hread : ∀ rest', (nested depth).expression
        (enclosed 1 value.spell ++ mark .semicolon 1 :: rest') =
          .ok (value, mark .semicolon 1 :: rest') :=
      fun rest' => hvalue.expression (by omega) rest' rfl
    have hstep : ∀ rest', (nested depth).classStep parts (word .staticKw 1 :: Token.name x 1 ::
        mark .equals 1 :: (enclosed 1 value.spell ++ mark .semicolon 1 :: rest')) =
          .ok (.inl { parts with staticFields := (x, value) :: parts.staticFields }, rest') := by
      intro rest'
      simp [Nested.classStep, Nested.classMember, bind_of_ok (hread _), -bind_pure_comp]
    simp only [Spelling.staticFields, List.cons_append, List.append_assoc]
    refine .next (hstep _)
      (by simp only [weight_mark, weight_word, weight_name, weight_append]; omega) ?_
    refine ih (fun p hp => hvalues p (List.mem_cons_of_mem _ hp)) (by omega) ?_
    simpa using htail

/-- The methods of one kind joined to what has been read. -/
def withMethods (isStatic : Bool) (parts : ClassParts) (fs : List (FunctionDecl Unit)) :
    ClassParts :=
  if isStatic then { parts with staticMethods := fs.reverse ++ parts.staticMethods }
  else { parts with methods := fs.reverse ++ parts.methods }

theorem withMethods_nil {isStatic : Bool} : withMethods isStatic parts [] = parts := by
  cases isStatic <;> rfl

theorem withMethods_cons {isStatic : Bool} {f : FunctionDecl Unit} {fs : List (FunctionDecl Unit)} :
    withMethods isStatic (withMethods isStatic parts [f]) fs =
      withMethods isStatic parts (f :: fs) := by
  cases isStatic <;> simp [withMethods]

theorem classStep_method {isStatic : Bool} {f : FunctionDecl Unit}
    (hbody : ∀ s ∈ f.body, SpellsStatement s) (hdepth : f.spell.length ≤ depth) :
    (nested depth).classStep parts ((if isStatic then [word .staticKw 1] else []) ++
      Token.name f.name f.line :: (f.spell ++ mark .semicolon 1 :: rest)) =
        .ok (.inl (withMethods isStatic parts [f]), rest) := by
  have hread : (nested depth).functionRest f.name f.line (f.spell ++ mark .semicolon 1 :: rest) =
      .ok (f, mark .semicolon 1 :: rest) :=
    functionRest_read hbody hdepth
  have hparen : nextIs (symbol .leftParen) (f.spell ++ mark .semicolon 1 :: rest) =
      .ok (true, f.spell ++ mark .semicolon 1 :: rest) := by
    obtain ⟨⟩ := f
    rfl
  cases isStatic
  all_goals
    simp [Nested.classStep, Nested.classMember, withMethods, bind_of_ok hparen, bind_of_ok hread,
      -bind_pure_comp]

theorem methods_finish {isStatic : Bool} {fs : List (FunctionDecl Unit)}
    (hfs : ∀ f ∈ fs, ∀ s ∈ f.body, SpellsStatement s)
    (hdepth : (methods isStatic fs).length ≤ depth)
    (htail : Finishes (nested depth).classStep (withMethods isStatic parts fs) tail result rest) :
    Finishes (nested depth).classStep parts (methods isStatic fs ++ tail) result rest := by
  induction fs generalizing parts with
  | nil => rwa [withMethods_nil] at htail
  | cons f fs ih =>
    simp only [methods, List.length_cons, List.length_append] at hdepth
    have hbody := hfs f List.mem_cons_self
    have hbodyDepth : f.spell.length ≤ depth := by omega
    simp only [methods, List.cons_append, List.append_assoc]
    refine .next (classStep_method hbody hbodyDepth)
      (by simp only [weight_mark, weight_name, weight_append]; omega) ?_
    refine ih (fun f hf => hfs f (List.mem_cons_of_mem _ hf)) (by omega) ?_
    rwa [withMethods_cons]

theorem spellsStatement_declareClass {fields : List String}
    {staticFields : List (String × Expr Unit)} {methods staticMethods : List (FunctionDecl Unit)}
    (hvalues : ∀ p ∈ staticFields, Spells p.2.spell p.2)
    (hmethods : ∀ f ∈ methods, ∀ s ∈ f.body, SpellsStatement s)
    (hstaticMethods : ∀ f ∈ staticMethods, ∀ s ∈ f.body, SpellsStatement s) :
    SpellsStatement (.declareClass (.mk x fields staticFields methods staticMethods line)) := by
  intro depth hdepth rest
  simp only [Stmt.spell, ClassDecl.spell, List.length_cons, List.length_append, length_braced]
    at hdepth
  have hread : repeatFrom (nested depth).classStep ⟨[], [], [], []⟩
      (names .semicolon fields ++ (Spelling.staticFields staticFields ++
        (Spelling.methods false methods ++ (Spelling.methods true staticMethods ++
          mark .rightBrace 1 :: mark .semicolon 1 :: rest)))) =
        .ok (⟨fields.reverse, staticFields.reverse, methods.reverse, staticMethods.reverse⟩,
          mark .semicolon 1 :: rest) := by
    refine Finishes.repeatFrom (fields_finish ?_)
    refine staticFields_finish hvalues (by omega) (methods_finish hmethods (by omega) ?_)
    refine methods_finish hstaticMethods (by omega) (.last ?_)
    simp [Nested.classStep, withMethods]
  simp [Nested.classDecl, braced,
    bind_of_ok hread, ClassParts.finish, -bind_pure_comp]

end Classes

end ScriptLang.Grammar
