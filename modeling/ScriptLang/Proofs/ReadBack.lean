import ScriptLang.Proofs.Operand
import ScriptLang.Proofs.WellFormed

/-! Spelled sequences are read back, given that their elements are: lists of items, the arms of a
`match`, blocks, and functions. -/

namespace ScriptLang.Grammar

open TokenKind (keyword symbol)
open Token (mark word)
open Spelling

/-- The statement is read up to the semicolon behind it. -/
def SpellsStatement (s : Stmt Unit) : Prop :=
  ∀ depth, s.spell.length ≤ depth → ∀ rest,
    (nested depth).bareStatement (s.spell ++ mark .semicolon 1 :: rest) =
      .ok (s, mark .semicolon 1 :: rest)

variable {depth line : Nat} {rest : List Token}

/-! ### Lists -/

theorem items_finish {es : List (Expr Unit)} {closing : Symbol}
    (hes : ∀ e ∈ es, Spells e.spell e) (hdepth : (items es).length ≤ depth)
    (hopening : closing ≠ .leftParen) (hcomma : closing ≠ .comma) (acc : List (Expr Unit)) :
    Finishes (listStep (nested depth).expression closing) acc
      (items es ++ mark closing line :: rest) (acc.reverse ++ es) rest := by
  induction es generalizing acc with
  | nil =>
    refine .last ?_
    simp [items, listStep]
  | cons e es ih =>
    rw [items, List.length_append, List.length_cons, length_enclosed] at hdepth
    have hread : ∀ rest', (nested depth).expression (enclosed 1 e.spell ++ mark .comma 1 :: rest') =
        .ok (e, mark .comma 1 :: rest') :=
      fun rest' => (hes e List.mem_cons_self).expression (by omega) rest' rfl
    have hstep : listStep (nested depth).expression closing acc
        (enclosed 1 e.spell ++ mark .comma 1 :: (items es ++ mark closing line :: rest)) =
          .ok (.inl (e :: acc), items es ++ mark closing line :: rest) := by
      have hne : symbol .leftParen ≠ symbol closing := by simpa using hopening.symm
      simp [listStep, eat_enclosed_bind hne, bind_of_ok (hread _), hcomma.symm]
    rw [items, List.append_assoc, List.cons_append]
    refine .next hstep (by simp only [weight_mark, weight_append]; omega) ?_
    have hrest := ih (fun e he => hes e (List.mem_cons_of_mem _ he)) (by omega) (e :: acc)
    rwa [List.reverse_cons, List.append_assoc, List.singleton_append] at hrest

theorem commaSeparated_items {es : List (Expr Unit)} {closing : Symbol}
    (hes : ∀ e ∈ es, Spells e.spell e) (hdepth : (items es).length ≤ depth)
    (hopening : closing ≠ .leftParen) (hcomma : closing ≠ .comma) :
    commaSeparated (nested depth).expression closing (items es ++ mark closing line :: rest) =
      .ok (es, rest) :=
  (items_finish hes hdepth hopening hcomma []).repeatFrom

theorem objectStep_property {key : String} {value : Expr Unit} {acc : List (String × Expr Unit)}
    (hvalue : Spells value.spell value) (hdepth : value.spell.length + 1 < depth) :
    (nested depth).objectStep acc (Token.name key 1 :: mark .colon 1 ::
      (enclosed 1 value.spell ++ mark .comma 1 :: rest)) =
        .ok (.inl ((key, value) :: acc), rest) := by
  have hread : (nested depth).expression (enclosed 1 value.spell ++ mark .comma 1 :: rest) =
      .ok (value, mark .comma 1 :: rest) :=
    hvalue.expression hdepth rest rfl
  simp [Nested.objectStep, bind_of_ok hread, -bind_pure_comp]

theorem properties_finish {properties : List (String × Expr Unit)}
    (hvalues : ∀ p ∈ properties, Spells p.2.spell p.2)
    (hdepth : (Spelling.properties properties).length ≤ depth) (acc : List (String × Expr Unit)) :
    Finishes (nested depth).objectStep acc
      (Spelling.properties properties ++ mark .rightBrace line :: rest)
      (acc.reverse ++ properties) rest := by
  induction properties generalizing acc with
  | nil =>
    refine .last ?_
    simp [Spelling.properties, Nested.objectStep]
  | cons property properties ih =>
    obtain ⟨key, value⟩ := property
    simp only [Spelling.properties, List.length_cons, List.length_append, length_enclosed] at hdepth
    have hvalue : Spells value.spell value := hvalues _ List.mem_cons_self
    have hvalueDepth : value.spell.length + 1 < depth := by omega
    have hrest := ih (fun p hp => hvalues p (List.mem_cons_of_mem _ hp)) (by omega)
      ((key, value) :: acc)
    simp only [Spelling.properties, List.cons_append, List.append_assoc]
    refine .next (objectStep_property hvalue hvalueDepth)
      (by simp only [weight_mark, weight_name, weight_append]; omega) ?_
    simpa using hrest

/-! ### Patterns and arms -/

section Patterns

variable {e : Expr Unit} {read : List (Expr Unit) × Option Token}

theorem patternStep_last (he : Spells e.spell e) (hdepth : e.spell.length + 1 < depth) :
    (nested depth).patternStep read (enclosed 1 e.spell ++ mark .fatArrow line :: rest) =
      .ok (.inr ((e :: read.1).reverse, read.2), mark .fatArrow line :: rest) := by
  have hread : (nested depth).expression (enclosed 1 e.spell ++ mark .fatArrow line :: rest) =
      .ok (e, mark .fatArrow line :: rest) :=
    he.expression hdepth rest rfl
  simp [Nested.patternStep, bind_of_ok hread, -bind_pure_comp]

theorem patternStep_more (he : Spells e.spell e) (hdepth : e.spell.length + 1 < depth) :
    (nested depth).patternStep read (enclosed 1 e.spell ++ mark .comma line :: rest) =
      .ok (.inl (e :: read.1, read.2), rest) := by
  have hread : (nested depth).expression (enclosed 1 e.spell ++ mark .comma line :: rest) =
      .ok (e, mark .comma line :: rest) :=
    he.expression hdepth rest rfl
  simp [Nested.patternStep, bind_of_ok hread, -bind_pure_comp]

theorem patternStep_default_last :
    (nested depth).patternStep read (word .defaultKw 1 :: mark .fatArrow line :: rest) =
      .ok (.inr (read.1.reverse, some (word .defaultKw 1)), mark .fatArrow line :: rest) := by
  simp [Nested.patternStep, -bind_pure_comp]

theorem patternStep_default_more :
    (nested depth).patternStep read (word .defaultKw 1 :: mark .comma line :: rest) =
      .ok (.inl (read.1, some (word .defaultKw 1)), rest) := by
  simp [Nested.patternStep, -bind_pure_comp]

theorem patterns_finish {es : List (Expr Unit)} (he : Spells e.spell e)
    (hes : ∀ p ∈ es, Spells p.spell p) (hfirst : e.spell.length + 1 < depth)
    (hdepth : (patterns es).length < depth) :
    Finishes (nested depth).patternStep read
      (enclosed 1 e.spell ++ (patterns es ++ mark .fatArrow line :: rest))
      (read.1.reverse ++ e :: es, read.2) (mark .fatArrow line :: rest) := by
  induction es generalizing e read with
  | nil =>
    refine .last ?_
    rw [patterns, List.nil_append, patternStep_last he hfirst]
    simp
  | cons next es ih =>
    simp only [patterns, List.length_cons, List.length_append, length_enclosed] at hdepth
    have hnext : Spells next.spell next := hes next List.mem_cons_self
    have hlater : ∀ p ∈ es, Spells p.spell p := fun p hp => hes p (List.mem_cons_of_mem _ hp)
    have hrest : Finishes (nested depth).patternStep (e :: read.1, read.2) _ _ _ :=
      ih hnext hlater (by omega) (by omega)
    simp only [patterns, List.cons_append, List.append_assoc]
    refine .next (patternStep_more he hfirst)
      (by simp only [weight_mark, weight_append]; omega) ?_
    simpa using hrest

theorem patterns_finish_default {es : List (Expr Unit)} (hes : ∀ p ∈ es, Spells p.spell p)
    (hdepth : (patterns es).length < depth) :
    Finishes (nested depth).patternStep ([], none)
      (word .defaultKw 1 :: (patterns es ++ mark .fatArrow line :: rest))
      (es, some (word .defaultKw 1)) (mark .fatArrow line :: rest) := by
  cases es with
  | nil => exact .last patternStep_default_last
  | cons e es =>
    simp only [patterns, List.length_cons, List.length_append, length_enclosed] at hdepth
    have he : Spells e.spell e := hes e List.mem_cons_self
    have hlater : ∀ p ∈ es, Spells p.spell p := fun p hp => hes p (List.mem_cons_of_mem _ hp)
    simp only [patterns, List.cons_append, List.append_assoc]
    refine .next patternStep_default_more
      (by simp only [weight_mark, weight_word, weight_append]; omega) ?_
    exact patterns_finish he hlater (by omega) (by omega)

end Patterns

/-! ### Blocks -/

theorem spell_statement_eq (s : Stmt Unit) :
    ∃ first tokens, s.spell = first :: tokens ∧ first.kind ≠ .newline ∧
      first.kind ≠ symbol .rightBrace ∧ first.kind ≠ .endOfInput := by
  match s with
  | .declare (.variable _ none _) | .declare (.variable _ (some _) _) | .declare (.constant ..)
  | .function _ | .branch _ _ none _ | .branch _ _ (some _) _ | .forLoop .. | .whileLoop ..
  | .returns none _ | .returns (some _) _ | .breaks _ | .continues _ | .throws ..
  | .declareClass (.mk ..) | .declareEnum .. | .expression .. =>
    exact ⟨_, _, rfl, nofun, nofun, nofun⟩

theorem statement_read {s : Stmt Unit} (hs : SpellsStatement s) (hdepth : s.spell.length ≤ depth) :
    (nested depth).statement (s.spell ++ mark .semicolon 1 :: rest) = .ok (s, rest) := by
  rw [Nested.statement, bind_of_ok (hs depth hdepth rest)]
  simp

theorem statements_finish {body : List (Stmt Unit)} (hbody : ∀ s ∈ body, SpellsStatement s)
    (hdepth : (statements body).length ≤ depth) (acc : List (Stmt Unit)) :
    Finishes (nested depth).blockStep acc (statements body ++ mark .rightBrace line :: rest)
      (acc.reverse ++ body) rest := by
  induction body generalizing acc with
  | nil =>
    refine .last ?_
    simp [statements, Nested.blockStep]
  | cons s body ih =>
    simp only [statements, List.length_cons, List.length_append] at hdepth
    have hread : ∀ rest', (nested depth).statement (s.spell ++ mark .semicolon 1 :: rest') =
        .ok (s, rest') :=
      fun _ => statement_read (hbody s List.mem_cons_self) (by omega)
    have hstep : ∀ rest', (nested depth).blockStep acc (s.spell ++ mark .semicolon 1 :: rest') =
        .ok (.inl (s :: acc), rest') := by
      intro rest'
      obtain ⟨first, tokens, hspell, hne, hclosing, hend⟩ := spell_statement_eq s
      have hread' := hread rest'
      rw [hspell, List.cons_append] at hread' ⊢
      simp [Nested.blockStep, hne, hclosing, hend, bind_of_ok hread', -bind_pure_comp]
    have hrest := ih (fun s hs => hbody s (List.mem_cons_of_mem _ hs)) (by omega) (s :: acc)
    simp only [statements, List.cons_append, List.append_assoc]
    refine .next (hstep _) (by simp only [weight_mark, weight_append]; omega) ?_
    simpa using hrest

theorem blockBody_read {body : List (Stmt Unit)} (hbody : ∀ s ∈ body, SpellsStatement s)
    (hdepth : (statements body).length ≤ depth) :
    (nested depth).blockBody (braced (statements body) ++ rest) = .ok (body, rest) := by
  simp only [braced, List.cons_append, List.append_assoc, List.nil_append]
  rw [Nested.blockBody, expect_mark_bind]
  exact (statements_finish hbody hdepth []).repeatFrom

theorem block_read {body : List (Stmt Unit)} (hbody : ∀ s ∈ body, SpellsStatement s)
    (hdepth : (statements body).length < depth) :
    (nested depth).block (braced (statements body) ++ rest) = .ok (body, rest) := by
  obtain ⟨depth, rfl⟩ : ∃ inner, depth = inner + 1 := ⟨depth - 1, by omega⟩
  exact blockBody_read hbody (by omega)

/-! ### Arms -/

/-- The parts of the arm are read, and it begins with something. -/
structure SpellsArm (arm : Arm Unit) : Prop where
  patterns : ∀ p ∈ arm.patterns, Spells p.spell p
  body : ∀ s ∈ arm.body, SpellsStatement s
  first : arm.patterns ≠ [] ∨ arm.isDefault = true

theorem armStep_default {es : List (Expr Unit)} {body : List (Stmt Unit)} {acc : List (Arm Unit)}
    (harm : SpellsArm (.mk es true body)) (hes : (patterns es).length < depth)
    (hbody : (statements body).length < depth) (hacc : ∀ arm ∈ acc, arm.isDefault = false) :
    (nested depth).armStep acc (word .defaultKw 1 :: (patterns es ++ mark .fatArrow 1 ::
      (braced (statements body) ++ mark .comma 1 :: rest))) =
        .ok (.inl (.mk es true body :: acc), rest) := by
  have hread : repeatFrom (nested depth).patternStep ([], none) (word .defaultKw 1 ::
      (patterns es ++ mark .fatArrow 1 :: (braced (statements body) ++ mark .comma 1 :: rest))) =
        .ok ((es, some (word .defaultKw 1)), _) :=
    (patterns_finish_default harm.patterns hes).repeatFrom
  have hblock : (nested depth).block (braced (statements body) ++ mark .comma 1 :: rest) =
      .ok (body, mark .comma 1 :: rest) :=
    block_read harm.body hbody
  have hany : acc.any Arm.isDefault = false := by simpa using hacc
  simp [Nested.armStep, bind_of_ok hread, bind_of_ok hblock, hany, -bind_pure_comp]

theorem armStep_patterns {e : Expr Unit} {es : List (Expr Unit)} {body : List (Stmt Unit)}
    {acc : List (Arm Unit)} (harm : SpellsArm (.mk (e :: es) false body))
    (he : e.spell.length + 1 < depth) (hes : (patterns es).length < depth)
    (hbody : (statements body).length < depth) :
    (nested depth).armStep acc (enclosed 1 e.spell ++ (patterns es ++ mark .fatArrow 1 ::
      (braced (statements body) ++ mark .comma 1 :: rest))) =
        .ok (.inl (.mk (e :: es) false body :: acc), rest) := by
  have hread : repeatFrom (nested depth).patternStep ([], none) (enclosed 1 e.spell ++
      (patterns es ++ mark .fatArrow 1 :: (braced (statements body) ++ mark .comma 1 :: rest))) =
        .ok ((e :: es, none), _) :=
    (patterns_finish (harm.patterns e List.mem_cons_self)
      (fun p hp => harm.patterns p (List.mem_cons_of_mem _ hp)) he hes).repeatFrom
  have hblock : (nested depth).block (braced (statements body) ++ mark .comma 1 :: rest) =
      .ok (body, mark .comma 1 :: rest) :=
    block_read harm.body hbody
  simp [Nested.armStep, bind_of_ok hread, bind_of_ok hblock, -bind_pure_comp]

theorem arms_finish {arms : List (Arm Unit)} (harms : ∀ arm ∈ arms, SpellsArm arm)
    (hdepth : (Spelling.arms arms).length ≤ depth) (acc : List (Arm Unit))
    (hdefault : (acc.reverse ++ arms).Pairwise Arm.OneDefault) :
    Finishes (nested depth).armStep acc (Spelling.arms arms ++ mark .rightBrace line :: rest)
      (acc.reverse ++ arms) rest := by
  induction arms generalizing acc with
  | nil =>
    refine .last ?_
    simp [Spelling.arms, Nested.armStep]
  | cons arm arms ih =>
    have harm := harms arm List.mem_cons_self
    have hlater : ∀ arm ∈ arms, SpellsArm arm := fun arm h => harms arm (List.mem_cons_of_mem _ h)
    have hsplit : acc.reverse ++ arm :: arms = (arm :: acc).reverse ++ arms := by simp
    have hrest : (Spelling.arms arms).length ≤ depth → Finishes (nested depth).armStep (arm :: acc)
        (Spelling.arms arms ++ mark .rightBrace line :: rest) (acc.reverse ++ arm :: arms) rest := by
      intro hdepth'
      rw [hsplit] at hdefault ⊢
      exact ih hlater hdepth' (arm :: acc) hdefault
    obtain ⟨es, isDefault, body⟩ := arm
    cases isDefault with
    | true =>
      simp only [Spelling.arms, List.length_cons, List.length_append, length_braced] at hdepth
      have hacc : ∀ arm ∈ acc, arm.isDefault = false := by
        intro other hother
        have hone := (List.pairwise_append.mp hdefault).2.2 other (List.mem_reverse.mpr hother) _
          List.mem_cons_self
        exact hone.resolve_right (by simp [Arm.isDefault])
      simp only [Spelling.arms, List.cons_append, List.append_assoc]
      exact .next (armStep_default harm (by omega) (by omega) hacc)
        (by simp only [weight_mark, weight_word, weight_append]; omega) (hrest (by omega))
    | false =>
      cases es with
      | nil => exact absurd harm.first (by simp [Arm.patterns, Arm.isDefault])
      | cons e es =>
        simp only [Spelling.arms, List.length_cons, List.length_append, length_braced,
          length_enclosed] at hdepth
        simp only [Spelling.arms, List.cons_append, List.append_assoc]
        exact .next (armStep_patterns harm (by omega) (by omega) (by omega))
          (by simp only [weight_mark, weight_append]; omega) (hrest (by omega))

/-! ### Functions -/

theorem names_finish {xs : List String} {closing : Symbol}
    (hcomma : closing ≠ .comma) (acc : List String) :
    Finishes (listStep parameter closing) acc (names .comma xs ++ mark closing line :: rest)
      (acc.reverse ++ xs) rest := by
  induction xs generalizing acc with
  | nil =>
    refine .last ?_
    simp [names, listStep]
  | cons x xs ih =>
    have hstep : ∀ rest', listStep parameter closing acc
        (Token.name x 1 :: mark .comma 1 :: rest') = .ok (.inl (x :: acc), rest') := by
      intro rest'
      have hread : parameter (Token.name x 1 :: mark .comma 1 :: rest') =
          .ok (x, mark .comma 1 :: rest') := by
        simp [parameter]
      simp [listStep, bind_of_ok hread, hcomma.symm]
    have hrest := ih (x :: acc)
    simp only [names, List.flatMap_cons, List.cons_append, List.nil_append] at hrest ⊢
    refine .next (hstep _) (by simp only [weight_mark, weight_name, weight_append]; omega) ?_
    simpa using hrest

theorem functionRest_read {f : FunctionDecl Unit} (hbody : ∀ s ∈ f.body, SpellsStatement s)
    (hdepth : f.spell.length ≤ depth) :
    (nested depth).functionRest f.name f.line (f.spell ++ rest) = .ok (f, rest) := by
  obtain ⟨⟨⟩, x, parameters, body, line⟩ := f
  simp only [FunctionDecl.spell, List.length_cons, List.length_append, length_braced] at hdepth
  have hparameters : ∀ rest', commaSeparated parameter .rightParen
      (names .comma parameters ++ mark .rightParen 1 :: rest') = .ok (parameters, rest') :=
    fun rest' => (names_finish (show Symbol.rightParen ≠ .comma by decide) []).repeatFrom
  have hblock : (nested depth).block (braced (statements body) ++ rest) = .ok (body, rest) :=
    block_read hbody (by omega)
  simp [FunctionDecl.spell, Nested.functionRest, bind_of_ok (hparameters _), bind_of_ok hblock,
    FunctionDecl.name, FunctionDecl.line, -bind_pure_comp]

end ScriptLang.Grammar
