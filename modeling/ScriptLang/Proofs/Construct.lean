import ScriptLang.Proofs.ReadBack

/-! Spelled expressions are read back: each construct from the tokens that spell it, given that its
parts are. -/

namespace ScriptLang.Grammar

open TokenKind (keyword symbol)
open Token (mark word)
open Spelling

/-! ### The forms of a primary expression -/

section Forms

variable {g : Nested} {line : Nat} {rest : List Token}

@[simp]
theorem primaryBody_number {x : Float} :
    g.primaryBody (Token.number x line :: rest) = .ok (.number x line, rest) := by
  have hread : Number.read? (Token.number x line).literal = some x := Number.read?_spell x
  simp [Nested.primaryBody, hread]

@[simp]
theorem primaryBody_text {s : String} :
    g.primaryBody (Token.text s line :: rest) = .ok (.string s line, rest) := by
  simp [Nested.primaryBody]

@[simp]
theorem primaryBody_name {x : String} :
    g.primaryBody (Token.name x line :: rest) = .ok (.place (.variable x line), rest) := by
  simp [Nested.primaryBody]

@[simp]
theorem primaryBody_leftBrace :
    g.primaryBody (mark .leftBrace line :: rest) = g.object line rest := by
  simp [Nested.primaryBody]

@[simp]
theorem primaryBody_leftBracket :
    g.primaryBody (mark .leftBracket line :: rest) =
      (do return .array (← commaSeparated g.expression .rightBracket) line : Parser (Expr Unit))
        rest := by
  simp [Nested.primaryBody, -bind_pure_comp]

@[simp]
theorem primaryBody_newKw : g.primaryBody (word .newKw line :: rest) = g.construct line rest := by
  simp [Nested.primaryBody]

@[simp]
theorem primaryBody_matchKw : g.primaryBody (word .matchKw line :: rest) = g.select line rest := by
  simp [Nested.primaryBody]

@[simp]
theorem primaryBody_fnKw : g.primaryBody (word .fnKw line :: rest) = g.function line rest := by
  simp [Nested.primaryBody]

end Forms

theorem spells_of_primary {first : Token} {tokens : List Token} {e : Expr Unit}
    (hfirst : beginsLogic first.kind)
    (h : ∀ depth, tokens.length < depth → ∀ rest,
      (nested depth).primaryBody (first :: (tokens ++ rest)) = .ok (e, rest)) :
    Spells (first :: tokens) e := by
  intro depth hdepth t rest ht
  obtain ⟨hne, hcall, haccess, -⟩ := endsSum_iff.mp (endsTarget_iff.mp (endsExpression_iff.mp ht).1).1
  exact assignment_of_postfixed (postfixed_of_primary (h depth hdepth _) hne hcall haccess) hfirst ht

theorem spells_of_step {container e : Expr Unit} {first : Token} {tokens : List Token}
    (hcontainer : Spells container.spell container) (hstart : first.kind ≠ .newline)
    (h : ∀ depth, tokens.length + container.spell.length < depth → ∀ rest,
      (nested depth).postfixStep container (first :: (tokens ++ rest)) = .ok (.inl e, rest)) :
    Spells (enclosed 1 container.spell ++ first :: tokens) e := by
  intro depth hdepth t rest ht
  simp only [List.length_append, length_enclosed, List.length_cons] at hdepth
  obtain ⟨hne, hcall, haccess, -⟩ := endsSum_iff.mp (endsTarget_iff.mp (endsExpression_iff.mp ht).1).1
  have hstep := h depth (by omega) (t :: rest)
  have hpostfixed : (nested depth).postfixed
      (enclosed 1 container.spell ++ first :: (tokens ++ t :: rest)) = .ok (e, t :: rest) :=
    postfixed_of_step (hcontainer.primary (by omega) _) hstep
      (by rw [weight_cons hstart, weight_append]; omega) hne hcall haccess
  have hfirst : beginsLogic (mark .leftParen 1).kind := ⟨nofun, nofun⟩
  rw [List.append_assoc, List.cons_append]
  exact assignment_of_postfixed hpostfixed hfirst ht

variable {line : Nat}

/-! ### Literals, variables and members -/

theorem spells_number {x : Float} : Spells (Expr.spell (.number x line)) (.number x line) :=
  spells_of_primary ⟨nofun, nofun⟩ fun _ _ _ => primaryBody_number

theorem spells_string {s : String} : Spells (Expr.spell (.string s line)) (.string s line) :=
  spells_of_primary ⟨nofun, nofun⟩ fun _ _ _ => primaryBody_text

theorem spells_variable {x : String} :
    Spells (Place.spell (.variable x line)) (.place (.variable x line)) :=
  spells_of_primary ⟨nofun, nofun⟩ fun _ _ _ => primaryBody_name

theorem spells_dot {container : Expr Unit} {x : String} {nameLine : Nat}
    (hcontainer : Spells container.spell container) :
    Spells (Place.spell (.dot container x nameLine line))
      (.place (.dot container x nameLine line)) := by
  refine spells_of_step hcontainer nofun fun depth _ rest => ?_
  simp [Nested.postfixStep, Nested.startsAccess, Nested.access, -bind_pure_comp]

theorem spells_index {container key : Expr Unit} (hcontainer : Spells container.spell container)
    (hkey : Spells key.spell key) :
    Spells (Place.spell (.index container key line)) (.place (.index container key line)) := by
  refine spells_of_step hcontainer nofun fun depth hdepth rest => ?_
  simp only [List.length_append, length_enclosed, List.length_cons, List.length_nil] at hdepth
  have hread : (nested depth).expression
      (enclosed 1 key.spell ++ mark .rightBracket 1 :: rest) =
        .ok (key, mark .rightBracket 1 :: rest) :=
    hkey.expression (by omega) rest rfl
  simp [Nested.postfixStep, Nested.startsAccess, Nested.access, bind_of_ok hread, -bind_pure_comp]

/-! ### Objects and arrays -/

theorem spells_object {properties : List (String × Expr Unit)}
    (hvalues : ∀ p ∈ properties, Spells p.2.spell p.2) :
    Spells (Expr.spell (.object properties line)) (.object properties line) := by
  rw [Expr.spell]
  refine spells_of_primary ⟨nofun, nofun⟩ fun depth hdepth rest => ?_
  rw [List.length_append] at hdepth
  have hread : repeatFrom (nested depth).objectStep []
      (Spelling.properties properties ++ mark .rightBrace 1 :: rest) = .ok (properties, rest) :=
    (properties_finish hvalues (by omega) []).repeatFrom
  simp [Nested.object, bind_of_ok hread, -bind_pure_comp]

theorem spells_array {elements : List (Expr Unit)} (helements : ∀ e ∈ elements, Spells e.spell e) :
    Spells (Expr.spell (.array elements line)) (.array elements line) := by
  rw [Expr.spell]
  refine spells_of_primary ⟨nofun, nofun⟩ fun depth hdepth rest => ?_
  rw [List.length_append] at hdepth
  have hread : commaSeparated (nested depth).expression .rightBracket
      (items elements ++ mark .rightBracket 1 :: rest) = .ok (elements, rest) :=
    commaSeparated_items helements (by omega) nofun nofun
  simp [bind_of_ok hread, -bind_pure_comp]

/-! ### Operators -/

section Operators

variable {operator : Operator} {left right : Expr Unit}

/-- Each operator joins operands at one of three levels and ends those of the tighter levels. -/
theorem level_of_operator (operator : Operator) :
    Nested.productOperator? (symbol operator.symbol) = some operator ∨
      Nested.productOperator? (symbol operator.symbol) = none ∧
        Nested.sumOperator? (symbol operator.symbol) = some operator ∨
      endsSum (symbol operator.symbol) = true ∧
        Nested.logicOperator? (symbol operator.symbol) = some operator := by
  cases operator <;> decide

theorem operator_ends_postfixed (operator : Operator) :
    symbol operator.symbol ≠ symbol .leftParen ∧
      Nested.startsAccess (symbol operator.symbol) = false := by
  cases operator <;> decide

variable {depth : Nat} {t : Token} {rest : List Token}

theorem sum_of_product_pair (hleft : Spells left.spell left) (hright : Spells right.spell right)
    (hlevel : Nested.productOperator? (symbol operator.symbol) = some operator)
    (hdepthLeft : left.spell.length < depth) (hdepthRight : right.spell.length < depth)
    (ht : endsSum t.kind = true) :
    (nested depth).sum (enclosed 1 left.spell ++ mark operator.symbol line ::
      (enclosed 1 right.spell ++ t :: rest)) = .ok (.binary operator left right line, t :: rest) := by
  obtain ⟨hne, hcall, haccess, hproduct, hsum⟩ := endsSum_iff.mp ht
  obtain ⟨hcall', haccess'⟩ := operator_ends_postfixed operator
  have hfirst : (nested depth).postfixed (enclosed 1 left.spell ++ mark operator.symbol line ::
      (enclosed 1 right.spell ++ t :: rest)) = .ok (left, mark operator.symbol line :: _) :=
    hleft.postfixed hdepthLeft _ nofun hcall' haccess'
  have hsecond : (nested depth).postfixed (enclosed 1 right.spell ++ t :: rest) =
      .ok (right, t :: rest) :=
    hright.postfixed hdepthRight rest hne hcall haccess
  have hshorter : weight (t :: rest) <
      weight (mark operator.symbol line :: (enclosed 1 right.spell ++ t :: rest)) := by
    simp only [weight_mark, weight_append]
    omega
  exact chain_of_operand (chain_of_pair hfirst nofun hlevel hsecond hne hproduct hshorter) hne hsum

theorem sum_of_sum_pair (hleft : Spells left.spell left) (hright : Spells right.spell right)
    (hnone : Nested.productOperator? (symbol operator.symbol) = none)
    (hlevel : Nested.sumOperator? (symbol operator.symbol) = some operator)
    (hdepthLeft : left.spell.length < depth) (hdepthRight : right.spell.length < depth)
    (ht : endsSum t.kind = true) :
    (nested depth).sum (enclosed 1 left.spell ++ mark operator.symbol line ::
      (enclosed 1 right.spell ++ t :: rest)) = .ok (.binary operator left right line, t :: rest) := by
  obtain ⟨hne, hcall, haccess, hproduct, hsum⟩ := endsSum_iff.mp ht
  obtain ⟨hcall', haccess'⟩ := operator_ends_postfixed operator
  have hfirst : (nested depth).product (enclosed 1 left.spell ++ mark operator.symbol line ::
      (enclosed 1 right.spell ++ t :: rest)) = .ok (left, mark operator.symbol line :: _) :=
    chain_of_operand (hleft.postfixed hdepthLeft _ nofun hcall' haccess') nofun hnone
  have hsecond : (nested depth).product (enclosed 1 right.spell ++ t :: rest) =
      .ok (right, t :: rest) :=
    chain_of_operand (hright.postfixed hdepthRight rest hne hcall haccess) hne hproduct
  have hshorter : weight (t :: rest) <
      weight (mark operator.symbol line :: (enclosed 1 right.spell ++ t :: rest)) := by
    simp only [weight_mark, weight_append]
    omega
  exact chain_of_pair hfirst nofun hlevel hsecond hne hsum hshorter

theorem logic_of_logic_pair (hleft : Spells left.spell left) (hright : Spells right.spell right)
    (hends : endsSum (symbol operator.symbol) = true)
    (hlevel : Nested.logicOperator? (symbol operator.symbol) = some operator)
    (hdepthLeft : left.spell.length < depth) (hdepthRight : right.spell.length < depth)
    (ht : endsTarget t.kind = true) :
    (nested depth).logic (enclosed 1 left.spell ++ mark operator.symbol line ::
      (enclosed 1 right.spell ++ t :: rest)) = .ok (.binary operator left right line, t :: rest) := by
  obtain ⟨hsum, hlogic, -⟩ := endsTarget_iff.mp ht
  obtain ⟨hne, hcall, haccess, -⟩ := endsSum_iff.mp hsum
  obtain ⟨hcall', haccess'⟩ := operator_ends_postfixed operator
  have hfirst : (nested depth).sum (enclosed 1 left.spell ++ mark operator.symbol line ::
      (enclosed 1 right.spell ++ t :: rest)) = .ok (left, mark operator.symbol line :: _) :=
    sum_of_postfixed (hleft.postfixed hdepthLeft _ nofun hcall' haccess') hends
  have hsecond : (nested depth).sum (enclosed 1 right.spell ++ t :: rest) = .ok (right, t :: rest) :=
    sum_of_postfixed (hright.postfixed hdepthRight rest hne hcall haccess) hsum
  have hne' : (mark operator.symbol line).kind ≠ .newline := nofun
  rw [Nested.logic, bind_of_ok hfirst, bind_of_ok (chainStep_of_some hne' hlevel hsecond)]
  exact Finishes.repeatFrom (.last (chainStep_of_none hne hlogic))

theorem spells_binary (hleft : Spells left.spell left) (hright : Spells right.spell right) :
    Spells (Expr.spell (.binary operator left right line)) (.binary operator left right line) := by
  rw [Expr.spell]
  intro depth hdepth t rest ht
  simp only [List.length_append, length_enclosed, List.length_cons] at hdepth
  obtain ⟨htarget, hequals⟩ := endsExpression_iff.mp ht
  obtain ⟨hsum, hlogic, harrow⟩ := endsTarget_iff.mp htarget
  have hne := (endsSum_iff.mp hsum).1
  have hdepthLeft : left.spell.length < depth := by omega
  have hdepthRight : right.spell.length < depth := by omega
  have hread : (nested depth).logic (enclosed 1 left.spell ++ mark operator.symbol line ::
      (enclosed 1 right.spell ++ t :: rest)) =
        .ok (.binary operator left right line, t :: rest) := by
    obtain hlevel | ⟨hnone, hlevel⟩ | ⟨hends, hlevel⟩ := level_of_operator operator
    · exact logic_of_sum
        (sum_of_product_pair hleft hright hlevel hdepthLeft hdepthRight hsum) hne hlogic
    · exact logic_of_sum
        (sum_of_sum_pair hleft hright hnone hlevel hdepthLeft hdepthRight hsum) hne hlogic
    · exact logic_of_logic_pair hleft hright hends hlevel hdepthLeft hdepthRight htarget
  have hfirst : beginsLogic (mark .leftParen 1).kind := ⟨nofun, nofun⟩
  rw [List.append_assoc, List.cons_append]
  exact assignment_of_conditional (conditional_of_logic hread hfirst hne harrow) hne hequals

end Operators

/-! ### Assignments, calls and instantiations -/

theorem spells_assign {target : Place Unit} {value : Expr Unit}
    (htarget : Spells target.spell (.place target)) (hvalue : Spells value.spell value) :
    Spells (Expr.spell (.assign target value line)) (.assign target value line) := by
  rw [Expr.spell]
  intro depth hdepth t rest ht
  simp only [List.length_append, length_enclosed, List.length_cons] at hdepth
  have hread : (nested depth).conditional (enclosed 1 target.spell ++ mark .equals line ::
      (enclosed 1 value.spell ++ t :: rest)) = .ok (.place target, mark .equals line :: _) :=
    htarget.conditional (by omega) _ rfl
  have hread' : (nested depth).expression (enclosed 1 value.spell ++ t :: rest) =
      .ok (value, t :: rest) :=
    hvalue.expression (by omega) rest ht
  rw [List.append_assoc, List.cons_append, Nested.assignment, bind_of_ok hread]
  simp [bind_of_ok hread', -bind_pure_comp]

section Calls

variable {arguments : List (Expr Unit)}

theorem spells_call {callee : Expr Unit} (hcallee : Spells callee.spell callee)
    (harguments : ∀ e ∈ arguments, Spells e.spell e) :
    Spells (Expr.spell (.call callee arguments line)) (.call callee arguments line) := by
  rw [Expr.spell]
  refine spells_of_step hcallee nofun fun depth hdepth rest => ?_
  rw [List.length_append] at hdepth
  have hread : commaSeparated (nested depth).expression .rightParen
      (items arguments ++ mark .rightParen 1 :: rest) = .ok (arguments, rest) :=
    commaSeparated_items harguments (by omega) nofun nofun
  simp [Nested.postfixStep, Nested.arguments, bind_of_ok hread, -bind_pure_comp]

theorem spells_construct {target : Place Unit} (htarget : Spells target.spell (.place target))
    (harguments : ∀ e ∈ arguments, Spells e.spell e) :
    Spells (Expr.spell (.construct target arguments line)) (.construct target arguments line) := by
  rw [Expr.spell]
  refine spells_of_primary ⟨nofun, nofun⟩ fun depth hdepth rest => ?_
  simp only [List.length_append, length_enclosed, List.length_cons] at hdepth
  have hprimary : ∀ rest', (nested depth).primary
      (enclosed 1 target.spell ++ mark .leftParen 1 :: rest') =
        .ok (.place target, mark .leftParen 1 :: rest') := by
    obtain ⟨depth, rfl⟩ : ∃ inner, depth = inner + 1 := ⟨depth - 1, by omega⟩
    exact fun _ => htarget.primary (by omega) _
  have hmember : ∀ rest', (nested depth).member
      (enclosed 1 target.spell ++ mark .leftParen 1 :: rest') =
        .ok (.place target, mark .leftParen 1 :: rest') := by
    intro rest'
    rw [Nested.member, bind_of_ok (hprimary rest')]
    exact Finishes.repeatFrom (.last (by simp [Nested.memberStep, Nested.startsAccess]))
  have hread : commaSeparated (nested depth).expression .rightParen
      (items arguments ++ mark .rightParen 1 :: rest) = .ok (arguments, rest) :=
    commaSeparated_items harguments (by omega) nofun nofun
  simp [Nested.construct, Nested.arguments, bind_of_ok (hmember _),
    bind_of_ok hread, -bind_pure_comp]

end Calls

/-! ### Expressions with blocks -/

theorem spells_select {scrutinee : Expr Unit} {arms : List (Arm Unit)}
    (hscrutinee : Spells scrutinee.spell scrutinee) (harms : ∀ arm ∈ arms, SpellsArm arm)
    (hdefault : arms.Pairwise Arm.OneDefault) :
    Spells (Expr.spell (.select scrutinee arms line)) (.select scrutinee arms line) := by
  rw [Expr.spell]
  refine spells_of_primary ⟨nofun, nofun⟩ fun depth hdepth rest => ?_
  simp only [List.length_append, length_enclosed, length_braced] at hdepth
  have hread : (nested depth).expression (enclosed 1 scrutinee.spell ++ mark .leftBrace 1 ::
      (Spelling.arms arms ++ mark .rightBrace 1 :: rest)) =
        .ok (scrutinee, mark .leftBrace 1 :: _) :=
    hscrutinee.expression (by omega) _ rfl
  have hread' : repeatFrom (nested depth).armStep []
      (Spelling.arms arms ++ mark .rightBrace 1 :: rest) = .ok (arms, rest) :=
    (arms_finish harms (by omega) [] hdefault).repeatFrom
  simp [Nested.select, braced, bind_of_ok hread, bind_of_ok hread',
    -bind_pure_comp]

theorem spells_function {f : FunctionDecl Unit} (hbody : ∀ s ∈ f.body, SpellsStatement s) :
    Spells (Expr.spell (.function f)) (.function f) := by
  rw [Expr.spell]
  refine spells_of_primary ⟨nofun, nofun⟩ fun depth hdepth rest => ?_
  rw [List.length_cons] at hdepth
  have hread : (nested depth).functionRest f.name f.line (f.spell ++ rest) = .ok (f, rest) :=
    functionRest_read hbody (by omega)
  simp [Nested.function, bind_of_ok hread, -bind_pure_comp]

theorem spells_attempt {body handler : List (Stmt Unit)} (hbody : ∀ s ∈ body, SpellsStatement s)
    (hhandler : ∀ s ∈ handler, SpellsStatement s) :
    Spells (Expr.spell (.attempt body handler line)) (.attempt body handler line) := by
  rw [Expr.spell]
  intro depth hdepth t rest ht
  simp only [List.length_append, length_braced, List.length_cons] at hdepth
  obtain ⟨htarget, hequals⟩ := endsExpression_iff.mp ht
  obtain ⟨hsum, -, harrow⟩ := endsTarget_iff.mp htarget
  have hne := (endsSum_iff.mp hsum).1
  have hread : (nested depth).block (braced (statements body) ++ word .catchKw 1 ::
      (braced (statements handler) ++ t :: rest)) = .ok (body, word .catchKw 1 :: _) :=
    block_read hbody (by omega)
  have hread' : (nested depth).block (braced (statements handler) ++ t :: rest) =
      .ok (handler, t :: rest) :=
    block_read hhandler (by omega)
  have hattempt : (nested depth).attempt (word .tryKw line :: (braced (statements body) ++
      word .catchKw 1 :: (braced (statements handler) ++ t :: rest))) =
        .ok (.attempt body handler line, t :: rest) := by
    simp [Nested.attempt, bind_of_ok hread, bind_of_ok hread', -bind_pure_comp]
  rw [List.cons_append, List.append_assoc, List.cons_append]
  exact assignment_of_conditional (conditional_of_attempt hattempt hne harrow) hne hequals

end ScriptLang.Grammar
