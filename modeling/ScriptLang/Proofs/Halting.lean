import ScriptLang.Proofs.Boundary

/-! Reading comes to an end by itself, whatever the tokens are. A loop of the grammar needs no count of its
rounds, since each round but the last takes a token. Phrases need no bound on their levels: with any number
more than there are tokens, the same program is read. -/

namespace ScriptLang.Grammar

variable {α β γ : Type}

/-! ### Loops without a count of their rounds -/

/-- The loop with the body `step` ends with the outcome. Nothing bounds its rounds. -/
inductive Runs (step : β → Parser (β ⊕ γ)) :
    β → List Token → Except ParseError (γ × List Token) → Prop
  | failed {b : β} {tokens : List Token} {e : ParseError} (h : step b tokens = .error (.error e)) :
    Runs step b tokens (.error e)
  | last {b : β} {result : γ} {tokens rest : List Token}
      (h : step b tokens = .ok (.inr result, rest)) : Runs step b tokens (.ok (result, rest))
  | next {b c : β} {tokens between : List Token} {outcome : Except ParseError (γ × List Token)}
      (h : step b tokens = .ok (.inl c, between)) (hrest : Runs step c between outcome) :
    Runs step b tokens outcome

/-- The bodies of the loops that phrases run. -/
inductive Nested.IsLoop (g : Nested) : {β γ : Type} → (β → Parser (β ⊕ γ)) → Prop
  | program : g.IsLoop g.programStep
  | block : g.IsLoop g.blockStep
  | classBody : g.IsLoop g.classStep
  | enumBody : g.IsLoop memberNameStep
  | parameters : g.IsLoop (listStep parameter .rightParen)
  | items (closing : Symbol) : g.IsLoop (listStep g.expression closing)
  | object : g.IsLoop g.objectStep
  | arms : g.IsLoop g.armStep
  | patterns : g.IsLoop g.patternStep
  | members : g.IsLoop g.memberStep
  | postfixes : g.IsLoop g.postfixStep
  | products : g.IsLoop (chainStep Nested.productOperator? g.postfixed)
  | sums : g.IsLoop (chainStep Nested.sumOperator? g.product)
  | logic : g.IsLoop (chainStep Nested.logicOperator? g.expression)

section Loops

variable {level : Nat} {tokens : List Token}

theorem Progresses.cases {step : Parser (β ⊕ γ)} (h : Progresses (fun _ => True) level step)
    (hlevel : weight tokens < level) :
    (∃ e, step tokens = .error (.error e)) ∨ (∃ result rest, step tokens = .ok (.inr result, rest)) ∨
      ∃ c rest, step tokens = .ok (.inl c, rest) ∧ weight rest < weight tokens := by
  have hmeets := h tokens nofun .any hlevel
  rcases hround : step tokens with (e | _) | ⟨c | result, rest⟩
  · exact .inl ⟨e, rfl⟩
  · rw [hround] at hmeets
    exact hmeets.elim
  · rw [hround] at hmeets
    obtain ⟨-, taken, rfl, -, hpositive⟩ := hmeets
    have htaken := hpositive rfl
    have hsum := weight_append taken rest
    exact .inr (.inr ⟨c, rest, rfl, by omega⟩)
  · exact .inr (.inl ⟨result, rest, rfl⟩)

variable {step : β → Parser (β ⊕ γ)} (hstep : ∀ b, Progresses (fun _ => True) level (step b))

include hstep

theorem exists_runs_rounds (tokens : List Token) {n : Nat} (b : β) (hlevel : weight tokens < level)
    (hn : weight tokens ≤ n) :
    ∃ outcome, Runs step b tokens outcome ∧ rounds step n b tokens = outcome.mapError .error := by
  -- By recursion on the tokens that are left. As many rounds as there are tokens are enough.
  obtain ⟨e, hround⟩ | ⟨result, rest, hround⟩ | ⟨c, between, hround, hshorter⟩ := (hstep b).cases hlevel
  · exact ⟨.error e, .failed hround, rounds_of_error hround n⟩
  · exact ⟨.ok (result, rest), .last hround, rounds_of_last hround n⟩
  · obtain ⟨n, rfl⟩ : ∃ m, n = m + 1 := ⟨n - 1, by omega⟩
    obtain ⟨outcome, hruns, hrounds⟩ :=
      exists_runs_rounds between c (Nat.lt_trans hshorter hlevel) (by omega : weight between ≤ n)
    exact ⟨outcome, .next hround hruns, (bind_of_ok hround).trans hrounds⟩
termination_by weight tokens

theorem exists_runs (b : β) (hlevel : weight tokens < level) :
    ∃ outcome, Runs step b tokens outcome ∧ repeatFrom step b tokens = outcome.mapError .error := by
  rw [repeatFrom_eq_rounds]
  exact exists_runs_rounds hstep tokens b hlevel (Nat.le_refl _)

end Loops

theorem Nested.IsLoop.progresses {g : Nested} {level : Nat} (hg : g.Serves (fun _ => True) level)
    {step : β → Parser (β ⊕ γ)} (h : g.IsLoop step) (b : β) :
    Progresses (fun _ => True) level (step b) := by
  cases h with
  | program => exact hg.programStep.lower
  | block => exact hg.blockStep
  | classBody => exact hg.classStep
  | enumBody => exact memberNameStep_progresses
  | parameters => exact .listStep parameter_takes.lower
  | items => exact .listStep hg.expression
  | object => exact hg.objectStep
  | arms => exact hg.armStep
  | patterns => exact (hg.patternStep fun _ _ _ _ _ => trivial).mono (fun _ _ => trivial) fun _ => id
  | members => exact hg.memberStep
  | postfixes => exact hg.postfixStep
  | products => exact chainStep_progresses rfl hg.postfixed.lower
  | sums => exact chainStep_progresses rfl (chain_takes rfl hg.postfixed).lower
  | logic => exact chainStep_progresses rfl hg.expression

/-! ### Any number of levels -/

/-- The same tokens, with bounds that may be larger on the right. -/
def exceptBounds : Likeness where
  Alike := Eq
  nil := rfl
  sameColumns := True
  sameBounds := False
  front := by
    rintro tokens _ rfl
    cases afterBreaks tokens with
    | nil => exact .inl ⟨rfl, rfl⟩
    | cons t rest => exact .inr ⟨t, t.position.column, rest, rest, rfl, rfl, fun _ => rfl, rfl, rfl⟩
  weight := congrArg Grammar.weight

theorem eq_of_same {p p' : Parser α} (h : exceptBounds.Same p p') {tokens : List Token}
    (hbounds : p tokens ≠ .error .exhausted) : p' tokens = p tokens := by
  have hagrees := h tokens tokens rfl
  generalize p tokens = r, p' tokens = r' at hagrees hbounds
  cases hagrees with
  | ok ha hrest =>
    obtain rfl := ha
    exact congrArg (fun rest => Except.ok (_, rest)) hrest.symm
  | error _ hsame => exact congrArg (fun e => Except.error (Stop.error e)) (hsame trivial).symm
  | exhausted => exact absurd rfl hbounds

theorem nested_deeper {depth depth' : Nat} (h : depth ≤ depth') :
    (nested depth).Same exceptBounds (nested depth') :=
  nested_same h False.elim

theorem program_eq_parseTokens {tokens : List Token} {depth : Nat} (h : weight tokens < depth) :
    (nested depth).program.run' tokens = (parseTokens tokens).mapError .error := by
  obtain ⟨r, hrun, hread⟩ := exists_program tokens
  have hresult : (nested (weight tokens + 1)).program tokens ≠ .error .exhausted := by
    rw [hrun]
    cases r <;> nofun
  rw [StateT.run', eq_of_same (nested_deeper h).program hresult, hrun, hread]
  cases r <;> rfl

/-- Whatever the parser reads, it takes a token that is no line break. So it leaves a proper suffix of its
tokens. -/
def Consumes (p : Parser α) : Prop :=
  ∀ tokens a rest, p tokens = .ok (a, rest) →
    ∃ taken, tokens = taken ++ rest ∧ ∃ t ∈ taken, t.kind ≠ .newline

theorem exists_of_weight_pos {tokens : List Token} (h : 0 < weight tokens) :
    ∃ t ∈ tokens, t.kind ≠ .newline := by
  obtain ⟨t, ht⟩ := List.length_pos_iff_exists_mem.mp h
  obtain ⟨hmem, hkind⟩ := List.mem_filter.mp ht
  exact ⟨t, hmem, by simpa using hkind⟩

/-- What is read with too few levels is read with enough of them as well. -/
theorem consumes_of_takes {p : Nat → Parser α}
    (hdeeper : ∀ {depth depth'}, depth ≤ depth' → exceptBounds.Same (p depth) (p depth'))
    (htakes : ∀ depth, Takes (fun _ => True) none depth (p depth)) (depth : Nat) :
    Consumes (p depth) := by
  intro tokens a rest hread
  let enough := max depth (weight tokens + 1)
  have hsame : p enough tokens = .ok (a, rest) :=
    (eq_of_same (hdeeper (Nat.le_max_left ..)) (hread ▸ nofun)).trans hread
  have hmeets := htakes enough tokens nofun .any (Nat.le_max_right depth (weight tokens + 1))
  rw [hsame] at hmeets
  obtain ⟨-, taken, htokens, -, hpositive⟩ := hmeets
  exact ⟨taken, htokens, exists_of_weight_pos (hpositive trivial)⟩

end ScriptLang.Grammar

namespace ScriptLang

open Grammar (Parser Runs Consumes nested weight repeatFrom listStep)

/-- However many levels of phrases there are beyond the tokens, the same program or error comes out, and all
loops on the way end by themselves. A statement, an expression or a block that has been read has taken a
token that is no line break. -/
theorem parseTokens_halts :
    (∀ tokens depth, weight tokens < depth →
      (nested depth).program.run' tokens = (parseTokens tokens).mapError .error ∧
        ∀ {β γ : Type} {step : β → Parser (β ⊕ γ)}, (nested depth).IsLoop step → ∀ b,
          ∃ outcome, Runs step b tokens outcome ∧
            repeatFrom step b tokens = outcome.mapError .error) ∧
    ∀ depth, Consumes (nested depth).statement ∧ Consumes (nested depth).expression ∧
      Consumes (nested depth).block := by
  have hserves := Grammar.nested_serves fun _ => True
  refine ⟨fun tokens depth hlevel => ⟨Grammar.program_eq_parseTokens hlevel, fun hloop b => ?_⟩,
    fun depth => ⟨?_, ?_, ?_⟩⟩
  · exact Grammar.exists_runs (hloop.progresses (hserves depth)) b hlevel
  · exact Grammar.consumes_of_takes (fun h => (Grammar.nested_deeper h).statement)
      (fun depth => (hserves depth).statement.lower) depth
  · exact Grammar.consumes_of_takes (fun h => (Grammar.nested_deeper h).expression)
      (fun depth => (hserves depth).expression) depth
  · exact Grammar.consumes_of_takes (fun h => (Grammar.nested_deeper h).block)
      (fun depth => (hserves depth).block) depth

/-- Tokens that neither close a block nor end with a mark, and three phrases that are whole. -/
theorem parseTokens_halts_unclosed :
    let a : Token := ⟨.identifier, "a", "a", ⟨1, 2⟩⟩
    let opening : Token := ⟨.symbol .leftBrace, "\x7b", "\x7b", ⟨1, 1⟩⟩
    let closing : Token := ⟨.symbol .rightBrace, "\x7d", "\x7d", ⟨2, 1⟩⟩
    let semicolon : Token := ⟨.symbol .semicolon, ";", ";", ⟨2, 1⟩⟩
    let lineBreak : Token := ⟨.newline, "\n", "\n", ⟨1, 3⟩⟩
    let mark : Token := .endAt ⟨2, 2⟩
    let name : Expr Unit := .place (.variable "a" 1)
    (weight [a, lineBreak] < 2 ∧ (nested 2).IsLoop (nested 2).blockStep ∧
      (nested 2).program.run' [a, lineBreak] = (parseTokens [a, lineBreak]).mapError .error ∧
        ∃ outcome, Runs (nested 2).blockStep [] [a, lineBreak] outcome ∧
          repeatFrom (nested 2).blockStep [] [a, lineBreak] = outcome.mapError .error) ∧
    ((nested 2).statement [a, lineBreak, semicolon, mark] = .ok (.expression name 1, [mark]) ∧
      ∃ taken, [a, lineBreak, semicolon, mark] = taken ++ [mark] ∧ ∃ t ∈ taken, t.kind ≠ .newline) ∧
    ((nested 2).expression [lineBreak, a, mark] = .ok (name, [mark]) ∧
      ∃ taken, [lineBreak, a, mark] = taken ++ [mark] ∧ ∃ t ∈ taken, t.kind ≠ .newline) ∧
    ((nested 2).block [opening, lineBreak, closing, mark] = .ok ([], [mark]) ∧
      ∃ taken, [opening, lineBreak, closing, mark] = taken ++ [mark] ∧ ∃ t ∈ taken, t.kind ≠ .newline) := by
  intro a opening closing semicolon lineBreak mark name
  obtain ⟨hends, hconsumes⟩ := parseTokens_halts
  obtain ⟨hstatement, hexpression, hblock⟩ := hconsumes 2
  obtain ⟨hprogram, hloop⟩ := hends [a, lineBreak] 2 (by decide)
  exact ⟨⟨by decide, .block, hprogram, hloop .block []⟩, ⟨rfl, hstatement _ _ _ rfl⟩,
    ⟨rfl, hexpression _ _ _ rfl⟩, ⟨rfl, hblock _ _ _ rfl⟩⟩

end ScriptLang
