import ScriptLang.Proofs.Reading

/-! Two runs of the grammar side by side, with tokens that are alike for all that parsers look at. They pass
over the line breaks before the next token, look at its kind, its texts and its line, and hand on its column
to errors alone. So the next token is the same on both sides but for its column, and what is read is the
same. -/

namespace ScriptLang

/-- The line alone. No column of a text is zero. -/
def Position.bare (p : Position) : Position :=
  ⟨p.line, 0⟩

def Token.bare (t : Token) : Token :=
  ⟨t.kind, t.literal, t.lexeme, t.position.bare⟩

def Token.inColumn (t : Token) (column : Nat) : Token :=
  ⟨t.kind, t.literal, t.lexeme, ⟨t.position.line, column⟩⟩

@[simp]
theorem Token.kind_inColumn {t : Token} {column : Nat} : (t.inColumn column).kind = t.kind :=
  rfl

@[simp]
theorem Token.literal_inColumn {t : Token} {column : Nat} : (t.inColumn column).literal = t.literal :=
  rfl

namespace ParseError

def bare : ParseError → ParseError
  | unexpectedCharacter c p => unexpectedCharacter c p.bare
  | unexpectedToken expected found p => unexpectedToken expected found p.bare
  | unexpectedEndOfInput expected p => unexpectedEndOfInput expected p.bare
  | constantWithoutValue name p => constantWithoutValue name p.bare
  | invalidMemberProperty p => invalidMemberProperty p.bare
  | invalidAssignmentTarget p => invalidAssignmentTarget p.bare
  | invalidParameter p => invalidParameter p.bare
  | duplicateDefault p => duplicateDefault p.bare
  | invalidTernary p => invalidTernary p.bare
  | invalidTernaryTest p => invalidTernaryTest p.bare

theorem unexpected_inColumn (t : Token) (column : Nat) (expected : String) :
    (unexpected t expected).bare = (unexpected (t.inColumn column) expected).bare := by
  have hdescribe : (t.inColumn column).describe = t.describe := rfl
  have hkind : (t.inColumn column).kind = t.kind := rfl
  rw [unexpected, unexpected, hdescribe, hkind]
  split <;> rfl

end ParseError

namespace Grammar

open TokenKind (keyword symbol)

variable {α β γ : Type}

/-- A way in which two lists of tokens are alike. In front of the rests that are alike, the next token is the
same but perhaps for its column. -/
structure Likeness where
  Alike : List Token → List Token → Prop
  nil : Alike [] []
  sameColumns : Prop
  /-- Both runs exhaust their bounds, or neither does. Otherwise nothing is said where the first one does. -/
  sameBounds : Prop
  front : ∀ {tokens others}, Alike tokens others →
    (afterBreaks tokens = [] ∧ afterBreaks others = []) ∨
      ∃ t column rest rest', afterBreaks tokens = t :: rest ∧
        afterBreaks others = t.inColumn column :: rest' ∧ (sameColumns → column = t.position.column) ∧
        Alike (t :: rest) (t.inColumn column :: rest') ∧ Alike rest rest'
  weight : ∀ {tokens others}, Alike tokens others → weight tokens = weight others

namespace Likeness

variable (L : Likeness)

/-- The same token, but perhaps in another column. -/
def Counterpart (t t' : Token) : Prop :=
  ∃ column, t' = t.inColumn column ∧ (L.sameColumns → column = t.position.column)

/-- The results of both runs. What is read is related by `V`. -/
inductive Agrees (V : α → α → Prop) :
    Except Stop (α × List Token) → Except Stop (α × List Token) → Prop
  | ok {a a' : α} {rest others : List Token} (ha : V a a') (h : L.Alike rest others) :
    Agrees V (.ok (a, rest)) (.ok (a', others))
  | error {e e' : ParseError} (h : e.bare = e'.bare) (hsame : L.sameColumns → e = e') :
    Agrees V (.error (.error e)) (.error (.error e'))
  | exhausted {r' : Except Stop (α × List Token)} (h : L.sameBounds → r' = .error .exhausted) :
    Agrees V (.error .exhausted) r'

def Follows (V : α → α → Prop) (p p' : Parser α) : Prop :=
  ∀ tokens others, L.Alike tokens others → L.Agrees V (p tokens) (p' others)

/-- The second parser does with its tokens as the first one does. -/
abbrev Same (p p' : Parser α) : Prop :=
  L.Follows Eq p p'

/-- The same for tokens of which the one at the front is known. -/
def FollowsBehind (V : α → α → Prop) (t : Token) (column : Nat) (p p' : Parser α) : Prop :=
  ∀ rest others, L.Alike (t :: rest) (t.inColumn column :: others) → L.Alike rest others →
    L.Agrees V (p (t :: rest)) (p' (t.inColumn column :: others))

variable {L} {V : α → α → Prop} {W : β → β → Prop} {t : Token} {column : Nat}
  (hcolumn : L.sameColumns → column = t.position.column)

namespace Agrees

theorem bind {r r' : Except Stop (α × List Token)} {f f' : α → Parser β} (h : L.Agrees V r r')
    (hf : ∀ a a' rest others, V a a' → L.Alike rest others → L.Agrees W (f a rest) (f' a' others)) :
    L.Agrees W (r >>= fun r => f r.1 r.2) (r' >>= fun r => f' r.1 r.2) := by
  cases h with
  | ok ha h => exact hf _ _ _ _ ha h
  | error h hsame => exact error h hsame
  | exhausted h => exact exhausted fun hbounds => by rw [h hbounds]; rfl

theorem mono {V' : α → α → Prop} {r r' : Except Stop (α × List Token)} (h : L.Agrees V r r')
    (hV : ∀ a a', V a a' → V' a a') : L.Agrees V' r r' := by
  cases h with
  | ok ha h => exact ok (hV _ _ ha) h
  | error h hsame => exact error h hsame
  | exhausted h => exact exhausted h

end Agrees

/-! ### Rules -/

namespace Follows

variable {p p' q q' : Parser α} {f f' : α → Parser β}

theorem mono {V' : α → α → Prop} (h : L.Follows V p p') (hV : ∀ a a', V a a' → V' a a') :
    L.Follows V' p p' :=
  fun tokens others halike => (h tokens others halike).mono hV

theorem pure {a a' : α} (h : V a a') : L.Follows V (pure a) (pure a') :=
  fun _ _ => .ok h

theorem throw (h : L.sameBounds → p' = throw .exhausted) :
    L.Follows V (throw .exhausted : Parser α) p' :=
  fun tokens others _ => .exhausted fun hbounds => by rw [h hbounds]; rfl

theorem bind_in (hp : L.Follows V p p') (hf : ∀ a a', V a a' → L.Follows W (f a) (f' a')) :
    L.Follows W (p >>= f) (p' >>= f') :=
  fun tokens others h => (hp tokens others h).bind fun a a' rest others ha => hf a a' ha rest others

theorem bind (hp : L.Same p p') (hf : ∀ a, L.Follows W (f a) (f' a)) :
    L.Follows W (p >>= f) (p' >>= f') :=
  bind_in hp fun a _ h => h ▸ hf a

theorem ite {c : Prop} [Decidable c] (hp : L.Follows V p p') (hq : L.Follows V q q') :
    L.Follows V (if c then p else q) (if c then p' else q') := by
  split
  · exact hp
  · exact hq

section Errors

variable {e : Position → ParseError} {expected : String}

include hcolumn

/-- An error names the place of a token that is the same on both sides. -/
theorem fail (h : (e t.position).bare = (e (t.inColumn column).position).bare) :
    L.Follows V (Grammar.fail (e t.position)) (Grammar.fail (e (t.inColumn column).position)) :=
  fun _ _ _ => .error h fun hsame => hcolumn hsame ▸ rfl

theorem fail_bind (h : (e t.position).bare = (e (t.inColumn column).position).bare) :
    L.Follows W ((Grammar.fail (e t.position) : Parser α) >>= f)
      ((Grammar.fail (e (t.inColumn column).position) : Parser α) >>= f') :=
  fun _ _ _ => .error h fun hsame => hcolumn hsame ▸ rfl

theorem unexpected :
    L.Follows V (Grammar.fail (.unexpected t expected))
      (Grammar.fail (.unexpected (t.inColumn column) expected)) :=
  fun _ _ _ => .error (ParseError.unexpected_inColumn ..) fun hsame => hcolumn hsame ▸ rfl

theorem unexpected_bind :
    L.Follows W ((Grammar.fail (.unexpected t expected) : Parser α) >>= f)
      ((Grammar.fail (.unexpected (t.inColumn column) expected) : Parser α) >>= f') :=
  fun _ _ _ => .error (ParseError.unexpected_inColumn ..) fun hsame => hcolumn hsame ▸ rfl

end Errors

end Follows

namespace FollowsBehind

variable {p p' q q' : Parser α} {f f' : Unit → Parser β}

theorem of_follows (h : L.Follows V p p') : L.FollowsBehind V t column p p' :=
  fun _ _ hfront _ => h _ _ hfront

theorem skip_bind (hf : L.Follows W (f ()) (f' ())) :
    L.FollowsBehind W t column (skip >>= f) (skip >>= f') :=
  fun _ _ _ hrest => hf _ _ hrest

theorem ite {c : Prop} [Decidable c] (hp : L.FollowsBehind V t column p p')
    (hq : L.FollowsBehind V t column q q') :
    L.FollowsBehind V t column (if c then p else q) (if c then p' else q') := by
  split
  · exact hp
  · exact hq

end FollowsBehind

/-! ### Single tokens -/

namespace Follows

variable {f f' : Token → Parser β} {kind : TokenKind} {expected : String}

/-- After a look at the next token, it is known to be at the front. -/
theorem peek_bind (hf : ∀ t column, (L.sameColumns → column = t.position.column) →
      L.FollowsBehind W t column (f t) (f' (t.inColumn column))) :
    L.Follows W (peek >>= f) (peek >>= f') := by
  intro tokens others h
  show L.Agrees W (peek tokens >>= fun r => f r.1 r.2) (peek others >>= fun r => f' r.1 r.2)
  rw [peek, peek]
  obtain ⟨hleft, hright⟩ | ⟨t, column, rest, rest', hleft, hright, hcolumn, hfront, hrest⟩ := L.front h
  · rw [hleft, hright]
    exact .error rfl fun _ => rfl
  · rw [hleft, hright]
    exact hf t column hcolumn rest rest' hfront hrest

theorem nextIs_bind {f f' : Bool → Parser β} (hfalse : L.Follows W (f false) (f' false))
    (htrue : ∀ t column, L.FollowsBehind W t column (f true) (f' true)) :
    L.Follows W (nextIs kind >>= f) (nextIs kind >>= f') := by
  intro tokens others h
  show L.Agrees W (f ((afterBreaks tokens).head?.any (·.kind = kind)) (afterBreaks tokens))
    (f' ((afterBreaks others).head?.any (·.kind = kind)) (afterBreaks others))
  obtain ⟨hleft, hright⟩ | ⟨t, column, rest, rest', hleft, hright, -, hfront, hrest⟩ := L.front h
  · rw [hleft, hright]
    exact hfalse _ _ L.nil
  · rw [hleft, hright]
    show L.Agrees W (f (decide (t.kind = kind)) _) (f' (decide (t.kind = kind)) _)
    cases decide (t.kind = kind) with
    | false => exact hfalse _ _ hfront
    | true => exact htrue t column rest rest' hfront hrest

theorem nextIs : L.Same (nextIs kind) (nextIs kind) := by
  have hlook : L.Same (Grammar.nextIs kind >>= Pure.pure) (Grammar.nextIs kind >>= Pure.pure) :=
    nextIs_bind (pure rfl) fun _ _ => .of_follows (pure rfl)
  exact hlook

theorem eat : L.Same (eat kind) (eat kind) :=
  nextIs_bind (pure rfl) fun _ _ => .skip_bind (pure rfl)

theorem advance : L.Follows L.Counterpart advance advance :=
  peek_bind fun _ column h => .skip_bind (pure ⟨column, rfl, h⟩)

theorem expect : L.Follows L.Counterpart (expect kind expected) (expect kind expected) :=
  peek_bind fun _ column h => .ite (.skip_bind (pure ⟨column, rfl, h⟩)) (.of_follows (unexpected h))

theorem bind_token {p p' : Parser Token} (hp : L.Follows L.Counterpart p p')
    (hf : ∀ t column, (L.sameColumns → column = t.position.column) →
      L.Follows W (f t) (f' (t.inColumn column))) :
    L.Follows W (p >>= f) (p' >>= f') := by
  refine bind_in hp ?_
  rintro t _ ⟨column, rfl, hcolumn⟩
  exact hf t column hcolumn

theorem expectName : L.Same (expectName expected) (expectName expected) :=
  bind_token expect fun _ _ _ => pure rfl

/-! ### Repetitions -/

section Repetitions

variable {V : β → β → Prop} {W : γ → γ → Prop} {step step' : β → Parser (β ⊕ γ)}

/-- The rounds are as many on both sides, because line breaks are not counted. -/
theorem repeatFrom_in (hstep : ∀ b b', V b b' → L.Follows (Sum.LiftRel V W) (step b) (step' b'))
    {b b' : β} (hb : V b b') : L.Follows W (repeatFrom step b) (repeatFrom step' b') := by
  have hrounds : ∀ n b b', V b b' → L.Follows W (rounds step n b) (rounds step' n b') := by
    intro n
    induction n with
    | zero =>
      intro b b' hb
      refine bind_in (hstep b b' hb) fun r r' hr => ?_
      cases hr with
      | inl => exact throw fun _ => rfl
      | inr h => exact pure h
    | succ n ih =>
      intro b b' hb
      refine bind_in (hstep b b' hb) fun r r' hr => ?_
      cases hr with
      | inl h => exact ih _ _ h
      | inr h => exact pure h
  intro tokens others h
  rw [repeatFrom_eq_rounds, repeatFrom_eq_rounds, ← L.weight h]
  exact hrounds _ b b' hb tokens others h

theorem repeatFrom (hstep : ∀ b, L.Same (step b) (step' b)) (b : β) :
    L.Same (repeatFrom step b) (repeatFrom step' b) := by
  refine repeatFrom_in (V := Eq) ?_ rfl
  rintro b _ rfl
  refine (hstep b).mono ?_
  rintro (c | c) _ rfl
  · exact .inl rfl
  · exact .inr rfl

theorem commaSeparated {item item' : Parser α} {closing : Symbol} (h : L.Same item item') :
    L.Same (commaSeparated item closing) (commaSeparated item' closing) := by
  refine repeatFrom (fun items => bind eat fun _ => ite (pure rfl) (bind h fun next => ?_)) []
  exact bind_token advance fun token _ hcolumn => ite (pure rfl) (ite (pure rfl) (unexpected hcolumn))

end Repetitions

end Follows

end Likeness

section Tokens

variable {L : Likeness}

theorem parameter_same : L.Same parameter parameter :=
  .bind_token .advance fun _ _ hcolumn => .ite (.pure rfl) (.fail hcolumn rfl)

theorem memberNameStep_same (names : List String) : L.Same (memberNameStep names) (memberNameStep names) := by
  refine .bind .eat fun _ => .ite (.pure rfl) (.bind_token .advance fun member _ hcolumn => .ite ?_ ?_)
  · exact .unexpected_bind hcolumn
  · exact .bind .nextIs fun _ => .ite (.bind_token .expect fun _ _ _ => .pure rfl) (.pure rfl)

theorem enumDecl_same : L.Same enumDecl enumDecl :=
  .bind_token .advance fun _ _ _ => .bind .expectName fun _ => .bind_token .expect fun _ _ _ =>
    .bind (.repeatFrom memberNameStep_same []) fun _ => .pure rfl

variable {operator? : TokenKind → Option Operator} {operand operand' : Parser (Expr Unit)}
  (h : L.Same operand operand')

include h

theorem chainStep_same (left : Expr Unit) :
    L.Same (chainStep operator? operand left) (chainStep operator? operand' left) := by
  refine .peek_bind fun token column _ => ?_
  simp only [Token.kind_inColumn]
  cases operator? token.kind with
  | none => exact .of_follows (.pure rfl)
  | some => exact .skip_bind (.bind h fun _ => .pure rfl)

theorem chain_same : L.Same (chain operator? operand) (chain operator? operand') :=
  .bind h fun left => .repeatFrom (chainStep_same h) left

end Tokens

/-! ### Phrases -/

/-- The same patterns of an arm and the same last default among them, which is a token. -/
def Likeness.SameArm (L : Likeness) (read read' : List (Expr Unit) × Option Token) : Prop :=
  read.1 = read'.1 ∧ Option.Rel L.Counterpart read.2 read'.2

theorem patternEnd_same {L : Likeness} {read read' : List (Expr Unit) × Option Token}
    (h : L.SameArm read read') :
    L.Follows (Sum.LiftRel L.SameArm L.SameArm)
      (do
        if ← nextIs (symbol .fatArrow) then return .inr (read.1.reverse, read.2)
        let _ ← expect (symbol .comma) "',' or '=>' after match pattern"
        return .inl read)
      (do
        if ← nextIs (symbol .fatArrow) then return .inr (read'.1.reverse, read'.2)
        let _ ← expect (symbol .comma) "',' or '=>' after match pattern"
        return .inl read') := by
  refine .bind .nextIs fun _ => .ite (.pure (.inr ?_)) ?_
  · exact ⟨congrArg List.reverse h.1, h.2⟩
  · exact .bind_token .expect fun _ _ _ => .pure (.inl h)

/-- The phrases inside of the phrase at hand are the same. -/
structure Nested.Same (L : Likeness) (g g' : Nested) : Prop where
  expression : L.Same g.expression g'.expression
  block : L.Same g.block g'.block
  branch : L.Same g.branch g'.branch
  primary : L.Same g.primary g'.primary

namespace Nested.Same

variable {L : Likeness} {g g' : Nested} (h : g.Same L g')

include h

theorem functionRest {name : String} {line : Nat} :
    L.Same (g.functionRest name line) (g'.functionRest name line) :=
  .bind_token .expect fun _ _ _ => .bind (.commaSeparated parameter_same) fun _ =>
    .bind h.block fun _ => .pure rfl

theorem arguments : L.Same g.arguments g'.arguments :=
  .commaSeparated h.expression

theorem access {container : Expr Unit} : L.Same (g.access container) (g'.access container) := by
  refine .bind_token .advance fun operator _ _ => .ite ?_ (.bind h.expression fun _ => ?_)
  · exact .bind_token .advance fun _ _ hcolumn => .ite (.pure rfl) (.fail hcolumn rfl)
  · exact .bind_token .expect fun _ _ _ => .pure rfl

theorem objectStep (properties : List (String × Expr Unit)) :
    L.Same (g.objectStep properties) (g'.objectStep properties) := by
  refine .bind .eat fun _ => .ite (.pure rfl) (.bind_token .advance fun key _ hcolumn => ?_)
  refine .ite (.unexpected_bind hcolumn) (.bind .eat fun _ => ?_)
  refine .ite (.bind h.expression fun _ => ?_) (.bind (.pure rfl) fun _ => ?_)
  all_goals exact .bind .nextIs fun _ => .ite (.bind_token .expect fun _ _ _ => .pure rfl) (.pure rfl)

theorem object {line : Nat} : L.Same (g.object line) (g'.object line) :=
  .bind (.repeatFrom h.objectStep []) fun _ => .pure rfl

theorem patternStep (read read' : List (Expr Unit) × Option Token) (hread : L.SameArm read read') :
    L.Follows (Sum.LiftRel L.SameArm L.SameArm) (g.patternStep read) (g'.patternStep read') := by
  refine .peek_bind fun token column hcolumn => .ite (.skip_bind ?_) (.of_follows ?_)
  · exact patternEnd_same ⟨hread.1, .some ⟨column, rfl, hcolumn⟩⟩
  · exact .bind h.expression fun pattern => patternEnd_same ⟨congrArg (pattern :: ·) hread.1, hread.2⟩

theorem armStep (arms : List (Arm Unit)) : L.Same (g.armStep arms) (g'.armStep arms) := by
  refine .bind .eat fun _ => .ite (.pure rfl) (.bind_in (.repeatFrom_in h.patternStep ⟨rfl, .none⟩) ?_)
  rintro ⟨patterns, default⟩ ⟨_, default'⟩ ⟨rfl, hdefault⟩
  refine .bind_token .expect fun _ _ _ => .bind h.block fun body => .bind .eat fun _ => ?_
  cases hdefault with
  | none => exact .pure rfl
  | some htoken =>
    obtain ⟨column, rfl, hcolumn⟩ := htoken
    exact .ite (.fail_bind hcolumn rfl) (.pure rfl)

theorem select {line : Nat} : L.Same (g.select line) (g'.select line) :=
  .bind h.expression fun _ => .bind_token .expect fun _ _ _ => .bind (.repeatFrom h.armStep []) fun _ =>
    .pure rfl

theorem function {line : Nat} : L.Same (g.function line) (g'.function line) := by
  refine .bind .nextIs fun _ => .ite (.bind_token .advance fun _ _ _ => .bind (.pure rfl) fun _ => ?_)
    (.bind (.pure rfl) fun _ => ?_)
  all_goals exact .bind h.functionRest fun _ => .pure rfl

theorem parenthesised : L.Same g.parenthesised g'.parenthesised :=
  .bind h.expression fun _ => .bind_token .expect fun _ _ _ => .pure rfl

theorem memberStep (e : Expr Unit) : L.Same (g.memberStep e) (g'.memberStep e) :=
  .peek_bind fun _ _ _ => .of_follows (.ite (.bind h.access fun _ => .pure rfl) (.pure rfl))

theorem member : L.Same g.member g'.member :=
  .bind h.primary fun e => .repeatFrom h.memberStep e

theorem construct {line : Nat} : L.Same (g.construct line) (g'.construct line) := by
  refine .peek_bind fun start _ hcolumn => .of_follows (.bind h.member fun e => ?_)
  cases e with
  | place => exact .bind_token .expect fun _ _ _ => .bind h.arguments fun _ => .pure rfl
  | _ => exact .unexpected hcolumn

theorem primaryBody : L.Same g.primaryBody g'.primaryBody := by
  refine .bind_token .advance fun token column hcolumn => ?_
  simp only [Token.kind_inColumn, Token.literal_inColumn]
  split
  · exact .pure rfl
  · split
    · exact .pure rfl
    · exact .unexpected hcolumn
  · exact .pure rfl
  · exact h.function
  · exact h.parenthesised
  · exact h.select
  · exact h.construct
  · exact h.object
  · exact .bind (.commaSeparated h.expression) fun _ => .pure rfl
  · exact .unexpected hcolumn

theorem postfixStep (e : Expr Unit) : L.Same (g.postfixStep e) (g'.postfixStep e) := by
  refine .peek_bind fun token _ _ => .ite (.skip_bind (.bind h.arguments fun _ => .pure rfl)) ?_
  exact .of_follows (.ite (.bind h.access fun _ => .pure rfl) (.pure rfl))

theorem postfixed : L.Same g.postfixed g'.postfixed :=
  .bind h.primaryBody fun e => .repeatFrom h.postfixStep e

theorem sum : L.Same g.sum g'.sum :=
  chain_same (chain_same h.postfixed)

theorem logic : L.Same g.logic g'.logic := by
  refine .bind h.sum fun left => .bind (chainStep_same h.sum left) fun r => ?_
  cases r with
  | inl pair => exact .repeatFrom (chainStep_same h.expression) pair
  | inr => exact .pure rfl

theorem attempt : L.Same g.attempt g'.attempt := by
  refine .peek_bind fun token _ _ => .ite (.skip_bind (.bind h.block fun _ => ?_)) (.of_follows h.logic)
  exact .bind_token .expect fun _ _ _ => .bind h.block fun _ => .pure rfl

theorem conditional : L.Same g.conditional g'.conditional := by
  refine .bind h.attempt fun test => .peek_bind fun arrow _ hcolumn => ?_
  refine .ite (.of_follows (.pure rfl)) (.skip_bind (.ite (.fail_bind hcolumn rfl) ?_))
  refine .bind h.expression fun branches => ?_
  split
  · exact .pure rfl
  · exact .fail hcolumn rfl

theorem assignment : L.Same g.assignment g'.assignment := by
  refine .bind h.conditional fun target => .peek_bind fun token _ hcolumn => ?_
  refine .ite (.of_follows (.pure rfl)) (.skip_bind ?_)
  cases target with
  | place => exact .bind h.expression fun _ => .pure rfl
  | _ => exact .fail hcolumn rfl

/-! ### Statements -/

theorem variableDecl : L.Same g.variableDecl g'.variableDecl := by
  refine .bind_token .advance fun word _ _ => .bind_token .expect fun name _ hcolumn => ?_
  refine .bind .eat fun given => .ite (.ite ?_ (.fail hcolumn rfl)) (.ite ?_ (.pure rfl))
  all_goals exact .bind h.expression fun _ => .pure rfl

theorem test {opening closing : String} : L.Same (g.test opening closing) (g'.test opening closing) :=
  .bind_token .expect fun _ _ _ => .bind h.expression fun _ => .bind_token .expect fun _ _ _ => .pure rfl

theorem alternate : L.Same g.alternate g'.alternate := by
  refine .bind .eat fun _ => .ite (.pure rfl) (.bind .nextIs fun _ => .ite ?_ ?_)
  · exact .bind h.branch fun _ => .pure rfl
  · exact .bind h.block fun _ => .pure rfl

theorem branchBody : L.Same g.branchBody g'.branchBody :=
  .bind_token .advance fun _ _ _ => .bind h.test fun _ => .bind h.block fun _ =>
    .bind h.alternate fun _ => .pure rfl

theorem forLoop : L.Same g.forLoop g'.forLoop := by
  refine .bind_token .advance fun word _ _ => .bind_token .expect fun _ _ _ => ?_
  refine .peek_bind fun token _ hcolumn => .of_follows (.ite (.unexpected_bind hcolumn) ?_)
  refine .bind h.variableDecl fun _ => .bind .eat fun _ => .bind h.expression fun _ => ?_
  refine .bind .eat fun _ => .bind h.expression fun _ => .bind_token .expect fun _ _ _ => ?_
  exact .bind h.block fun _ => .pure rfl

theorem classMember (parts : ClassParts) : L.Same (g.classMember parts) (g'.classMember parts) := by
  refine .bind .eat fun _ => .bind_token .expect fun name _ _ => .bind .nextIs fun _ => .ite ?_ (.ite ?_ ?_)
  · exact .bind h.functionRest fun _ => .ite (.pure rfl) (.pure rfl)
  · exact .bind_token .expect fun _ _ _ => .bind h.expression fun _ => .pure rfl
  · refine .peek_bind fun _ _ hcolumn => .of_follows ?_
    exact .ite (.unexpected_bind hcolumn) (.pure rfl)

theorem classStep (parts : ClassParts) : L.Same (g.classStep parts) (g'.classStep parts) :=
  .bind .eat fun _ => .ite (.pure rfl) (.bind (h.classMember parts) fun _ => .bind .eat fun _ => .pure rfl)

theorem classDecl : L.Same g.classDecl g'.classDecl :=
  .bind_token .advance fun _ _ _ => .bind .expectName fun _ => .bind_token .expect fun _ _ _ =>
    .bind (.repeatFrom h.classStep _) fun _ => .pure rfl

section Behind

variable {t : Token} {column line : Nat}

theorem functionDecl : L.FollowsBehind Eq t column (g.functionDecl line) (g'.functionDecl line) :=
  .skip_bind (.bind .expectName fun _ => .bind h.functionRest fun _ => .pure rfl)

theorem whileLoop : L.FollowsBehind Eq t column (g.whileLoop line) (g'.whileLoop line) :=
  .skip_bind (.bind h.test fun _ => .bind h.block fun _ => .pure rfl)

theorem returns : L.FollowsBehind Eq t column (g.returns line) (g'.returns line) := by
  refine .skip_bind (.bind .nextIs fun _ => .bind .nextIs fun _ => .ite (.pure rfl) ?_)
  exact .bind h.expression fun _ => .pure rfl

end Behind

theorem bareStatement : L.Same g.bareStatement g'.bareStatement := by
  refine .peek_bind fun token column _ => ?_
  simp only [Token.kind_inColumn]
  split
  · exact .of_follows (.bind h.variableDecl fun _ => .pure rfl)
  · exact .of_follows (.bind h.variableDecl fun _ => .pure rfl)
  · exact h.functionDecl
  · exact .of_follows h.branchBody
  · exact .of_follows h.forLoop
  · exact h.whileLoop
  · exact h.returns
  · exact .skip_bind (.pure rfl)
  · exact .skip_bind (.pure rfl)
  · exact .skip_bind (.bind h.expression fun _ => .pure rfl)
  · exact .of_follows h.classDecl
  · exact .of_follows enumDecl_same
  · exact .of_follows (.bind h.assignment fun _ => .pure rfl)

theorem statement : L.Same g.statement g'.statement :=
  .bind h.bareStatement fun _ => .bind .eat fun _ => .pure rfl

theorem blockStep (body : List (Stmt Unit)) : L.Same (g.blockStep body) (g'.blockStep body) := by
  refine .bind .eat fun _ => .ite (.pure rfl) (.peek_bind fun token _ hcolumn => .of_follows ?_)
  exact .ite (.unexpected_bind hcolumn) (.bind h.statement fun _ => .pure rfl)

theorem blockBody : L.Same g.blockBody g'.blockBody :=
  .bind_token .expect fun _ _ _ => .repeatFrom h.blockStep []

theorem programStep (body : List (Stmt Unit)) : L.Same (g.programStep body) (g'.programStep body) :=
  .peek_bind fun _ _ _ => .of_follows (.ite (.pure rfl) (.bind h.statement fun _ => .pure rfl))

theorem program : L.Same g.program g'.program :=
  .repeatFrom h.programStep []

end Nested.Same

/-- Unless the bounds are the same, there may be more levels on the right. -/
theorem nested_same {L : Likeness} {depth depth' : Nat} (h : depth ≤ depth')
    (hbounds : L.sameBounds → depth = depth') : (nested depth).Same L (nested depth') := by
  -- Each phrase reads only phrases of the level below.
  induction depth generalizing depth' with
  | zero =>
    have hright : L.sameBounds → nested depth' = nested 0 := fun hsame => hbounds hsame ▸ rfl
    refine ⟨.throw fun hsame => ?_, .throw fun hsame => ?_, .throw fun hsame => ?_, .throw fun hsame => ?_⟩
    all_goals rw [hright hsame]; rfl
  | succ depth ih =>
    obtain ⟨more, rfl⟩ := Nat.exists_eq_add_of_lt h
    have hinner : (nested depth).Same L (nested (depth + more)) :=
      ih (Nat.le_add_right depth more) fun hsame => by have := hbounds hsame; omega
    exact ⟨hinner.assignment, hinner.blockBody, hinner.branchBody, hinner.primaryBody⟩

end Grammar

open Grammar (Likeness)

/-- From tokens that are alike the same program is read, or the same error but perhaps for its column. -/
theorem parseTokens_of_alike (L : Likeness) (hbounds : L.sameBounds) {tokens others : List Token}
    (h : L.Alike tokens others) :
    (parseTokens tokens).mapError ParseError.bare = (parseTokens others).mapError ParseError.bare ∧
      (L.sameColumns → parseTokens tokens = parseTokens others) := by
  have hlevels : (Grammar.significant tokens).length = (Grammar.significant others).length := L.weight h
  let depth := (Grammar.significant tokens).length + 1
  have hsame : (Grammar.nested depth).Same L (Grammar.nested depth) :=
    Grammar.nested_same (Nat.le_refl depth) fun _ => rfl
  have hprogram := hsame.program tokens others h
  rw [parseTokens, parseTokens, Grammar.readProgram, Grammar.readProgram, StateT.run', StateT.run', ← hlevels]
  generalize (Grammar.nested depth).program tokens = r, (Grammar.nested depth).program others = r' at hprogram ⊢
  cases hprogram with
  | ok ha =>
    obtain rfl := ha
    exact ⟨rfl, fun _ => rfl⟩
  | error he hcolumns =>
    exact ⟨congrArg Except.error he, fun hsame => congrArg Except.error (hcolumns hsame)⟩
  | exhausted hright =>
    rw [hright hbounds]
    exact ⟨rfl, fun _ => rfl⟩

end ScriptLang
