import ScriptLang.Proofs.Boundary
import ScriptLang.Proofs.Contract

/-! Programs one behind the other. A semicolon ends every statement, so what is read behind it is read as if
nothing stood before it; and what is run behind a program that has ended normally is run as if on its own. -/

namespace ScriptLang.Grammar

open TokenKind (symbol)
open Lined (mapLine mapLine_reverse)

/-! ### Statements read before -/

theorem rounds_programStep_append {g : Nested} (n : Nat) (body before : List (Stmt Unit))
    (tokens : List Token) :
    rounds g.programStep n (body ++ before) tokens =
      (rounds g.programStep n body tokens).map fun r => (before.reverse ++ r.1, r.2) := by
  have hround : ∀ (next : List (Stmt Unit) → Parser Source),
      (∀ body tokens, next (body ++ before) tokens =
        (next body tokens).map fun r => (before.reverse ++ r.1, r.2)) →
      ∀ body tokens, (g.programStep (body ++ before) >>= goOn next) tokens =
        ((g.programStep body >>= goOn next) tokens).map fun r => (before.reverse ++ r.1, r.2) := by
    intro next hnext body tokens
    show (g.programStep (body ++ before) tokens >>= fun r => _) =
      (g.programStep body tokens >>= fun r => _).map _
    obtain ⟨_, hstep⟩ | ⟨e, rest, -, hstep⟩ | ⟨s, rest, hstep⟩ := g.programStep_cases tokens
    · rw [hstep, hstep]
      rfl
    · rw [hstep, hstep, List.reverse_append]
      rfl
    · rw [hstep, hstep]
      exact hnext (s :: body) rest
  induction n generalizing body tokens with
  | zero =>
    exact hround (fun _ => throw .exhausted) (fun _ _ => rfl) body tokens
  | succ n ih =>
    exact hround (rounds g.programStep n) ih body tokens

theorem rounds_eq_parseTokens {front : List Token} {e : Token} (he : e.kind = .endOfInput)
    (hfront : ∀ t ∈ front, t.kind ≠ .endOfInput) {depth n : Nat}
    (henough : rounds (nested depth).programStep n [] (significant front ++ [e]) ≠ .error .exhausted) :
    (rounds (nested depth).programStep n [] (significant front ++ [e])).map Prod.fst =
      (parseTokens (front ++ [e])).mapError Stop.error := by
  -- Both runs have the same tokens, so the seam is at their end mark.
  let S : Seam := .ofMark id e [] [] he
  have hclosed : S.Closed := by
    rintro _ ⟨⟩
    exact he
  have htokens : significant (front ++ [e]) = significant front ++ [e] := by
    rw [significant_append, significant_cons (he ▸ nofun), significant_nil]
  have hbefore : S.Before (significant front ++ [e]) (significant front ++ [e]) :=
    ⟨significant front, isWord_of_mem_significant hfront, rfl, by simp [S, Seam.ofMark]⟩
  obtain ⟨r, hrun, hr⟩ := exists_program (significant (front ++ [e]))
  rw [(parseTokens_significant _).1] at hr
  rw [Nested.program_eq_rounds, htokens] at hrun
  have htracks := nested_tracks S (weight (significant front ++ [e]) + 1) depth
  have hagrees : Agrees S (fun _ => False) _ (rounds (nested depth).programStep n [] _) :=
    htracks.rounds_closed hclosed (weight (significant front ++ [e])) n [] _ _ hbefore
  rw [hrun] at hagrees
  generalize rounds (nested depth).programStep n [] (significant front ++ [e]) = r' at hagrees henough ⊢
  rcases r with err | ⟨source, rest⟩ <;> simp only [Except.mapError] at hagrees
  · cases hagrees with
    | exhausted_right => exact absurd rfl henough
    | error h =>
      have herr : err.mapLine S.line = err := ParseError.mapLine_id err
      rw [h trivial, hr, herr]
      rfl
  · have hsource := mapLine_id_of_parseTokens he hfront hr
    cases hagrees with
    | exhausted_right => exact absurd rfl henough
    | ok =>
      rw [hr]
      exact congrArg Except.ok hsource
    | past ha => exact ha.elim

theorem rounds_mark {g : Nested} {e : Token} (he : e.kind = .endOfInput) (n : Nat) (body : List (Stmt Unit))
    (rest : List Token) :
    rounds g.programStep n body (e :: rest) = .ok (body.reverse, e :: rest) := by
  have hstep : g.programStep body (e :: rest) = .ok (.inr body.reverse, e :: rest) := by
    have hbreak : e.kind ≠ .newline := by simp [he]
    rw [Nested.programStep, peek_bind hbreak, if_pos he]
    rfl
  cases n with
  | zero => exact bind_of_ok hstep
  | succ => exact bind_of_ok hstep

theorem parseTokens_mark {e : Token} (he : e.kind = .endOfInput) : parseTokens [e] = .ok [] := by
  obtain ⟨_ | _, hrun, hr⟩ := exists_program [e]
  · cases ((Nested.program_eq_rounds _ _).trans (rounds_mark he _ [] [])).symm.trans hrun
  · cases ((Nested.program_eq_rounds _ _).trans (rounds_mark he _ [] [])).symm.trans hrun
    exact hr

/-! ### Statements up to a semicolon at the seam -/

/-- From such tokens, the first run reads a statement only. If the second has as many levels, it reads the same,
and either the tokens that are left are again of that sort or it has taken the semicolon at the seam. -/
def ReadsOn (S : Seam) (g g' : Nested) (fits : List Token → Prop) : Prop :=
  ∀ body tokens others r rest, fits others → S.Before tokens others →
    g.programStep body tokens = .ok (r, rest) →
      g'.programStep (mapLine S.line body) others = .error .exhausted ∨
        ∃ c others', r = .inl c ∧
          g'.programStep (mapLine S.line body) others = .ok (.inl (mapLine S.line c), others') ∧
          (S.Before rest others' ∧ fits others' ∨ S.Past rest others')

/-- Where the first run ends, the second goes on behind the semicolon with the same statements. -/
theorem ReadsOn.rounds {S : Seam} {g g' : Nested} {fits : List Token → Prop} (hreads : ReadsOn S g g' fits)
    {n : Nat} (n' : Nat) (body : List (Stmt Unit)) {tokens others last : List Token} {source : Source}
    (hfits : fits others) (hbefore : S.Before tokens others)
    (h : rounds g.programStep n body tokens = .ok (source, last)) :
    rounds g'.programStep n' (mapLine S.line body) others = .error .exhausted ∨
      ∃ m, rounds g'.programStep n' (mapLine S.line body) others =
        rounds g'.programStep m (mapLine S.line source.reverse) S.right.tail := by
  induction n generalizing n' body tokens others with
  | zero =>
    obtain ⟨r, rest, hstep, h⟩ := bind_eq_ok h
    obtain hexhausted | ⟨c, others', rfl, -⟩ := hreads body tokens others r rest hfits hbefore hstep
    · exact .inl (rounds_of_error hexhausted n')
    · cases h
  | succ n ih =>
    obtain ⟨r, rest, hstep, h⟩ := bind_eq_ok h
    obtain hexhausted | ⟨c, others', rfl, hstep', hrest⟩ :=
      hreads body tokens others r rest hfits hbefore hstep
    · exact .inl (rounds_of_error hexhausted n')
    · cases n' with
      | zero => exact .inl (bind_of_ok hstep')
      | succ n' =>
        have hnext : Grammar.rounds g'.programStep (n' + 1) (mapLine S.line body) others =
            Grammar.rounds g'.programStep n' (mapLine S.line c) others' :=
          bind_of_ok hstep'
        rw [hnext]
        obtain ⟨hbefore, hfits⟩ | ⟨-, ⟨e, rest, rfl, he⟩, s, -, hright⟩ := hrest
        · exact ih n' c hfits hbefore h
        -- The first run is done, and the second is behind the semicolon.
        · cases (rounds_mark he n c rest).symm.trans h
          refine .inr ⟨n', ?_⟩
          rw [List.reverse_reverse, hright, List.tail_cons]

theorem ReadsOn.parseTokens {S : Seam} {fits : List Token → Prop} {tokens others : List Token}
    {source : Source} (hreads : ReadsOn S (nested (weight tokens + 1)) (nested (weight others + 1)) fits)
    (hfits : fits others) (hbefore : S.Before tokens others)
    (h : ScriptLang.parseTokens tokens = .ok source) :
    ∃ m,
      Grammar.rounds (nested (weight others + 1)).programStep m (mapLine S.line source.reverse)
        S.right.tail ≠ .error .exhausted ∧
      (Grammar.rounds (nested (weight others + 1)).programStep m (mapLine S.line source.reverse)
        S.right.tail).map Prod.fst = (ScriptLang.parseTokens others).mapError Stop.error := by
  obtain ⟨r, hrun, hr⟩ := exists_program tokens
  obtain ⟨r', hrun', hr'⟩ := exists_program others
  rw [Nested.program_eq_rounds] at hrun hrun'
  rcases r with err | ⟨_, last⟩
  · cases hr.symm.trans h
  · cases hr.symm.trans h
    obtain hexhausted | ⟨m, hm⟩ := hreads.rounds (weight others) [] hfits hbefore hrun
    · rcases r' with err | r'
      · cases hrun'.symm.trans hexhausted
      · cases hrun'.symm.trans hexhausted
    · refine ⟨m, ?_⟩
      rw [← hm, hr']
      change Grammar.rounds _ _ [] _ ≠ _ ∧ (Grammar.rounds _ _ [] _).map Prod.fst = _
      rw [hrun']
      rcases r' with err | r'
      · exact ⟨nofun, rfl⟩
      · exact ⟨nofun, rfl⟩

theorem Nested.programStep_word (g : Nested) {t : Token} (ht : IsWord t) (body : List (Stmt Unit))
    (rest : List Token) :
    g.programStep body (t :: rest) =
      (g.statement >>= fun s => pure (.inl (s :: body)) : Parser _) (t :: rest) := by
  rw [programStep, peek_bind ht.1, if_neg ht.2]

theorem Nested.Tracks.reads {S : Seam} {g g' : Nested} (h : g.Tracks S g') {body : List (Stmt Unit)}
    {tokens others rest : List Token} {r : List (Stmt Unit) ⊕ List (Stmt Unit)}
    (htokens : ∃ t ∈ tokens.head?, IsWord t) (hothers : ∃ t ∈ others.head?, IsWord t)
    (hbefore : S.Before tokens others) (hstep : g.programStep body tokens = .ok (r, rest)) :
    g'.programStep (mapLine S.line body) others = .error .exhausted ∨
      ∃ s s' others', r = .inl (s :: body) ∧ g'.statement others = .ok (s', others') ∧
        g'.programStep (mapLine S.line body) others =
          .ok (.inl (mapLine S.line (s :: body)), others') ∧
        (S.Before rest others' ∨ S.Past rest others') := by
  obtain ⟨t, htokens, ht⟩ := htokens
  obtain ⟨t', hothers, ht'⟩ := hothers
  obtain ⟨_, rfl⟩ := List.head?_eq_some_iff.mp htokens
  obtain ⟨_, rfl⟩ := List.head?_eq_some_iff.mp hothers
  rw [g.programStep_word ht] at hstep
  rw [g'.programStep_word ht']
  obtain ⟨s, _, hstatement, hr⟩ := bind_eq_ok hstep
  cases hr
  have hagrees := h.statement _ _ hbefore
  rw [hstatement] at hagrees
  generalize hstatement' : g'.statement (t' :: _) = r' at hagrees
  cases hagrees with
  | exhausted_right => exact .inl (bind_of_error hstatement')
  | ok hrest => exact .inr ⟨s, _, _, rfl, rfl, bind_of_ok hstatement', .inl hrest⟩
  | past _ hrest => exact .inr ⟨s, _, _, rfl, rfl, bind_of_ok hstatement', .inr hrest⟩

/-- A semicolon that is left behind a statement is not the first one. -/
theorem statement_end {g : Nested} {level : Nat} (h : g.Serves (fun _ => True) level)
    {tokens rest : List Token} {s : Stmt Unit} (hweight : weight tokens ≤ level)
    (hbreaks : ∀ t ∈ tokens, t.kind ≠ .newline) (hrun : g.statement tokens = .ok (s, rest)) :
    ∃ taken, tokens = taken ++ rest ∧
      ∀ t ∈ rest.head?, t.kind = symbol .semicolon → ∃ u ∈ taken.getLast?, u.kind = symbol .semicolon := by
  rw [Nested.statement] at hrun
  obtain ⟨_, between, hbare, hbehind⟩ := bind_eq_ok hrun
  have hmeets := h.bareStatement tokens nofun .any (by omega)
  rw [hbare] at hmeets
  obtain ⟨-, taken, rfl, -⟩ := hmeets
  obtain ⟨_, _, heat, hend⟩ := bind_eq_ok hbehind
  cases hend
  cases between with
  | nil =>
    cases heat
    exact ⟨taken, rfl, nofun⟩
  | cons t between =>
    have ht : t.kind ≠ .newline := hbreaks t (by simp)
    -- If a semicolon is next it is taken, and so it is the last token taken.
    by_cases hkind : t.kind = symbol .semicolon
    · cases (eat_of_eq ht hkind).symm.trans heat
      exact ⟨taken ++ [t], by simp, fun _ _ _ => ⟨t, by simp, hkind⟩⟩
    · cases (eat_of_ne ht hkind).symm.trans heat
      refine ⟨taken, rfl, ?_⟩
      rintro _ ⟨⟩ heq
      exact absurd heq hkind

/-! ### Programs behind and before a semicolon -/

/-- The last token of the one run is a semicolon, and the other goes on behind it. -/
def Seam.ofSemicolon {s e : Token} (hs : s.kind = symbol .semicolon) (he : e.kind = .endOfInput)
    (right : List Token) : Seam :=
  ⟨id, False, [s, e], s :: right, .semicolon hs he⟩

/-- The one run is at its end where the other has a semicolon. -/
def Seam.ofEnd {e s : Token} (he : e.kind = .endOfInput) (hs : s.kind = symbol .semicolon)
    (right : List Token) : Seam :=
  ⟨id, False, [e], s :: right, .stop he (.inr hs)⟩

theorem readsOn_ofSemicolon {s e : Token} (hs : s.kind = symbol .semicolon) (he : e.kind = .endOfInput)
    (right : List Token) (depth depth' : Nat) :
    ReadsOn (.ofSemicolon hs he right) (nested depth) (nested depth') fun _ => True := by
  rintro body tokens others r rest - hbefore hstep
  have hword : (∃ t ∈ tokens.head?, IsWord t) ∧ ∃ t ∈ others.head?, IsWord t := by
    obtain ⟨front, hfront, rfl, rfl⟩ := hbefore
    have hs : IsWord s := ⟨hs ▸ nofun, hs ▸ nofun⟩
    cases front with
    | nil => exact ⟨⟨s, rfl, hs⟩, s, rfl, hs⟩
    | cons t front =>
      have ht := hfront t List.mem_cons_self
      exact ⟨⟨t, rfl, ht⟩, t, rfl, ht⟩
  have htracks := nested_tracks (.ofSemicolon hs he right) depth depth'
  obtain hexhausted | ⟨_, _, others', rfl, -, hstep', hrest⟩ :=
    htracks.reads hword.1 hword.2 hbefore hstep
  · exact .inl hexhausted
  · exact .inr ⟨_, others', rfl, hstep', hrest.imp_left (⟨·, trivial⟩)⟩

theorem readsOn_ofEnd {e s : Token} (he : e.kind = .endOfInput) (hs : s.kind = symbol .semicolon)
    {front : List Token} (hfront : ∀ t ∈ front, IsWord t)
    (hlast : ∀ t ∈ front.getLast?, t.kind ≠ symbol .semicolon) (depth : Nat) {depth' : Nat}
    (hdepth : weight (front ++ [s, e]) ≤ depth') :
    ReadsOn (.ofEnd he hs [e]) (nested depth) (nested depth') fun others =>
      (∃ taken, front ++ [s, e] = taken ++ others) ∧ others ≠ [s, e] := by
  rintro body tokens others r rest ⟨⟨taken, hwhole⟩, hne⟩ hbefore hstep
  have hword : (∃ t ∈ tokens.head?, IsWord t) ∧ ∃ t ∈ others.head?, IsWord t := by
    obtain ⟨front, hfront, rfl, rfl⟩ := hbefore
    cases front with
    | nil => exact absurd rfl hne
    | cons t front =>
      have ht := hfront t List.mem_cons_self
      exact ⟨⟨t, rfl, ht⟩, t, rfl, ht⟩
  have htracks := nested_tracks (.ofEnd he hs [e]) depth depth'
  obtain hexhausted | ⟨_, _, others', rfl, hstatement, hstep', hrest⟩ :=
    htracks.reads hword.1 hword.2 hbefore hstep
  · exact .inl hexhausted
  have hbreaks : ∀ t ∈ others, t.kind ≠ .newline := by
    intro t ht
    have hmem : t ∈ front ++ [s, e] := hwhole ▸ List.mem_append_right taken ht
    rcases List.mem_append.mp hmem with ht | ht
    · exact (hfront t ht).1
    · rcases List.mem_pair.mp ht with rfl | rfl
      · exact hs ▸ nofun
      · exact he ▸ nofun
  have hweight : weight others ≤ depth' := by
    rw [hwhole, weight_append] at hdepth
    omega
  -- A statement that leaves the semicolon at the seam has taken one before it, but the last word is none.
  obtain ⟨taken', rfl, hend⟩ := statement_end (nested_serves _ depth') hweight hbreaks hstatement
  refine .inr ⟨_, others', rfl, hstep', hrest.imp_left (⟨·, ⟨taken ++ taken', ?_⟩, ?_⟩)⟩
  · rw [hwhole, List.append_assoc]
  · rintro rfl
    obtain ⟨u, hu, hkind⟩ := hend s rfl hs
    rw [← List.append_assoc] at hwhole
    obtain rfl := List.append_cancel_right hwhole
    exact hlast u (by rw [List.getLast?_append, Option.mem_def.mp hu]; rfl) hkind

section

variable {first second : List Token} {e e' s : Token} {program : Source}

/-- Behind a program that ends with a semicolon, another is read as on its own. -/
theorem parseTokens_append (hfirst : ∀ t ∈ first, t.kind ≠ .endOfInput)
    (hsecond : ∀ t ∈ second, t.kind ≠ .endOfInput) (he : e.kind = .endOfInput)
    (he' : e'.kind = .endOfInput) (h : parseTokens (first ++ [e]) = .ok program)
    (hlast : ∃ s ∈ (significant first).getLast?, s.kind = symbol .semicolon) :
    parseTokens (first ++ second ++ [e']) = (parseTokens (second ++ [e'])).map (program ++ ·) := by
  obtain ⟨s, hmem, hs⟩ := hlast
  obtain ⟨front, hfront⟩ := List.getLast?_eq_some_iff.mp hmem
  have hwords : ∀ t ∈ front, IsWord t := fun t ht =>
    isWord_of_mem_significant hfirst t (hfront ▸ List.mem_append_left _ ht)
  have htokens : significant (first ++ [e]) = front ++ [s, e] := by
    rw [significant_append, significant_cons (he ▸ nofun), hfront]
    simp
  have hothers : significant (first ++ second ++ [e']) = front ++ s :: (significant second ++ [e']) := by
    rw [significant_append, significant_append, significant_cons (he' ▸ nofun), hfront]
    simp
  have hparse : parseTokens (front ++ [s, e]) = .ok program := by
    rw [← htokens, (parseTokens_significant _).1, h]
  -- The first program is read in front of its end mark. In the joint text the second one stands there.
  have hbefore : (Seam.ofSemicolon hs he (significant second ++ [e'])).Before (front ++ [s, e])
      (front ++ s :: (significant second ++ [e'])) :=
    ⟨front, hwords, rfl, by rw [Seam.ofSemicolon, Token.mapLine_id, List.map_id]⟩
  have hsame : mapLine id program.reverse = program.reverse := by
    rw [mapLine_reverse, mapLine_id_of_parseTokens he hfirst h]
  obtain ⟨m, henough, hread⟩ := (readsOn_ofSemicolon hs he _ _ _).parseTokens trivial hbefore hparse
  have hwhole : parseTokens (front ++ s :: (significant second ++ [e'])) =
      parseTokens (first ++ second ++ [e']) := by
    rw [← hothers, (parseTokens_significant _).1]
  rw [hwhole] at hread
  change Except.map Prod.fst (rounds _ m (mapLine id program.reverse) (significant second ++ [e'])) = _ at hread
  change rounds _ m (mapLine id program.reverse) (significant second ++ [e']) ≠ _ at henough
  rw [hsame, ← List.nil_append program.reverse, rounds_programStep_append] at hread henough
  -- Behind the seam the joint run has the rounds of a run on the second program alone.
  have halone := rounds_eq_parseTokens he' hsecond fun hexhausted => henough (by rw [hexhausted]; rfl)
  generalize rounds _ m [] (significant second ++ [e']) = run at hread halone
  generalize parseTokens (second ++ [e']) = alone at halone ⊢
  generalize parseTokens (first ++ second ++ [e']) = whole at hread ⊢
  rcases run with stop | ⟨rest, last⟩
  · rcases alone with _ | _ <;> cases halone
    rcases whole with _ | _ <;> cases hread
    rfl
  · rcases alone with _ | _ <;> cases halone
    rcases whole with _ | _ <;> cases hread
    rw [List.reverse_reverse]
    rfl

theorem parseTokens_append_semicolon (hfirst : ∀ t ∈ first, t.kind ≠ .endOfInput)
    (he : e.kind = .endOfInput) (h : parseTokens (first ++ [e]) = .ok program) (hsome : program ≠ [])
    (hlast : ∀ t ∈ (significant first).getLast?, t.kind ≠ symbol .semicolon)
    (hs : s.kind = symbol .semicolon) : parseTokens (first ++ [s, e]) = .ok program := by
  have hwords := isWord_of_mem_significant hfirst
  have htokens : significant (first ++ [e]) = significant first ++ [e] := by
    rw [significant_append, significant_cons (he ▸ nofun), significant_nil]
  have hothers : significant (first ++ [s, e]) = significant first ++ [s, e] := by
    rw [significant_append, significant_cons (hs ▸ nofun), significant_cons (he ▸ nofun), significant_nil]
  have hparse : parseTokens (significant first ++ [e]) = .ok program := by
    rw [← htokens, (parseTokens_significant _).1, h]
  have hbefore : (Seam.ofEnd he hs [e]).Before (significant first ++ [e]) (significant first ++ [s, e]) :=
    ⟨significant first, hwords, rfl, by rw [Seam.ofEnd, Token.mapLine_id, List.map_id]⟩
  have hne : significant first ++ [s, e] ≠ [s, e] := by
    intro heq
    have hnil : significant first = [] := List.append_cancel_right (heq.trans (List.nil_append _).symm)
    rw [hnil] at hparse
    exact hsome (Except.ok.inj (hparse.symm.trans (parseTokens_mark he)))
  have hsame : mapLine id program.reverse = program.reverse := by
    rw [mapLine_reverse, mapLine_id_of_parseTokens he hfirst h]
  have hreads := readsOn_ofEnd he hs hwords hlast (weight (significant first ++ [e]) + 1)
    (Nat.le_succ (weight (significant first ++ [s, e])))
  obtain ⟨m, -, hread⟩ := hreads.parseTokens ⟨⟨[], rfl⟩, hne⟩ hbefore hparse
  change Except.map Prod.fst (rounds _ m (mapLine id program.reverse) [e]) = _ at hread
  rw [hsame, rounds_mark he, List.reverse_reverse, ← hothers, (parseTokens_significant _).1] at hread
  cases hwhole : parseTokens (first ++ [s, e]) with
  | error => cases hread.trans (congrArg _ hwhole)
  | ok => cases hread.trans (congrArg _ hwhole); rfl

end

end ScriptLang.Grammar

namespace ScriptLang

open Grammar (significant)

/-! ### Programs run one after the other -/

namespace Numbering

variable {ι : Type}

theorem stmts_append (p q : List (Stmt ι)) :
    stmts (p ++ q) = do return (← stmts p) ++ (← stmts q) := by
  induction p with
  | nil => simp [stmts]
  | cons s rest ih => simp [stmts, ih]

end Numbering

theorem State.load_append (s : State) (p q : Source) :
    s.load (p ++ q) = ((s.load p).1 ++ ((s.load p).2.load q).1, ((s.load p).2.load q).2) := by
  simp only [load, Program.identify, Numbering.stmts_append]
  rfl

theorem State.load_ne_nil (s : State) {q : Source} (h : q ≠ []) : (s.load q).1 ≠ [] := by
  cases q with
  | nil => exact absurd rfl h
  | cons => nofun

namespace Eval

variable {s s' s'' : State} {scope : ScopeId} {o : Outcome} {v : Value}

theorem executeAll_append (last : Value) (front rest : List (Stmt Nat)) :
    executeAll scope last (front ++ rest) =
      executeAll scope last front >>= fun v => executeAll scope v rest := by
  induction front generalizing last with
  | nil => simp [executeAll]
  | cons s front ih => simp [executeAll, ih]

theorem executeAll_of_ne_nil {rest : List (Stmt Nat)} (h : rest ≠ []) (last last' : Value) :
    executeAll scope last rest = executeAll scope last' rest := by
  cases rest with
  | nil => exact absurd rfl h
  | cons => rfl

theorem ends_block_append {front rest : List (Stmt Nat)} (hrest : rest ≠ [])
    (hfront : (perform (.block scope front)).Ends s (.ok v) s') :
    (perform (.block scope (front ++ rest))).Ends s o s'' ↔
      (perform (.block scope rest)).Ends s' o s'' := by
  rw [perform_ends_iff, body] at hfront
  rw [perform_ends_iff, perform_ends_iff, body, body, executeAll_append, hfront.bind_iff,
    executeAll_of_ne_nil hrest v .null]

end Eval

/-- A program behind another that ends with a semicolon is read as on its own, and a semicolon may follow a
program that does not end with one; line breaks at the end do not count. And if a program ends normally, it can
be run together with another just as well as before it. -/
theorem program_append :
    (∀ (first second : List Token) (e e' : Token) (program : Source),
      (∀ t ∈ first, t.kind ≠ .endOfInput) → (∀ t ∈ second, t.kind ≠ .endOfInput) →
      e.kind = .endOfInput → e'.kind = .endOfInput → parseTokens (first ++ [e]) = .ok program →
      (∃ t ∈ (significant first).getLast?, t.kind = .symbol .semicolon) →
      parseTokens (first ++ second ++ [e']) = (parseTokens (second ++ [e'])).map (program ++ ·)) ∧
    (∀ (first : List Token) (s e : Token) (program : Source),
      (∀ t ∈ first, t.kind ≠ .endOfInput) → e.kind = .endOfInput →
      parseTokens (first ++ [e]) = .ok program → program ≠ [] →
      (∀ t ∈ (significant first).getLast?, t.kind ≠ .symbol .semicolon) →
      s.kind = .symbol .semicolon → parseTokens (first ++ [s, e]) = .ok program) ∧
    ∀ (s : State) (scope : ScopeId) (first second : Source) (v : Value) (s' : State),
      let front := s.load first
      let rest := front.2.load second
      s.load (first ++ second) = (front.1 ++ rest.1, rest.2) ∧
        (second ≠ [] → (Eval.perform (.block scope front.1)).Ends rest.2 (.ok v) s' →
          ∀ o s'', (Eval.perform (.block scope (front.1 ++ rest.1))).Ends rest.2 o s'' ↔
            (Eval.perform (.block scope rest.1)).Ends s' o s'') := by
  refine ⟨fun first second e e' program hfirst hsecond he he' h hlast =>
    Grammar.parseTokens_append hfirst hsecond he he' h hlast, fun first s e program hfirst he h hsome hlast hs =>
    Grammar.parseTokens_append_semicolon hfirst he h hsome hlast hs, fun s scope first second v s' => ?_⟩
  refine ⟨s.load_append first second, fun hsecond hfirst o s'' => ?_⟩
  exact Eval.ends_block_append (State.load_ne_nil _ hsecond) hfirst

/-- Two names with a semicolon between them, and two texts that are run. -/
theorem program_append_names :
    let a : Token := ⟨.identifier, "a", "a", ⟨1, 1⟩⟩
    let b : Token := ⟨.identifier, "b", "b", ⟨1, 4⟩⟩
    let semicolon : Token := ⟨.symbol .semicolon, ";", ";", ⟨1, 2⟩⟩
    let e : Token := .endAt ⟨1, 5⟩
    let name : Source := [.expression (.place (.variable "a" 1)) 1]
    let s := (State.initial 0).newGlobal.2
    let front := s.load [.expression (.string "one" 1) 1]
    let rest := front.2.load [.expression (.string "two" 1) 1]
    parseTokens ([a, semicolon] ++ [b] ++ [e]) = (parseTokens ([b] ++ [e])).map (name ++ ·) ∧
      parseTokens ([a] ++ [semicolon, e]) = .ok name ∧
      ∃ s', (Eval.perform (.block ⟨0⟩ front.1)).Ends rest.2 (.ok (.string "one")) s' ∧
        ∀ o s'', (Eval.perform (.block ⟨0⟩ (front.1 ++ rest.1))).Ends rest.2 o s'' ↔
          (Eval.perform (.block ⟨0⟩ rest.1)).Ends s' o s'' := by
  intro a b semicolon e name s front rest
  have hwords : ∀ t ∈ [a, semicolon], t.kind ≠ .endOfInput := by decide
  have hword : ∀ t ∈ [b], t.kind ≠ .endOfInput := by decide
  have hends : (Eval.perform (.block ⟨0⟩ front.1)).Ends rest.2 (.ok (.string "one")) _ := ⟨9, rfl⟩
  refine ⟨program_append.1 [a, semicolon] [b] e e name hwords hword rfl rfl (by cbv) ⟨semicolon, rfl, rfl⟩,
    program_append.2.1 [a] semicolon e name (by decide) rfl (by cbv) (List.cons_ne_nil _ _) (by decide) rfl,
    _, hends, ?_⟩
  exact (program_append.2.2 s ⟨0⟩ _ _ _ _).2 (List.cons_ne_nil _ _) hends

end ScriptLang
