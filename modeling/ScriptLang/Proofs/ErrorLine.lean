import ScriptLang.Proofs.Boundary
import ScriptLang.Proofs.Descent
import ScriptLang.Proofs.Numbering

/-! The lines of runtime errors. The lines of a program are lines of words it is read from, and evaluation
makes up no others. -/

namespace ScriptLang

open Grammar (IsWord Seam significant isWord_of_mem_significant)
open Lined (mapLine)

variable {ι : Type}

/-- Where other numbers for lines change nothing, the lines are those that keep their number. -/
theorem Program.line_fixed {program : Program ι} {g : Nat → Nat} (h : mapLine g program = program) {n : Nat}
    (hn : .line n ∈ Marks.stmts program) : g n = n := by
  have hmarks : (Marks.stmts program).map (Mark.mapLine g) = (Marks.stmts program).map id := by
    rw [List.map_id, ← Marks.stmts_maps g program, MapLine.stmts_eq, h]
  exact Mark.line.inj (List.map_inj_left.mp hmarks _ hn)

namespace Grammar

/-- A program is the same with other numbers for lines that none of its words is on. -/
theorem mapLine_eq_of_parseTokens {tokens : List Token} {source : Source}
    (h : parseTokens tokens = .ok source) {g : Nat → Nat} (hg : ∀ t ∈ tokens, IsWord t → g t.line = t.line) :
    mapLine g source = source := by
  obtain ⟨front, e, behind, rfl, he, hfront⟩ := exists_front_of_parseTokens h
  have hsame : (significant front).map (Token.mapLine g) = significant front := by
    refine (List.map_congr_left fun t ht => ?_).trans (List.map_id _)
    have hword := isWord_of_mem_significant hfront t ht
    have hline : g t.line = t.line :=
      hg t (List.mem_append_left _ (List.mem_filter.mp ht).1) hword
    show Token.mk t.kind t.literal t.lexeme ⟨g t.line, t.position.column⟩ = t
    rw [hline]
    rfl
  let S : Seam := ⟨g, False, e :: significant behind, e :: significant behind, .stop he (.inl he)⟩
  have hclosed : S.Closed := by
    rintro _ ⟨⟩
    exact he
  have hsplit : significant (front ++ e :: behind) = significant front ++ S.left := by
    rw [significant_append, significant_cons (he ▸ nofun)]
  have hbefore : S.Before (significant (front ++ e :: behind)) (significant (front ++ e :: behind)) :=
    ⟨significant front, isWord_of_mem_significant hfront, hsplit, hsame.symm ▸ hsplit⟩
  exact Except.ok.inj (((parseTokens_of_before hclosed hbefore).1 source h).symm.trans h)

end Grammar

/-! ### Lines of words -/

/-- The lines of a text are those between its line breaks. -/
def lineCount (text : List Char) : Nat :=
  text.count '\n' + 1

theorem Segments.exists_behind {front text front' text' : List Char} {tokens : List Token}
    (h : Segments front text tokens front' text') :
    ∀ t ∈ tokens, ∃ before, before <+: front ++ text ∧ t.position = .behind before := by
  induction h with
  | gap => exact fun _ => nofun
  | @token front gap raw text front' text' t tokens _ _ ht _ ih =>
    have hwhole : front ++ (gap ++ (raw ++ text)) = front ++ gap ++ raw ++ text := by
      simp only [List.append_assoc]
    rw [hwhole]
    refine List.forall_mem_cons.mpr ⟨⟨front ++ gap, ⟨raw ++ text, ?_⟩, ht.position⟩, ih⟩
    rw [List.append_assoc (front ++ gap)]

theorem Token.line_le_of_tokenize {text : String} {tokens : List Token}
    (h : tokenize text = .ok tokens) {t : Token} (ht : t ∈ tokens) :
    1 ≤ t.line ∧ t.line ≤ lineCount text.toList := by
  obtain ⟨words, hwords, rfl⟩ := ((tokenize_longest text).1 tokens).mp h
  obtain ⟨before, hbefore, hposition⟩ :
      ∃ before, before <+: text.toList ∧ t.position = .behind before := by
    rcases List.mem_append.mp ht with ht | ht
    · exact hwords.exists_behind t ht
    · exact ⟨text.toList, List.prefix_refl _, List.mem_singleton.mp ht ▸ rfl⟩
  have hcount : before.count '\n' ≤ text.toList.count '\n' := hbefore.sublist.count_le _
  rw [Token.line, hposition, Position.behind, lineCount]
  dsimp only
  omega

/-! ### Programs -/

/-- The lines that words of the tokens are on, with any functions. -/
def Origin.ofWords (tokens : List Token) : Origin :=
  ⟨fun n => ∃ t ∈ tokens, IsWord t ∧ t.line = n, fun _ => True⟩

open Classical in
theorem Origin.ofWords_covers {tokens : List Token} {source : Source} (h : parseTokens tokens = .ok source)
    (s : State) : (Origin.ofWords tokens).Covers (Marks.stmts (s.load source).1) := by
  -- All other lines would be moved if there were any.
  let move (n : Nat) : Nat := if (Origin.ofWords tokens).line n then n else n + 1
  have hmove : ∀ t ∈ tokens, IsWord t → move t.line = t.line :=
    fun t ht hword => if_pos ⟨t, ht, hword, rfl⟩
  have hsource : mapLine move source = source := Grammar.mapLine_eq_of_parseTokens h hmove
  have hloaded : mapLine move (s.load source).1 = (s.load source).1 := by
    have hnumbered := Program.identify_mapLine source move s.nextFunction
    rw [hsource] at hnumbered
    exact (congrArg Prod.fst hnumbered).symm
  rintro (n | f) hm
  · have hn : move n = n := Program.line_fixed hloaded hm
    by_contra hother
    exact absurd ((if_neg hother).symm.trans hn) (Nat.succ_ne_self n)
  · trivial

/-- A runtime error that ends a text in a new global scope is the failure of a native, or names the line of
one of its words. -/
theorem error_line_of_text {text : String} {source : Source} (hparse : parse text = .ok source)
    {maxDepth : Nat} {o : Outcome} {s' : State}
    (hends : let global := (State.initial maxDepth).newGlobal
      (Eval.perform (.block global.1 (global.2.load source).1)).Ends (global.2.load source).2 o s')
    {e : RuntimeError} (he : o.result = .error e) :
    (∃ name reason, e = .fault (.native name reason)) ∨
      ∃ tokens, tokenize text = .ok tokens ∧
        ∃ t ∈ tokens, IsWord t ∧ e.line? = some t.line ∧ 1 ≤ t.line ∧ t.line ≤ lineCount text.toList := by
  obtain ⟨tokens, htokens, hsource⟩ := exists_tokens_of_parse hparse
  have hstate : (State.initial maxDepth).newGlobal.2.StemsFrom (.ofWords tokens) :=
    State.initial_stemsFrom.newGlobal
  have hresult := ((hstate.starts (Origin.ofWords_covers hsource _)).ends hends).2.result
  rw [he] at hresult
  cases hline : e.line? with
  | none => exact .inl (RuntimeError.eq_native_of_line?_eq_none hline)
  | some n =>
    obtain ⟨t, ht, hword, rfl⟩ := RuntimeError.StemsFrom.line hresult n hline
    exact .inr ⟨tokens, htokens, t, ht, hword, rfl, Token.line_le_of_tokenize htokens ht⟩

/-- The error is on the line in the function, and not on the one where the function is called. -/
theorem error_line_of_closure :
    let text := "(fn () \x7b\n  'a'();\n\x7d)();"
    let global := (State.initial 8).newGlobal
    let e : RuntimeError := .fault (.notCallable "string" 2)
    ∃ source o s', parse text = .ok source ∧
      (Eval.perform (.block global.1 (global.2.load source).1)).Ends (global.2.load source).2 o s' ∧
      o.result = .error e ∧
      ((∃ name reason, e = .fault (.native name reason)) ∨
        ∃ tokens, tokenize text = .ok tokens ∧
          ∃ t ∈ tokens, IsWord t ∧ e.line? = some t.line ∧ 1 ≤ t.line ∧
            t.line ≤ lineCount text.toList) := by
  intro text global e
  let body : List (Stmt Unit) := [.expression (.call (.string "a" 2) [] 2) 2]
  let f : FunctionDecl Unit := .mk () FunctionDecl.anonymous [] body 1
  let source : Source := [.expression (.call (.function f) [] 3) 1]
  have hparse : parse text = .ok source := by cbv
  have hends : (Eval.perform (.block global.1 (global.2.load source).1)).Ends (global.2.load source).2
      (.error (.raised e)) _ :=
    ⟨30, rfl⟩
  exact ⟨source, _, _, hparse, hends, rfl, error_line_of_text hparse hends rfl⟩

end ScriptLang
