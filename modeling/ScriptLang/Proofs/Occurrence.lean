import ScriptLang.Proofs.Boundary
import ScriptLang.Proofs.Conservation
import ScriptLang.Proofs.Numbering

/-! Where the functions of a program stand among its tokens. With its place in the list for its line, a
token shows on the function that is read from it. No two functions are read from one token, so the functions
of a program correspond to the tokens that introduce them, as they correspond to their numbers. -/

namespace ScriptLang

open Charged (charge)
open Grammar (charge_le_of_parseTokens)
open Lined (mapLine)

variable {ι : Type}

/-! ### Tokens on lines of their own -/

namespace Grammar

theorem exists_parseTokens_of_map {f : Nat → Nat} {tokens : List Token} {source : Source}
    (h : parseTokens (tokens.map (Token.mapLine f)) = .ok source) :
    ∃ marked, parseTokens tokens = .ok marked ∧ source = mapLine f marked := by
  obtain ⟨front', e', behind', hsplit, he', hfront'⟩ := exists_front_of_parseTokens h
  obtain ⟨front, rest, rfl, rfl, hrest⟩ := List.map_eq_append_iff.mp hsplit
  obtain ⟨e, behind, rfl, rfl, rfl⟩ := List.map_eq_cons_iff.mp hrest
  have he : e.kind = .endOfInput := he'
  have hfront : ∀ t ∈ front, t.kind ≠ .endOfInput :=
    fun t ht => hfront' (t.mapLine f) (List.mem_map_of_mem ht)
  have hsame := parseTokens_mapLine f he hfront behind (behind.map (Token.mapLine f))
  rw [hsplit] at h
  cases hparse : parseTokens (front ++ e :: behind) with
  | error err => cases (hsame.2 err hparse).symm.trans h
  | ok marked => exact ⟨marked, rfl, Except.ok.inj (h.symm.trans (hsame.1 marked hparse))⟩

end Grammar

/-- The tokens, each with its place in the list for its line. -/
def numbered (tokens : List Token) : List Token :=
  tokens.mapIdx fun i t => t.mapLine fun _ => i

/-- The line that the token in this place is on. -/
def lineAt (tokens : List Token) (i : Nat) : Nat :=
  (tokens[i]?.map Token.line).getD 0

theorem numbered_map_lineAt (tokens : List Token) :
    (numbered tokens).map (Token.mapLine (lineAt tokens)) = tokens := by
  refine List.ext_getElem? fun i => ?_
  rw [List.getElem?_map, numbered, List.getElem?_mapIdx]
  cases h : tokens[i]? with
  | none => rfl
  | some t =>
    have hline : lineAt tokens i = t.line := by rw [lineAt, h]; rfl
    show some (Token.mk t.kind t.literal t.lexeme ⟨lineAt tokens i, t.position.column⟩) = some t
    rw [hline]
    rfl

theorem exists_parseTokens_numbered {tokens : List Token} {source : Source}
    (h : parseTokens tokens = .ok source) :
    ∃ marked, parseTokens (numbered tokens) = .ok marked ∧ source = mapLine (lineAt tokens) marked := by
  refine Grammar.exists_parseTokens_of_map ?_
  rw [numbered_map_lineAt]
  exact h

theorem charge_numbered (tokens : List Token) (n : Nat) :
    charge n (numbered tokens) = 0 ∨
      charge n (numbered tokens) = 1 ∧ ∃ t, tokens[n]? = some t ∧ t.kind.Introduces := by
  induction tokens using List.reverseRecOn with
  | nil => exact .inl rfl
  | append_singleton tokens t ih =>
    have hsum : charge n (numbered (tokens ++ [t])) =
        charge n (numbered tokens) + if tokens.length = n ∧ t.kind.Introduces then 1 else 0 := by
      rw [numbered, List.mapIdx_concat, charge_append]
      rfl
    rw [hsum]
    obtain hzero | ⟨hone, u, hu, hkind⟩ := ih
    · split
      · next ht =>
        obtain ⟨rfl, hkind⟩ := ht
        exact .inr ⟨by rw [hzero], t, List.getElem?_concat_length, hkind⟩
      · exact .inl hzero
    · have hlt : n < tokens.length := (List.getElem?_eq_some_iff.mp hu).1
      rw [if_neg fun h => Nat.ne_of_gt hlt h.1]
      exact .inr ⟨hone, u, (List.getElem?_append_left hlt).trans hu, hkind⟩

/-! ### Functions of a program -/

theorem charge_eq_count (program : Program ι) (n : Nat) :
    charge n program = (program.functions.map FunctionDecl.line).count n := by
  have hmarks : ∀ marks : List (Mark ι),
      charge n marks = ((marks.filterMap Mark.function?).map FunctionDecl.line).count n := by
    intro marks
    induction marks with
    | nil => rfl
    | cons m marks ih =>
      cases m with
      | line k => exact charge_line.trans ih
      | function f =>
        show (if f.line = n then 1 else 0) + charge n marks = (f.line :: _).count n
        rw [List.count_cons, ih, Nat.add_comm]
        simp
  exact charge_stmts.symm.trans (hmarks _)

theorem Program.functions_mapLine (program : Program ι) (g : Nat → Nat) :
    Program.functions (mapLine g program) = program.functions.map (FunctionDecl.mapLine g) := by
  have hmarks : ∀ marks : List (Mark ι), (marks.map (Mark.mapLine g)).filterMap Mark.function? =
      (marks.filterMap Mark.function?).map (FunctionDecl.mapLine g) := by
    intro marks
    induction marks with
    | nil => rfl
    | cons m marks ih =>
      cases m with
      | line k => exact ih
      | function f => exact congrArg (f.mapLine g :: ·) ih
  rw [Program.functions, ← MapLine.stmts_eq, Marks.stmts_maps g program]
  exact hmarks _

theorem FunctionDecl.identity_mapLine (f : FunctionDecl ι) (g : Nat → Nat) :
    (f.mapLine g).identity = f.identity := by
  cases f
  rfl

theorem FunctionDecl.line_mapLine (f : FunctionDecl ι) (g : Nat → Nat) :
    (f.mapLine g).line = g f.line := by
  cases f
  rfl

/-- The functions of a program that is read from numbered tokens are on lines of their own, and all of them
are numbered. -/
theorem functions_nodup {tokens : List Token} {marked : Source}
    (h : parseTokens (numbered tokens) = .ok marked) :
    (marked.functions.map FunctionDecl.line).Nodup := by
  refine List.nodup_iff_count_le_one.mpr fun n => ?_
  -- Each token introduces at most one function, and each has a line of its own.
  have hle := charge_le_of_parseTokens (n := n) h
  rw [charge_eq_count] at hle
  rcases charge_numbered tokens n with hzero | ⟨hone, -⟩ <;> omega

/-! ### Readings -/

/-- A list of tokens that a program was read from, and the number that its first function was given. -/
structure Reading where
  tokens : List Token
  first : Nat

namespace Reading

/-- The function is read from the token in place `i`: if the tokens were on lines of their own, it would be
on that of this token. -/
def Introduces (r : Reading) (i : Nat) (f : FunctionDecl Nat) : Prop :=
  ∃ marked, parseTokens (numbered r.tokens) = .ok marked ∧
    ∃ f' ∈ Program.functions (marked.identify r.first).1, f'.line = i ∧ f = f'.mapLine (lineAt r.tokens)

variable {r : Reading} {f g : FunctionDecl Nat} {i j : Nat} {source : Source}

theorem exists_introduces (h : parseTokens r.tokens = .ok source)
    (hf : f ∈ Program.functions (source.identify r.first).1) : ∃ i, r.Introduces i f := by
  obtain ⟨marked, hmarked, rfl⟩ := exists_parseTokens_numbered h
  rw [Program.identify_mapLine, Program.functions_mapLine] at hf
  obtain ⟨f', hf', rfl⟩ := List.mem_map.mp hf
  exact ⟨f'.line, marked, hmarked, f', hf', rfl, rfl⟩

namespace Introduces

theorem bounds (hf : r.Introduces i f) (h : parseTokens r.tokens = .ok source) :
    r.first ≤ f.identity ∧ f.identity < (source.identify r.first).2 := by
  obtain ⟨marked, hmarked, f', hf', -, rfl⟩ := hf
  obtain ⟨marked', hmarked', rfl⟩ := exists_parseTokens_numbered h
  obtain rfl : marked = marked' := Except.ok.inj (hmarked.symm.trans hmarked')
  have hnumbers := Marks.stmts_numbers r.first marked
  have hmem : f'.identity ∈ List.range' r.first (Program.functions (marked.identify r.first).1).length :=
    hnumbers.identities_eq ▸ List.mem_map_of_mem hf'
  have hnext : (marked.identify r.first).2 =
      r.first + (Program.functions (marked.identify r.first).1).length := hnumbers.next_eq
  rw [List.mem_range'_1] at hmem
  rw [FunctionDecl.identity_mapLine, Program.identify_mapLine, hnext]
  exact hmem

/-- Functions of one program have the same number exactly if they are read from the same token. -/
theorem identity_eq_iff (hf : r.Introduces i f) (hg : r.Introduces j g) :
    f.identity = g.identity ↔ i = j := by
  obtain ⟨marked, hmarked, f', hf', rfl, rfl⟩ := hf
  obtain ⟨marked', hmarked', g', hg', rfl, rfl⟩ := hg
  obtain rfl : marked = marked' := Except.ok.inj (hmarked.symm.trans hmarked')
  have hnumbers := Marks.stmts_numbers r.first marked
  have hidentities : ((Program.functions (marked.identify r.first).1).map FunctionDecl.identity).Nodup :=
    hnumbers.identities_eq ▸ List.nodup_range'
  have hlines : ((Program.functions (marked.identify r.first).1).map FunctionDecl.line).Nodup :=
    hnumbers.lines_eq ▸ functions_nodup hmarked
  rw [FunctionDecl.identity_mapLine, FunctionDecl.identity_mapLine]
  constructor
  · intro h
    rw [List.inj_on_of_nodup_map hidentities hf' hg' h]
  · intro h
    rw [List.inj_on_of_nodup_map hlines hf' hg' h]

theorem exists_token (hf : r.Introduces i f) :
    ∃ t, r.tokens[i]? = some t ∧ t.kind.Introduces ∧ f.line = t.line := by
  obtain ⟨marked, hmarked, f', hf', rfl, rfl⟩ := hf
  have hnumbers := Marks.stmts_numbers r.first marked
  have hmem : f'.line ∈ marked.functions.map FunctionDecl.line :=
    hnumbers.lines_eq ▸ List.mem_map_of_mem hf'
  have hpos := List.count_pos_iff.mpr hmem
  rw [← charge_eq_count] at hpos
  have hle := charge_le_of_parseTokens (n := f'.line) hmarked
  rcases charge_numbered r.tokens f'.line with hzero | ⟨-, t, ht, hkind⟩
  · omega
  · refine ⟨t, ht, hkind, ?_⟩
    rw [FunctionDecl.line_mapLine, lineAt, ht]
    rfl

end Introduces

end Reading

end ScriptLang
