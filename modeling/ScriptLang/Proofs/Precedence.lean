import ScriptLang.Proofs.Layout
import ScriptLang.Proofs.Operand
import ScriptLang.Proofs.Seam

/-! Chains of operands. A product binds tighter than a sum, the comparisons count as sums, and
operators of one level group to the left. The chain is cut at its sums: what stands between two of
them is one term, which is a chain of the lower level. -/

namespace ScriptLang.Grammar

open TokenKind (symbol)
open Token (mark)

/-- The operators of products, of sums and of comparisons. -/
def arithmeticOperator? (kind : TokenKind) : Option Operator :=
  (Nested.productOperator? kind).or (Nested.sumOperator? kind)

theorem arithmeticOperator?_eq_none {kind : TokenKind} :
    arithmeticOperator? kind = none ↔
      Nested.productOperator? kind = none ∧ Nested.sumOperator? kind = none :=
  Option.or_eq_none_iff

/-- An operator in a chain and the operand behind it. -/
structure Link where
  token : Token
  operator : Operator
  tokens : List Token
  operand : Expr Unit
  operator_eq : arithmeticOperator? token.kind = some operator

namespace Link

variable {l : Link} {links : List Link} {behind : List Token}

def isProduct (l : Link) : Bool :=
  (Nested.productOperator? l.token.kind).isSome

theorem ne_newline : l.token.kind ≠ .newline := by
  intro h
  have hnone : arithmeticOperator? l.token.kind = none := by rw [h]; rfl
  cases hnone.symm.trans l.operator_eq

theorem product_eq (h : l.isProduct = true) :
    Nested.productOperator? l.token.kind = some l.operator := by
  obtain ⟨operator, hproduct⟩ := Option.isSome_iff_exists.mp h
  have heq := l.operator_eq
  rw [arithmeticOperator?, hproduct, Option.some_or] at heq
  exact hproduct.trans heq

theorem sum_eq (h : l.isProduct = false) :
    Nested.productOperator? l.token.kind = none ∧
      Nested.sumOperator? l.token.kind = some l.operator := by
  have hproduct : Nested.productOperator? l.token.kind = none := by simpa [isProduct] using h
  have heq := l.operator_eq
  rw [arithmeticOperator?, hproduct, Option.none_or] at heq
  exact ⟨hproduct, heq⟩

/-- The tokens of the links with what is behind them. -/
def spell (links : List Link) (behind : List Token) : List Token :=
  links.foldr (fun l rest => l.token :: (l.tokens ++ rest)) behind

@[simp]
theorem spell_nil : spell [] behind = behind :=
  rfl

@[simp]
theorem spell_cons : spell (l :: links) behind = l.token :: (l.tokens ++ spell links behind) :=
  rfl

theorem spell_append : spell links [] ++ behind = spell links behind := by
  induction links with
  | nil => rfl
  | cons l links ih => simp [ih]

/-- `left` and the operand of the link as one expression. -/
def join (left : Expr Unit) (l : Link) : Expr Unit :=
  .binary l.operator left l.operand l.token.line

/-- The products at the front of the links. -/
def run (links : List Link) : List Link :=
  links.takeWhile isProduct

/-- A link whose operand is the whole term, with the products behind it. -/
def term (l : Link) (products : List Link) : Link :=
  { l with tokens := l.tokens ++ spell products [], operand := products.foldl join l.operand }

/-- The sums among the links, each with its term. -/
def terms : List Link → List Link
  | [] => []
  | l :: links => if l.isProduct then terms links else l.term (run links) :: terms links

/-- Each run of products is grouped to the left, and then the terms are. -/
def tree (first : Expr Unit) (links : List Link) : Expr Unit :=
  (terms links).foldl join ((run links).foldl join first)

theorem run_of_product (h : l.isProduct = true) : run (l :: links) = l :: run links :=
  List.takeWhile_cons_of_pos h

theorem run_of_sum (h : l.isProduct = false) : run (l :: links) = [] :=
  List.takeWhile_cons_of_neg (by simp [h])

theorem terms_of_product (h : l.isProduct = true) : terms (l :: links) = terms links := by
  rw [terms, if_pos h]

theorem terms_of_sum (h : l.isProduct = false) :
    terms (l :: links) = l.term (run links) :: terms links := by
  rw [terms, h, if_neg Bool.false_ne_true]

theorem isProduct_of_mem_run (h : l ∈ run links) : l.isProduct = true :=
  List.mem_takeWhile_imp h

theorem isProduct_of_mem_terms (h : l ∈ terms links) : l.isProduct = false := by
  induction links with
  | nil => cases h
  | cons first links ih =>
    cases hfirst : first.isProduct with
    | true =>
      rw [terms_of_product hfirst] at h
      exact ih h
    | false =>
      rw [terms_of_sum hfirst] at h
      obtain rfl | h := List.mem_cons.mp h
      · exact hfirst
      · exact ih h

theorem spell_terms : spell (run links) (spell (terms links) behind) = spell links behind := by
  induction links with
  | nil => rfl
  | cons l links ih =>
    cases hl : l.isProduct with
    | true => rw [run_of_product hl, terms_of_product hl, spell_cons, ih, spell_cons]
    | false =>
      rw [run_of_sum hl, terms_of_sum hl, spell_nil, spell_cons, spell_cons, ← ih, term,
        List.append_assoc, spell_append]

end Link

/-- Each operand is read where it stands, up to the operator of the next link. -/
def ReadsEach (operand : Parser (Expr Unit)) (behind : List Token) : List Link → Prop
  | [] => True
  | l :: links =>
    operand (l.tokens ++ Link.spell links behind) = .ok (l.operand, Link.spell links behind) ∧
      ReadsEach operand behind links

/-- The tokens begin with one, and it is no operator of the level. -/
def Closes (operator? : TokenKind → Option Operator) (tokens : List Token) : Prop :=
  ∃ t rest, tokens = t :: rest ∧ t.kind ≠ .newline ∧ operator? t.kind = none

/-! ### One level -/

section Level

variable {operator? : TokenKind → Option Operator} {operand : Parser (Expr Unit)}
  {links : List Link} {first behind : List Token} {e : Expr Unit}

theorem chainStep_finishes (hreads : ReadsEach operand behind links)
    (hlevel : ∀ l ∈ links, operator? l.token.kind = some l.operator)
    (hclose : Closes operator? behind) :
    Finishes (chainStep operator? operand) e (Link.spell links behind) (links.foldl Link.join e)
      behind := by
  induction links generalizing e with
  | nil =>
    obtain ⟨t, rest, rfl, hne, hnone⟩ := hclose
    exact .last (chainStep_of_none hne hnone)
  | cons l links ih =>
    obtain ⟨hread, hreads⟩ := hreads
    have hshorter : weight (Link.spell links behind) < weight (Link.spell (l :: links) behind) := by
      rw [Link.spell_cons, weight_cons l.ne_newline, weight_append]
      omega
    have hrest := ih (e := l.join e) hreads fun l hl => hlevel l (List.mem_cons_of_mem _ hl)
    exact .next (chainStep_of_some l.ne_newline (hlevel l List.mem_cons_self) hread) hshorter hrest

theorem chain_eq_foldl
    (hfirst : operand (first ++ Link.spell links behind) = .ok (e, Link.spell links behind))
    (hreads : ReadsEach operand behind links)
    (hlevel : ∀ l ∈ links, operator? l.token.kind = some l.operator)
    (hclose : Closes operator? behind) :
    chain operator? operand (first ++ Link.spell links behind) =
      .ok (links.foldl Link.join e, behind) := by
  rw [chain, bind_of_ok hfirst]
  exact (chainStep_finishes hreads hlevel hclose).repeatFrom

end Level

/-! ### Both levels -/

namespace Nested

variable {g : Nested} {links : List Link} {first rest tokens : List Token} {t : Token}
  {e : Expr Unit}

theorem ne_newline_of_postfixStep {result : Expr Unit}
    (h : g.postfixStep e tokens = .ok (.inr result, t :: rest)) : t.kind ≠ .newline := by
  obtain ⟨u, looked, hpeek, hstep⟩ := bind_eq_ok h
  have hlooked : looked = t :: rest := by
    split at hstep
    · obtain ⟨_, _, -, hcall⟩ := bind_eq_ok hstep
      obtain ⟨_, _, -, hcall⟩ := bind_eq_ok hcall
      cases hcall
    · split at hstep
      · obtain ⟨_, _, -, haccess⟩ := bind_eq_ok hstep
        cases haccess
      · cases hstep
        rfl
  rw [peek] at hpeek
  split at hpeek
  · cases hpeek
  · next hbreaks =>
    cases hpeek
    cases hlooked
    exact afterBreaks_front hbreaks

/-- An operand ends with a look at the token behind it, which passes over the line breaks. -/
theorem ne_newline_of_postfixed (h : g.postfixed tokens = .ok (e, t :: rest)) :
    t.kind ≠ .newline := by
  obtain ⟨primary, between, -, hrepeat⟩ := bind_eq_ok h
  rw [repeatFrom_eq_rounds] at hrepeat
  obtain ⟨last, before, hlast⟩ := rounds_last hrepeat
  exact ne_newline_of_postfixStep hlast

theorem ne_newline_of_reads
    (hfirst : g.postfixed (first ++ Link.spell links (t :: rest)) =
      .ok (e, Link.spell links (t :: rest)))
    (hreads : ReadsEach g.postfixed (t :: rest) links) : t.kind ≠ .newline := by
  induction links generalizing first e with
  | nil => exact ne_newline_of_postfixed hfirst
  | cons l links ih => exact ih hreads.1 hreads.2

theorem closes_terms (hclose : Closes arithmeticOperator? (t :: rest)) :
    Closes productOperator? (Link.spell (Link.terms links) (t :: rest)) := by
  obtain ⟨_, _, ⟨⟩, hne, hnone⟩ := hclose
  cases hterms : Link.terms links with
  | nil => exact ⟨t, rest, rfl, hne, (arithmeticOperator?_eq_none.mp hnone).1⟩
  | cons l more =>
    have hsum : l.isProduct = false := Link.isProduct_of_mem_terms (hterms ▸ List.mem_cons_self)
    exact ⟨_, _, rfl, l.ne_newline, (Link.sum_eq hsum).1⟩

/-- The products before the first term are read one by one, and behind them each term as a whole. -/
theorem readsEach_terms (hreads : ReadsEach g.postfixed (t :: rest) links)
    (hclose : Closes arithmeticOperator? (t :: rest)) :
    ReadsEach g.postfixed (Link.spell (Link.terms links) (t :: rest)) (Link.run links) ∧
      ReadsEach g.product (t :: rest) (Link.terms links) := by
  induction links with
  | nil => exact ⟨trivial, trivial⟩
  | cons l links ih =>
    obtain ⟨hread, hreads⟩ := hreads
    obtain ⟨hrun, hterms⟩ := ih hreads
    rw [← Link.spell_terms] at hread
    cases hl : l.isProduct with
    | true =>
      rw [Link.run_of_product hl, Link.terms_of_product hl]
      exact ⟨⟨hread, hrun⟩, hterms⟩
    | false =>
      rw [Link.run_of_sum hl, Link.terms_of_sum hl]
      have hproduct := chain_eq_foldl hread hrun
        (fun _ h => Link.product_eq (Link.isProduct_of_mem_run h)) (closes_terms hclose)
      rw [← Link.spell_append, ← List.append_assoc] at hproduct
      exact ⟨trivial, hproduct, hterms⟩

/-- A chain is read to its end, whatever the levels of the operators in it. -/
theorem sum_eq_tree
    (hfirst : g.postfixed (first ++ Link.spell links (t :: rest)) =
      .ok (e, Link.spell links (t :: rest)))
    (hreads : ReadsEach g.postfixed (t :: rest) links) (hend : arithmeticOperator? t.kind = none) :
    g.sum (first ++ Link.spell links (t :: rest)) = .ok (Link.tree e links, t :: rest) := by
  have hne := ne_newline_of_reads hfirst hreads
  have hclose : Closes arithmeticOperator? (t :: rest) := ⟨t, rest, rfl, hne, hend⟩
  have hclose' : Closes sumOperator? (t :: rest) :=
    ⟨t, rest, rfl, hne, (arithmeticOperator?_eq_none.mp hend).2⟩
  obtain ⟨hrun, hterms⟩ := readsEach_terms hreads hclose
  rw [← Link.spell_terms] at hfirst ⊢
  have hproduct := chain_eq_foldl hfirst hrun
    (fun _ h => Link.product_eq (Link.isProduct_of_mem_run h)) (closes_terms hclose)
  rw [← Link.spell_append, ← List.append_assoc] at hproduct ⊢
  exact chain_eq_foldl hproduct hterms
    (fun _ h => (Link.sum_eq (Link.isProduct_of_mem_terms h)).2) hclose'

/-- The words `a - b * c == d`, of which the product makes one term. -/
theorem sum_eq_tree_mixed :
    (nested 0).sum
        [.name "a" 1, mark .minus 2, .name "b" 2, mark .star 3, .name "c" 3, mark .equalEqual 4,
          .name "d" 4, .endAt ⟨4, 9⟩] =
      .ok (.binary .equal
        (.binary .sub (.place (.variable "a" 1))
          (.binary .mul (.place (.variable "b" 2)) (.place (.variable "c" 3)) 3) 2)
        (.place (.variable "d" 4)) 4, [.endAt ⟨4, 9⟩]) :=
  let minus : Link := ⟨mark .minus 2, .sub, [.name "b" 2], .place (.variable "b" 2), rfl⟩
  let times : Link := ⟨mark .star 3, .mul, [.name "c" 3], .place (.variable "c" 3), rfl⟩
  let equal : Link := ⟨mark .equalEqual 4, .equal, [.name "d" 4], .place (.variable "d" 4), rfl⟩
  let behind := Link.spell [minus, times, equal] [.endAt ⟨4, 9⟩]
  have hfirst : (nested 0).postfixed ([.name "a" 1] ++ behind) =
      .ok (.place (.variable "a" 1), behind) := rfl
  have hreads : ReadsEach (nested 0).postfixed [.endAt ⟨4, 9⟩] [minus, times, equal] :=
    ⟨rfl, rfl, rfl, trivial⟩
  sum_eq_tree hfirst hreads rfl

end Nested

end ScriptLang.Grammar
