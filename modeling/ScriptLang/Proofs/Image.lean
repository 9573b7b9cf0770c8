import ScriptLang.Proofs.RoundTrip
import ScriptLang.Proofs.Soundness
import ScriptLang.Proofs.Tree

/-! The trees of the programs that can be read are the well-formed ones. -/

namespace ScriptLang

variable {ι : Type}

/-! ### The tree of a well-formed program -/

theorem Place.tree_isTarget (p : Place ι) : p.tree.IsTarget := by
  cases p <;> trivial

theorem VariableDecl.tree_isDeclaration (d : VariableDecl ι) : d.tree.IsDeclaration := by
  match d with
  | .variable _ none _ | .variable _ (some _) _ | .constant .. => trivial

mutual

theorem Place.WellFormed.tree : ∀ {p : Place ι}, p.WellFormed → p.tree.WellFormed
  | .variable .., _ => trivial
  | .dot .., h => ⟨fun _ => trivial, Expr.WellFormed.tree h, trivial⟩
  | .index .., h => ⟨nofun, Expr.WellFormed.tree h.1, Expr.WellFormed.tree h.2⟩

theorem Expr.WellFormed.tree : ∀ {e : Expr ι}, e.WellFormed → e.tree.WellFormed
  | .number .., _ | .string .., _ => trivial
  | .place _, h => Place.WellFormed.tree h
  | .object .., h => WellFormed.Fields.tree h
  | .array .., h => WellFormed.Exprs.tree h
  | .binary .., h => ⟨Expr.WellFormed.tree h.1, Expr.WellFormed.tree h.2⟩
  | .assign target .., h =>
    ⟨target.tree_isTarget, Place.WellFormed.tree h.1, Expr.WellFormed.tree h.2⟩
  | .call .., h => ⟨Expr.WellFormed.tree h.1, WellFormed.Exprs.tree h.2⟩
  | .construct target .., h =>
    ⟨target.tree_isTarget, Place.WellFormed.tree h.1, WellFormed.Exprs.tree h.2⟩
  | .select scrutinee arms line, h => by
    have hscrutinee : scrutinee.tree.WellFormed := Expr.WellFormed.tree h.1
    have hcases : Tree.Cases (Tree.casesOf arms) := WellFormed.Arms.casesOf h.2.1
    have hbody : ∀ body, Tree.defaultOf arms = some body → Tree.Stmts body :=
      WellFormed.Arms.defaultOf h.2.1
    rw [Expr.tree]
    cases hdefault : Tree.defaultOf arms with
    | none => exact ⟨hscrutinee, hcases⟩
    | some body => exact ⟨hscrutinee, hcases, hbody body hdefault⟩
  | .function _, h => FunctionDecl.WellFormed.tree h
  | .attempt .., h => ⟨WellFormed.Stmts.tree h.1, WellFormed.Stmts.tree h.2⟩

theorem WellFormed.Exprs.tree : ∀ {es : List (Expr ι)}, WellFormed.Exprs es →
    Tree.Exprs (Tree.ofExprs es)
  | [], _ => trivial
  | _ :: _, h => ⟨Expr.WellFormed.tree h.1, WellFormed.Exprs.tree h.2⟩

theorem WellFormed.Fields.tree : ∀ {fields : List (String × Expr ι)}, WellFormed.Fields fields →
    Tree.Fields (Tree.ofFields fields)
  | [], _ => trivial
  | (_, _) :: _, h => ⟨Expr.WellFormed.tree h.1, WellFormed.Fields.tree h.2⟩

theorem WellFormed.Arms.casesOf : ∀ {arms : List (Arm ι)}, WellFormed.Arms arms →
    Tree.Cases (Tree.casesOf arms)
  | [], _ => trivial
  | .mk [] _ _ :: rest, h => by
    have hrest : WellFormed.Arms rest := h.2.2.2
    exact (WellFormed.Arms.casesOf hrest : Tree.Cases (Tree.casesOf rest))
  | .mk (_ :: _) _ _ :: _, ⟨_, hpatterns, hbody, hrest⟩ =>
    ⟨nofun, ⟨Expr.WellFormed.tree hpatterns.1, WellFormed.Exprs.tree hpatterns.2⟩,
      WellFormed.Stmts.tree hbody, WellFormed.Arms.casesOf hrest⟩

theorem WellFormed.Arms.defaultOf : ∀ {arms : List (Arm ι)}, WellFormed.Arms arms →
    ∀ body, Tree.defaultOf arms = some body → Tree.Stmts body
  | [], _ => nofun
  | .mk _ true _ :: _, h => by
    rintro _ ⟨⟩
    exact WellFormed.Stmts.tree h.2.2.1
  | .mk _ false _ :: rest, h => by
    have hrest : WellFormed.Arms rest := h.2.2.2
    exact (WellFormed.Arms.defaultOf hrest : ∀ body, Tree.defaultOf rest = some body → _)

theorem FunctionDecl.WellFormed.tree : ∀ {f : FunctionDecl ι}, f.WellFormed → f.tree.WellFormed
  | .mk .., h => WellFormed.Stmts.tree h

theorem WellFormed.Functions.tree : ∀ {fs : List (FunctionDecl ι)}, WellFormed.Functions fs →
    Tree.Functions (Tree.ofFunctions fs)
  | [], _ => trivial
  | _ :: _, h => ⟨FunctionDecl.WellFormed.tree h.1, WellFormed.Functions.tree h.2⟩

theorem VariableDecl.WellFormed.tree : ∀ {d : VariableDecl ι}, d.WellFormed → d.tree.WellFormed
  | .variable _ none _, _ => rfl
  | .variable _ (some _) _, h | .constant .., h => Expr.WellFormed.tree h

theorem ClassDecl.WellFormed.tree : ∀ {c : ClassDecl ι}, c.WellFormed → c.tree.WellFormed
  | .mk .., h =>
    ⟨WellFormed.Fields.tree h.1, WellFormed.Functions.tree h.2.1, WellFormed.Functions.tree h.2.2⟩

theorem Stmt.WellFormed.tree : ∀ {s : Stmt ι}, s.WellFormed → s.tree.WellFormed
  | .declare _, h => VariableDecl.WellFormed.tree h
  | .function _, h => FunctionDecl.WellFormed.tree h
  | .branch _ _ none _, h => ⟨Expr.WellFormed.tree h.1, WellFormed.Stmts.tree h.2⟩
  | .branch _ _ (some _) _, h =>
    ⟨Expr.WellFormed.tree h.1, WellFormed.Stmts.tree h.2.1, WellFormed.Stmts.tree h.2.2⟩
  | .forLoop start .., h =>
    ⟨start.tree_isDeclaration, VariableDecl.WellFormed.tree h.1, Expr.WellFormed.tree h.2.1,
      Expr.WellFormed.tree h.2.2.1, WellFormed.Stmts.tree h.2.2.2⟩
  | .whileLoop .., h => ⟨Expr.WellFormed.tree h.1, WellFormed.Stmts.tree h.2⟩
  | .returns none _, _ | .breaks _, _ | .continues _, _ | .declareEnum .., _ => trivial
  | .returns (some _) _, h | .throws .., h | .expression .., h => Expr.WellFormed.tree h
  | .declareClass _, h => ClassDecl.WellFormed.tree h

theorem WellFormed.Stmts.tree : ∀ {ss : List (Stmt ι)}, WellFormed.Stmts ss →
    Tree.Stmts (Tree.ofStmts ss)
  | [], _ => trivial
  | _ :: _, h => ⟨Stmt.WellFormed.tree h.1, WellFormed.Stmts.tree h.2⟩

end

/-! ### A program for every well-formed tree -/

theorem Expr.eq_place_of_isTarget {e : Expr ι} (h : e.tree.IsTarget) : ∃ p, e = .place p := by
  cases e with
  | place p => exact ⟨p, rfl⟩
  | _ => exact h.elim

theorem Stmt.eq_declare_of_isDeclaration {s : Stmt ι} (h : s.tree.IsDeclaration) :
    ∃ d, s = .declare d := by
  match s with
  | .declare d => exact ⟨d, rfl⟩
  | .branch _ _ none _ | .branch _ _ (some _) _ | .returns none _ | .returns (some _) _ => exact h.elim
  | .function .. | .forLoop .. | .whileLoop .. | .breaks .. | .continues .. | .throws ..
  | .declareClass .. | .declareEnum .. | .expression .. => exact h.elim

namespace Tree

theorem Expr.eq_identifier {e : Expr} (h : e.IsIdentifier) : ∃ x line, e = .identifier x line := by
  cases e with
  | identifier x line => exact ⟨x, line, rfl⟩
  | _ => exact h.elim

/-- The arms without a `default` give the cases. -/
def ArmsFor (cases : List Case) (arms : List (Arm Unit)) : Prop :=
  WellFormed.Arms arms ∧ casesOf arms = cases ∧ ∀ arm ∈ arms, arm.isDefault = false

theorem defaultOf_eq_none {arms : List (Arm ι)} (h : ∀ arm ∈ arms, arm.isDefault = false) :
    defaultOf arms = none := by
  induction arms with
  | nil => rfl
  | cons arm arms ih =>
    obtain ⟨harm, hrest⟩ := List.forall_mem_cons.mp h
    obtain ⟨patterns, isDefault, body⟩ := arm
    obtain rfl : isDefault = false := harm
    exact ih hrest

theorem ArmsFor.pairwise {cases : List Case} {arms : List (Arm Unit)} (h : ArmsFor cases arms) :
    arms.Pairwise Arm.OneDefault :=
  List.pairwise_of_forall_mem_list fun arm harm _ _ => .inl (h.2.2 arm harm)

mutual

theorem Expr.WellFormed.exists_source : ∀ {t : Expr}, t.WellFormed →
    ∃ e : ScriptLang.Expr Unit, e.WellFormed ∧ e.tree = t
  | .number x line, _ => ⟨.number x line, trivial, rfl⟩
  | .string s line, _ => ⟨.string s line, trivial, rfl⟩
  | .identifier x line, _ => ⟨.place (.variable x line), trivial, rfl⟩
  | .object _ line, h =>
    let ⟨ps, hps, hps'⟩ := Fields.exists_source h
    ⟨.object ps line, hps, congrArg (Expr.object · line) hps'⟩
  | .array _ line, h =>
    let ⟨es, hes, hes'⟩ := Exprs.exists_source h
    ⟨.array es line, hes, congrArg (Expr.array · line) hes'⟩
  | .binary operator _ _ line, h => by
    obtain ⟨left, hleft, rfl⟩ := Expr.WellFormed.exists_source h.1
    obtain ⟨right, hright, rfl⟩ := Expr.WellFormed.exists_source h.2
    exact ⟨.binary operator left right line, ⟨hleft, hright⟩, rfl⟩
  | .assignment _ _ line, h => by
    obtain ⟨target, htarget, rfl⟩ := Expr.WellFormed.exists_source h.2.1
    obtain ⟨value, hvalue, rfl⟩ := Expr.WellFormed.exists_source h.2.2
    obtain ⟨p, rfl⟩ := Expr.eq_place_of_isTarget h.1
    exact ⟨.assign p value line, ⟨htarget, hvalue⟩, rfl⟩
  | .member _ _ false line, h => by
    obtain ⟨container, hcontainer, rfl⟩ := Expr.WellFormed.exists_source h.2.1
    obtain ⟨x, nameLine, rfl⟩ := Expr.eq_identifier (h.1 rfl)
    exact ⟨.place (.dot container x nameLine line), hcontainer, rfl⟩
  | .member _ _ true line, h => by
    obtain ⟨container, hcontainer, rfl⟩ := Expr.WellFormed.exists_source h.2.1
    obtain ⟨key, hkey, rfl⟩ := Expr.WellFormed.exists_source h.2.2
    exact ⟨.place (.index container key line), ⟨hcontainer, hkey⟩, rfl⟩
  | .call _ _ line, h => by
    obtain ⟨callee, hcallee, rfl⟩ := Expr.WellFormed.exists_source h.1
    obtain ⟨arguments, harguments, rfl⟩ := Exprs.exists_source h.2
    exact ⟨.call callee arguments line, ⟨hcallee, harguments⟩, rfl⟩
  | .construct _ _ line, h => by
    obtain ⟨target, htarget, rfl⟩ := Expr.WellFormed.exists_source h.2.1
    obtain ⟨arguments, harguments, rfl⟩ := Exprs.exists_source h.2.2
    obtain ⟨p, rfl⟩ := Expr.eq_place_of_isTarget h.1
    exact ⟨.construct p arguments line, ⟨htarget, harguments⟩, rfl⟩
  | .select _ _ none line, h => by
    obtain ⟨scrutinee, hscrutinee, rfl⟩ := Expr.WellFormed.exists_source h.1
    obtain ⟨arms, harms⟩ := Cases.exists_source h.2
    obtain ⟨hwell, rfl, hdefault⟩ := id harms
    refine ⟨.select scrutinee arms line, ⟨hscrutinee, hwell, harms.pairwise⟩, ?_⟩
    rw [ScriptLang.Expr.tree, defaultOf_eq_none hdefault]
  -- The default becomes an arm of its own, in front of the cases.
  | .select _ _ (some _) line, h => by
    obtain ⟨scrutinee, hscrutinee, rfl⟩ := Expr.WellFormed.exists_source h.1
    obtain ⟨arms, harms⟩ := Cases.exists_source h.2.1
    obtain ⟨body, hbody, rfl⟩ := Stmts.exists_source h.2.2
    obtain ⟨hwell, rfl, hdefault⟩ := id harms
    have hone : (Arm.mk [] true body :: arms).Pairwise Arm.OneDefault :=
      List.pairwise_cons.mpr ⟨fun arm harm => .inr (hdefault arm harm), harms.pairwise⟩
    exact ⟨.select scrutinee (.mk [] true body :: arms) line,
      ⟨hscrutinee, ⟨.inr rfl, trivial, hbody, hwell⟩, hone⟩, rfl⟩
  | .function _, h => by
    obtain ⟨f, hf, rfl⟩ := FunctionDef.WellFormed.exists_source h
    exact ⟨.function f, hf, rfl⟩
  | .attempt _ _ line, h => by
    obtain ⟨body, hbody, rfl⟩ := Stmts.exists_source h.1
    obtain ⟨handler, hhandler, rfl⟩ := Stmts.exists_source h.2
    exact ⟨.attempt body handler line, ⟨hbody, hhandler⟩, rfl⟩

theorem Exprs.exists_source : ∀ {ts : List Expr}, Exprs ts →
    ∃ es : List (ScriptLang.Expr Unit), WellFormed.Exprs es ∧ ofExprs es = ts
  | [], _ => ⟨[], trivial, rfl⟩
  | _ :: _, h => by
    obtain ⟨e, he, rfl⟩ := Expr.WellFormed.exists_source h.1
    obtain ⟨es, hes, rfl⟩ := Exprs.exists_source h.2
    exact ⟨e :: es, ⟨he, hes⟩, rfl⟩

theorem Fields.exists_source : ∀ {ts : List (String × Expr)}, Fields ts →
    ∃ fields : List (String × ScriptLang.Expr Unit), WellFormed.Fields fields ∧ ofFields fields = ts
  | [], _ => ⟨[], trivial, rfl⟩
  | (key, _) :: _, h => by
    obtain ⟨value, hvalue, rfl⟩ := Expr.WellFormed.exists_source h.1
    obtain ⟨fields, hfields, rfl⟩ := Fields.exists_source h.2
    exact ⟨(key, value) :: fields, ⟨hvalue, hfields⟩, rfl⟩

theorem Cases.exists_source : ∀ {ts : List Case}, Cases ts → ∃ arms, ArmsFor ts arms
  | [], _ => ⟨[], trivial, rfl, nofun⟩
  | .mk [] _ :: _, h => absurd rfl h.1
  | .mk (_ :: _) _ :: _, h => by
    obtain ⟨e, he, rfl⟩ := Expr.WellFormed.exists_source h.2.1.1
    obtain ⟨es, hes, rfl⟩ := Exprs.exists_source h.2.1.2
    obtain ⟨body, hbody, rfl⟩ := Stmts.exists_source h.2.2.1
    obtain ⟨arms, hwell, rfl, hdefault⟩ := Cases.exists_source h.2.2.2
    have hnone : ∀ arm ∈ Arm.mk (e :: es) false body :: arms, arm.isDefault = false :=
      List.forall_mem_cons.mpr ⟨rfl, hdefault⟩
    exact ⟨.mk (e :: es) false body :: arms, ⟨.inl nofun, ⟨he, hes⟩, hbody, hwell⟩, rfl, hnone⟩

theorem FunctionDef.WellFormed.exists_source : ∀ {t : FunctionDef}, t.WellFormed →
    ∃ f : FunctionDecl Unit, f.WellFormed ∧ f.tree = t
  | .mk name parameters _ line, h => by
    obtain ⟨body, hbody, rfl⟩ := Stmts.exists_source h
    exact ⟨.mk () name parameters body line, hbody, rfl⟩

theorem Functions.exists_source : ∀ {ts : List FunctionDef}, Functions ts →
    ∃ fs : List (FunctionDecl Unit), WellFormed.Functions fs ∧ ofFunctions fs = ts
  | [], _ => ⟨[], trivial, rfl⟩
  | _ :: _, h => by
    obtain ⟨f, hf, rfl⟩ := FunctionDef.WellFormed.exists_source h.1
    obtain ⟨fs, hfs, rfl⟩ := Functions.exists_source h.2
    exact ⟨f :: fs, ⟨hf, hfs⟩, rfl⟩

theorem ClassDef.WellFormed.exists_source : ∀ {t : ClassDef}, t.WellFormed →
    ∃ c : ClassDecl Unit, c.WellFormed ∧ c.tree = t
  | .mk x fields _ _ _ line, h => by
    obtain ⟨staticFields, hstaticFields, rfl⟩ := Fields.exists_source h.1
    obtain ⟨methods, hmethods, rfl⟩ := Functions.exists_source h.2.1
    obtain ⟨staticMethods, hstaticMethods, rfl⟩ := Functions.exists_source h.2.2
    exact ⟨.mk x fields staticFields methods staticMethods line,
      ⟨hstaticFields, hmethods, hstaticMethods⟩, rfl⟩

theorem Stmt.WellFormed.exists_source : ∀ {t : Stmt}, t.WellFormed →
    ∃ s : ScriptLang.Stmt Unit, s.WellFormed ∧ s.tree = t
  | .declare x _ none line, h => by
    obtain rfl := h
    exact ⟨.declare (.variable x none line), trivial, rfl⟩
  | .declare x false (some _) line, h => by
    obtain ⟨value, hvalue, rfl⟩ := Expr.WellFormed.exists_source h
    exact ⟨.declare (.variable x (some value) line), hvalue, rfl⟩
  | .declare x true (some _) line, h => by
    obtain ⟨value, hvalue, rfl⟩ := Expr.WellFormed.exists_source h
    exact ⟨.declare (.constant x value line), hvalue, rfl⟩
  | .function _, h => by
    obtain ⟨f, hf, rfl⟩ := FunctionDef.WellFormed.exists_source h
    exact ⟨.function f, hf, rfl⟩
  | .branch _ _ none line, h => by
    obtain ⟨test, htest, rfl⟩ := Expr.WellFormed.exists_source h.1
    obtain ⟨body, hbody, rfl⟩ := Stmts.exists_source h.2
    exact ⟨.branch test body none line, ⟨htest, hbody⟩, rfl⟩
  | .branch _ _ (some _) line, h => by
    obtain ⟨test, htest, rfl⟩ := Expr.WellFormed.exists_source h.1
    obtain ⟨body, hbody, rfl⟩ := Stmts.exists_source h.2.1
    obtain ⟨alternate, halternate, rfl⟩ := Stmts.exists_source h.2.2
    exact ⟨.branch test body (some alternate) line, ⟨htest, hbody, halternate⟩, rfl⟩
  | .forLoop _ _ _ _ line, h => by
    obtain ⟨start, hstart, rfl⟩ := Stmt.WellFormed.exists_source h.2.1
    obtain ⟨test, htest, rfl⟩ := Expr.WellFormed.exists_source h.2.2.1
    obtain ⟨update, hupdate, rfl⟩ := Expr.WellFormed.exists_source h.2.2.2.1
    obtain ⟨body, hbody, rfl⟩ := Stmts.exists_source h.2.2.2.2
    obtain ⟨d, rfl⟩ := Stmt.eq_declare_of_isDeclaration h.1
    exact ⟨.forLoop d test update body line, ⟨hstart, htest, hupdate, hbody⟩, rfl⟩
  | .whileLoop _ _ line, h => by
    obtain ⟨test, htest, rfl⟩ := Expr.WellFormed.exists_source h.1
    obtain ⟨body, hbody, rfl⟩ := Stmts.exists_source h.2
    exact ⟨.whileLoop test body line, ⟨htest, hbody⟩, rfl⟩
  | .returns none line, _ => ⟨.returns none line, trivial, rfl⟩
  | .returns (some _) line, h => by
    obtain ⟨value, hvalue, rfl⟩ := Expr.WellFormed.exists_source h
    exact ⟨.returns (some value) line, hvalue, rfl⟩
  | .breaks line, _ => ⟨.breaks line, trivial, rfl⟩
  | .continues line, _ => ⟨.continues line, trivial, rfl⟩
  | .throws _ line, h => by
    obtain ⟨value, hvalue, rfl⟩ := Expr.WellFormed.exists_source h
    exact ⟨.throws value line, hvalue, rfl⟩
  | .declareClass _, h => by
    obtain ⟨c, hc, rfl⟩ := ClassDef.WellFormed.exists_source h
    exact ⟨.declareClass c, hc, rfl⟩
  | .declareEnum x members line, _ => ⟨.declareEnum x members line, trivial, rfl⟩
  | .expression _ line, h => by
    obtain ⟨e, he, rfl⟩ := Expr.WellFormed.exists_source h
    exact ⟨.expression e line, he, rfl⟩

theorem Stmts.exists_source : ∀ {ts : List Stmt}, Stmts ts →
    ∃ ss : List (ScriptLang.Stmt Unit), WellFormed.Stmts ss ∧ ofStmts ss = ts
  | [], _ => ⟨[], trivial, rfl⟩
  | _ :: _, h => by
    obtain ⟨s, hs, rfl⟩ := Stmt.WellFormed.exists_source h.1
    obtain ⟨ss, hss, rfl⟩ := Stmts.exists_source h.2
    exact ⟨s :: ss, ⟨hs, hss⟩, rfl⟩

end

end Tree

/-! ### What can be read -/

end ScriptLang
