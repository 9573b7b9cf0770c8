import Mathlib.Data.List.Basic
import ScriptLang.Proofs.Conduct
import ScriptLang.Proofs.Course

/-! The parameters of a call. Each argument is bound to the parameter in its place. A parameter that
gets none is not bound, so its name means what it means around the function. -/

namespace ScriptLang

namespace State

variable {s s' : State} {name : String} {inner outer : ScopeId}

/-! ### Names that are handed on -/

/-- On the way from the inner scope to the outer one, no scope before the latter binds the name. -/
inductive Hands (s : State) (name : String) : ScopeId → ScopeId → Prop
  | refl (id : ScopeId) : Hands s name id id
  | parent {id parent outer : ScopeId} (hlocal : s.isLocal id name = false)
      (hparent : (s.scope id).parent = some parent) (hlt : parent.index < id.index)
      (h : Hands s name parent outer) : Hands s name id outer

theorem Hands.trans {between : ScopeId} (h : s.Hands name inner between)
    (h' : s.Hands name between outer) : s.Hands name inner outer := by
  induction h with
  | refl => exact h'
  | parent hlocal hparent hlt _ ih => exact .parent hlocal hparent hlt (ih h')

theorem Hands.owner?_eq (h : s.Hands name inner outer) :
    s.owner? inner name = s.owner? outer name := by
  induction h with
  | refl => rfl
  | parent hlocal hparent hlt _ ih =>
    rw [owner?, if_neg (Bool.eq_false_iff.mp hlocal), hparent]
    exact (if_pos hlt).trans ih

/-! ### Names that are not bound -/

theorem exists_binding_of_owner? {id owner : ScopeId} (h : s.owner? id name = some owner) :
    ∃ b, (s.scope owner).bindings.get? name = some b := by
  induction id using owner?.induct s name with
  | case1 id hlocal =>
    rw [owner?, if_pos hlocal] at h
    cases h
    exact Option.isSome_iff_exists.mp hlocal
  | case2 id hlocal parent hparent hlt ih =>
    rw [owner?, if_neg hlocal, hparent] at h
    exact ih ((if_pos hlt).symm.trans h)
  | case3 id hlocal parent hparent hlt =>
    rw [owner?, if_neg hlocal, hparent] at h
    cases (if_neg hlt).symm.trans h
  | case4 id hlocal hparent =>
    rw [owner?, if_neg hlocal, hparent] at h
    cases h

theorem lookup_eq_unknown_iff {id : ScopeId} {line : Nat} :
    s.lookup id name line = .error (.unknownVariable name line) ↔ s.owner? id name = none := by
  rw [lookup, binding?]
  cases howner : s.owner? id name with
  | none => simp
  | some owner =>
    obtain ⟨b, hb⟩ := exists_binding_of_owner? howner
    simp [hb]

theorem assignment_eq_unknown_iff {id : ScopeId} {v : Value} {line : Nat} :
    s.assignment id name v line = .error (.unknownVariable name line) ↔
      s.owner? id name = none := by
  rw [assignment]
  cases howner : s.owner? id name with
  | none => simp
  | some owner =>
    obtain ⟨b, hb⟩ := exists_binding_of_owner? howner
    simp only [hb]
    split <;> simp

/-- In the inner scope the name means what it means in the outer one, and it is unknown if no scope
from there on binds it. -/
structure MeansAs (s : State) (name : String) (inner outer : ScopeId) : Prop where
  lookup_eq : ∀ line, s.lookup inner name line = s.lookup outer name line
  assignment_eq : ∀ v line, s.assignment inner name v line = s.assignment outer name v line
  lookup_unknown_iff : ∀ line,
    s.lookup inner name line = .error (.unknownVariable name line) ↔ s.owner? outer name = none
  assignment_unknown_iff : ∀ v line,
    s.assignment inner name v line = .error (.unknownVariable name line) ↔
      s.owner? outer name = none

theorem Hands.meansAs (h : s.Hands name inner outer) : s.MeansAs name inner outer where
  lookup_eq line := by rw [lookup, lookup, binding?, binding?, h.owner?_eq]
  assignment_eq v line := by rw [assignment, assignment, h.owner?_eq]
  lookup_unknown_iff line := lookup_eq_unknown_iff.trans (by rw [h.owner?_eq])
  assignment_unknown_iff v line := assignment_eq_unknown_iff.trans (by rw [h.owner?_eq])

/-! ### Binding arguments -/

section Declared

variable {id : ScopeId} {x : String} {v : Value} {pairs : List (String × Value)}

/-- Binds each name to its value, one after the other. -/
def declareAll (s : State) (id : ScopeId) (pairs : List (String × Value)) : State :=
  pairs.foldl (fun s pair => s.declare id pair.1 pair.2 false) s

theorem get?_declareAll_of_notMem (hid : id.index < s.scopes.size)
    (hx : x ∉ pairs.map Prod.fst) :
    ((s.declareAll id pairs).scope id).bindings.get? x = (s.scope id).bindings.get? x := by
  induction pairs generalizing s with
  | nil => rfl
  | cons pair rest ih =>
    rw [List.map_cons, List.mem_cons, not_or] at hx
    obtain ⟨hne, hrest⟩ := hx
    have hid' : id.index < (s.declare id pair.1 pair.2 false).scopes.size := by
      rwa [size_declare]
    exact (ih hid' hrest).trans (get?_declare_of_ne hne hid)

theorem get?_declareAll_of_mem (hid : id.index < s.scopes.size)
    (hdistinct : (pairs.map Prod.fst).Nodup) (h : (x, v) ∈ pairs) :
    ((s.declareAll id pairs).scope id).bindings.get? x = some ⟨v, false⟩ := by
  induction pairs generalizing s with
  | nil => cases h
  | cons pair rest ih =>
    obtain ⟨hfirst, hrest⟩ := List.nodup_cons.mp hdistinct
    have hid' : id.index < (s.declare id pair.1 pair.2 false).scopes.size := by
      rwa [size_declare]
    rcases List.mem_cons.mp h with rfl | h
    · exact (get?_declareAll_of_notMem hid' hfirst).trans (get?_declare_self hid)
    · exact ih hid' hrest h

end Declared

theorem map_fst_zip_eq_take {α β : Type} (as : List α) (bs : List β) :
    (as.zip bs).map Prod.fst = as.take bs.length := by
  induction as generalizing bs with
  | nil => simp
  | cons a rest ih =>
    cases bs with
    | nil => rfl
    | cons b others => simp [ih]

/-! ### Calls -/

section Calls

variable {f : Closure} {arguments : List Value} {x : String}

theorem grown_bindReceiver {scope : ScopeId} {receiver : Option Receiver} :
    s.Grown (s.bindReceiver scope receiver) := by
  unfold bindReceiver
  split
  · exact grown_declare
  · exact .refl

theorem get?_bindReceiver {scope : ScopeId} {receiver : Option Receiver}
    (hscope : scope.index < s.scopes.size) (hx : x ≠ "this") :
    ((s.bindReceiver scope receiver).scope scope).bindings.get? x =
      (s.scope scope).bindings.get? x := by
  unfold bindReceiver
  split
  · exact get?_declare_of_ne hx hscope
  · rfl

theorem grown_called : (s.deeper.enter .function f.scope).2.Grown (s.called f arguments).2 :=
  (stable_grown _).bindArguments trivial .refl

theorem parent_called :
    ((s.called f arguments).2.scope (s.called f arguments).1).parent = some f.scope :=
  (grown_called.parent_eq _ enter_fst_lt).trans (congrArg Scope.parent scope_newScope)

theorem enter_fst_lt_bindReceiver {kind : ScopeKind} {parent : ScopeId}
    {receiver : Option Receiver} :
    (s.enter kind parent).1.index <
      ((s.enter kind parent).2.bindReceiver (s.enter kind parent).1 receiver).scopes.size :=
  Nat.lt_of_lt_of_le enter_fst_lt grown_bindReceiver.size_le

theorem get?_called_of_mem {v : Value} (hdistinct : f.function.parameters.Nodup)
    (h : (x, v) ∈ f.function.parameters.zip arguments) :
    ((s.called f arguments).2.scope (s.called f arguments).1).bindings.get? x =
      some ⟨v, false⟩ := by
  have hnames : ((f.function.parameters.zip arguments).map Prod.fst).Nodup := by
    rw [map_fst_zip_eq_take]
    exact hdistinct.sublist (List.take_sublist _ _)
  let entered := s.deeper.enter .function f.scope
  have hscope : entered.1.index < (entered.2.bindReceiver entered.1 f.receiver).scopes.size :=
    enter_fst_lt_bindReceiver
  exact get?_declareAll_of_mem hscope hnames h

theorem isLocal_called_of_mem_drop (hdistinct : f.function.parameters.Nodup) (hthis : x ≠ "this")
    (hx : x ∈ f.function.parameters.drop arguments.length) :
    (s.called f arguments).2.isLocal (s.called f arguments).1 x = false := by
  let entered := s.deeper.enter .function f.scope
  have hnames : x ∉ (f.function.parameters.zip arguments).map Prod.fst := by
    rw [map_fst_zip_eq_take]
    exact fun htake => List.disjoint_take_drop hdistinct (Nat.le_refl _) htake hx
  have hbound : (((entered.2.bindReceiver entered.1 f.receiver).declareAll entered.1
      (f.function.parameters.zip arguments)).scope entered.1).bindings.get? x = none :=
    calc
      _ = ((entered.2.bindReceiver entered.1 f.receiver).scope entered.1).bindings.get? x :=
        get?_declareAll_of_notMem enter_fst_lt_bindReceiver hnames
      _ = (entered.2.scope entered.1).bindings.get? x := get?_bindReceiver enter_fst_lt hthis
      _ = none := congrArg (·.bindings.get? x) scope_newScope
  exact congrArg Option.isSome hbound

/-- A call reads its arguments under the names of the first parameters. As long as the body has not
declared it, the name of a parameter without an argument means what it means around the function. -/
theorem called_parameters {scope : ScopeId} {called : State} (line : Nat)
    (hcalled : s.called f arguments = (scope, called)) (hdistinct : f.function.parameters.Nodup)
    (hthis : "this" ∉ f.function.parameters) (hscope : f.scope.index < s.scopes.size) :
    (s.depth < s.maxDepth → ∃ resume,
      (Eval.callFunction f arguments line).run.run s =
        .ask (.block scope f.function.body, called) resume) ∧
    (∀ pair ∈ f.function.parameters.zip arguments, called.lookup scope pair.1 line = .ok pair.2) ∧
    ∀ x ∈ f.function.parameters.drop arguments.length,
      called.isLocal scope x = false ∧
      ∀ s' inner, (Eval.perform (.block scope f.function.body)).Passes called s' →
        s'.isLocal scope x = false → s'.Hands x inner scope → s'.MeansAs x inner f.scope := by
  obtain ⟨rfl, rfl⟩ := Prod.ext_iff.mp hcalled
  refine ⟨fun hdepth => ⟨_, Eval.callFunction_entered hdepth⟩,
    fun pair hpair => lookup_of_get? (get?_called_of_mem hdistinct hpair), fun x hx => ?_⟩
  have hne : x ≠ "this" := fun he => hthis (he ▸ List.mem_of_mem_drop hx)
  refine ⟨isLocal_called_of_mem_drop hdistinct hne hx, fun s' inner hpasses hlocal hhands => ?_⟩
  have hgrown : (s.called f arguments).2.Grown s' :=
    (stable_grown _).passes (e := .block _ _) .refl hpasses
  have hparent : (s'.scope (s.called f arguments).1).parent = some f.scope :=
    (hgrown.parent_eq _ (Nat.lt_of_lt_of_le enter_fst_lt grown_called.size_le)).trans parent_called
  exact (hhands.trans (.parent hlocal hparent hscope (.refl _))).meansAs

end Calls

/-- A scope that binds `b`. -/
def binding : State :=
  { initial 8 with scopes := #[⟨none, ⟨[("b", ⟨.bool true, false⟩)]⟩, false⟩] }

/-- A function with the parameters `a` and `b` that reads `b`, made in that scope. -/
def reading : Closure :=
  ⟨.mk 0 "f" ["a", "b"] [.expression (.place (.variable "b" 1)) 1] 1, ⟨0⟩, none⟩

/-- Called with one argument, the function starts from where `b` means what it means around it. -/
theorem reading_meansAs :
    reading.function.parameters.Nodup ∧
      (binding.called reading [.null]).2.MeansAs "b" (binding.called reading [.null]).1 ⟨0⟩ := by
  have hdistinct : reading.function.parameters.Nodup := by decide
  have hthis : "this" ∉ reading.function.parameters := by decide
  have hscope : reading.scope.index < binding.scopes.size := by decide
  have hcalled : binding.called reading [.null] = (_, _) := rfl
  obtain ⟨-, -, hlater⟩ := called_parameters 1 hcalled hdistinct hthis hscope
  obtain ⟨hlocal, hmeans⟩ := hlater "b" (by decide)
  exact ⟨hdistinct, hmeans _ _ ⟨[], _, .start, rfl⟩ hlocal (.refl _)⟩

/-- A call without an argument for `b` reads the `b` around the function and raises no error. -/
theorem callFunction_reads_outer :
    (∃ s', (Eval.callFunction reading [.null] 1).Ends binding (.ok (.bool true)) s') ∧
      ∀ line s', ¬ (Eval.callFunction reading [.null] 1).Ends binding
        (.error (.raised (.fault (.unknownVariable "b" line)))) s' := by
  let scope := (binding.called reading [.null]).1
  let called := (binding.called reading [.null]).2
  have houter : called.Hands "b" scope ⟨0⟩ := .parent rfl rfl (by decide) (.refl _)
  have hget : (called.scope ⟨0⟩).bindings.get? "b" = some ⟨.bool true, false⟩ := rfl
  have hlookup : called.lookup scope "b" 1 = .ok (.bool true) :=
    (houter.meansAs.lookup_eq 1).trans (lookup_of_get? hget)
  have hread : (Eval.expression scope (.place (.variable "b" 1))).Gives called (.bool true)
      called :=
    .perform (Eval.gives_inspect hlookup)
  have hbody : (Eval.body (.block scope reading.function.body)).Gives called (.bool true) called :=
    hread.bind Eval.gives_pure
  have hends : Dialogue.Ends Eval.answer ((Eval.callFunction reading [.null] 1).run.run binding)
      (.ok (.bool true), called.shallower) := by
    rw [Eval.callFunction_entered (by decide)]
    exact .ask hbody (.answer _)
  refine ⟨⟨_, Dialogue.exists_drive_iff_ends.mpr hends⟩, fun line s' hraised => ?_⟩
  cases hends.unique (Dialogue.exists_drive_iff_ends.mp hraised)

end State

end ScriptLang
