import ScriptLang.Proofs.Contract
import ScriptLang.Proofs.DatumText

/-! The display form of data, run as a program, gives the data back. Expressions that write data out only
make new cells, so what was there before still stands for the same data. -/

namespace ScriptLang

/-! ### Cells that stay -/

/-- All containers still hold what they held. -/
def State.Keeps (s s' : State) : Prop :=
  ∀ c contents, s.contents? c = some contents → s'.contents? c = some contents

namespace State

variable {s s' s'' : State}

theorem Keeps.refl : s.Keeps s :=
  fun _ _ => id

theorem Keeps.trans (h : s.Keeps s') (h' : s'.Keeps s'') : s.Keeps s'' :=
  fun c contents hc => h' c contents (h c contents hc)

theorem keeps_newArray {items : Array Value} : s.Keeps (s.newArray items).2 := by
  intro c contents hc
  cases c with
  | array id =>
    obtain ⟨old, hold, hcontents⟩ := Option.map_eq_some_iff.mp hc
    have hlt := (Array.getElem?_eq_some_iff.mp hold).1
    refine Option.map_eq_some_iff.mpr ⟨old, ?_, hcontents⟩
    exact (Array.getElem?_push_lt hlt).trans (by rw [← hold, Array.getElem?_eq_getElem hlt])
  | object id => exact hc
  | inst id => exact hc

theorem contents?_newArray {items : Array Value} :
    (s.newArray items).2.contents? (.array ⟨s.arrays.size⟩) = some (.elements items.toList) := by
  simp [newArray, contents?]

theorem keeps_newObject {properties : Record Value} : s.Keeps (s.newObject properties).2 := by
  intro c contents hc
  cases c with
  | object id =>
    obtain ⟨old, hold, hcontents⟩ := Option.map_eq_some_iff.mp hc
    have hlt := (Array.getElem?_eq_some_iff.mp hold).1
    refine Option.map_eq_some_iff.mpr ⟨old, ?_, hcontents⟩
    exact (Array.getElem?_push_lt hlt).trans (by rw [← hold, Array.getElem?_eq_getElem hlt])
  | array id => exact hc
  | inst id => exact hc

theorem contents?_newObject {properties : Record Value} :
    (s.newObject properties).2.contents? (.object ⟨s.objects.size⟩) = some (.properties properties) := by
  simp [newObject, contents?]

end State

namespace Datum

theorem forall₂_imp_of_mem {α β : Type} {R S : α → β → Prop} {as : List α} {bs : List β}
    (h : List.Forall₂ R as bs) (hRS : ∀ a ∈ as, ∀ b, R a b → S a b) : List.Forall₂ S as bs := by
  induction h with
  | nil => exact .nil
  | cons hab _ ih =>
    exact .cons (hRS _ List.mem_cons_self _ hab) (ih fun a ha => hRS a (List.mem_cons_of_mem _ ha))

theorem Denotes.mono {s s' : State} {d : Datum} {v : Value} (h : d.Denotes s v) (hs : s.Keeps s') :
    d.Denotes s' v := by
  induction d generalizing v with
  | null | bool | number | string =>
    cases h
    constructor
  | array items ih =>
    cases h with
    | array hcell h => exact .array (hs _ _ hcell) (forall₂_imp_of_mem h fun d hd _ => ih d hd)
  | object properties ih =>
    cases h with
    | object hcell hkeys h =>
      refine .object (hs _ _ hcell) hkeys (forall₂_imp_of_mem h fun d hd _ => ?_)
      obtain ⟨p, hp, rfl⟩ := List.mem_map.mp hd
      exact ih p hp

end Datum

/-- The containers hold what they held, and scopes are as they were. -/
structure State.Grows (s s' : State) : Prop where
  keeps : s.Keeps s'
  scopes_eq : s'.scopes = s.scopes

namespace State

variable {s s' s'' : State} {scope : ScopeId}

theorem Grows.refl : s.Grows s :=
  ⟨.refl, rfl⟩

theorem Grows.trans (h : s.Grows s') (h' : s'.Grows s'') : s.Grows s'' :=
  ⟨h.keeps.trans h'.keeps, h'.scopes_eq.trans h.scopes_eq⟩

theorem Grows.scope_eq (h : s.Grows s') : s'.scope scope = s.scope scope :=
  congrArg (fun scopes : Array Scope => scopes.getD scope.index default) h.scopes_eq

/-! ### The names of scalars -/

/-- The scope binds the names that scalars are written with. -/
structure BindsScalars (s : State) (scope : ScopeId) : Prop where
  null : (s.scope scope).bindings.get? "null" = some ⟨.null, true⟩
  bool (b : Bool) :
    (s.scope scope).bindings.get? (if b then "true" else "false") = some ⟨.bool b, true⟩

theorem BindsScalars.grows (h : s.BindsScalars scope) (hs : s.Grows s') : s'.BindsScalars scope :=
  ⟨hs.scope_eq ▸ h.null, fun b => hs.scope_eq ▸ h.bool b⟩

theorem get?_natives {name : String} {entries : List (String × Builtin)}
    (hne : ∀ entry ∈ entries, name ≠ entry.1) (h : scope.index < s.scopes.size) :
    ((entries.foldl (fun s entry => (s.declareNative scope entry.1 entry.2).2) s).scope
      scope).bindings.get? name = (s.scope scope).bindings.get? name := by
  induction entries generalizing s with
  | nil => rfl
  | cons entry rest ih =>
    obtain ⟨hfirst, hrest⟩ := List.forall_mem_cons.mp hne
    have hsize : (s.declareNative scope entry.1 entry.2).2.scopes.size = s.scopes.size :=
      size_declare
    rw [List.foldl_cons, ih hrest (hsize ▸ h)]
    exact get?_declare_of_ne hfirst h

theorem bindsScalars_newGlobal : s.newGlobal.2.BindsScalars s.newGlobal.1 := by
  have hroot : s.newRoot.1.index < s.newRoot.2.scopes.size := by simp [newRoot, newScope]
  have hboth : s.newRoot.1.index <
      (s.newRoot.2.declare s.newRoot.1 "true" (.bool true) true).scopes.size := by
    simpa only [size_declare] using hroot
  have hall : s.newRoot.1.index < ((s.newRoot.2.declare s.newRoot.1 "true" (.bool true) true).declare
      s.newRoot.1 "false" (.bool false) true).scopes.size := by
    simpa only [size_declare] using hboth
  have hnames : ∀ name, (∀ entry ∈ Builtin.prelude, name ≠ entry.1) →
      (s.newGlobal.2.scope s.newGlobal.1).bindings.get? name =
        ((((s.newRoot.2.declare s.newRoot.1 "true" (.bool true) true).declare s.newRoot.1
          "false" (.bool false) true).declare s.newRoot.1 "null" .null true).scope
            s.newRoot.1).bindings.get? name :=
    fun name hname => get?_natives hname (by simp)
  refine ⟨?_, fun b => ?_⟩
  · rw [hnames _ (by decide), get?_declare_self hall]
  cases b with
  | false =>
    rw [if_neg Bool.false_ne_true, hnames _ (by decide), get?_declare_of_ne (by decide) hall,
      get?_declare_self hboth]
  | true =>
    rw [if_pos rfl, hnames _ (by decide), get?_declare_of_ne (by decide) hall,
      get?_declare_of_ne (by decide) hboth, get?_declare_self hroot]

theorem keeps_declare {name : String} {v : Value} {constant : Bool} :
    s.Keeps (s.declare scope name v constant) := by
  intro c contents hc
  cases c <;> exact hc

theorem keeps_natives {entries : List (String × Builtin)} :
    s.Keeps (entries.foldl (fun s entry => (s.declareNative scope entry.1 entry.2).2) s) := by
  induction entries generalizing s with
  | nil => exact .refl
  | cons entry rest ih =>
    have hinstall : s.Keeps (s.install entry.1 entry.2).2 := by
      intro c contents hc
      cases c <;> exact hc
    exact (hinstall.trans keeps_declare).trans ih

theorem keeps_newGlobal : s.Keeps s.newGlobal.2 := by
  have hroot : s.Keeps s.newRoot.2 := by
    intro c contents hc
    cases c <;> exact hc
  exact (((hroot.trans keeps_declare).trans keeps_declare).trans keeps_declare).trans keeps_natives

theorem keeps_load {source : Source} : s.Keeps (s.load source).2 := by
  intro c contents hc
  cases c <;> exact hc

theorem BindsScalars.load {source : Source} (h : s.BindsScalars scope) :
    (s.load source).2.BindsScalars scope :=
  ⟨h.null, h.bool⟩

end State

/-! ### Expressions that write data out -/

namespace Eval

/-- What each part of a list gives stays so while the other parts are evaluated. -/
theorem exists_gives_mapM {α β γ : Type} {f : β → Eval γ} {holds : State → Prop}
    {R : α → State → γ → Prop} {as : List α} {bs : List β} {s : State}
    (hR : ∀ a s s' c, R a s c → s.Grows s' → R a s' c)
    (hholds : ∀ s s', holds s → s.Grows s' → holds s')
    (h : List.Forall₂ (fun a b => ∀ s, holds s → ∃ c s', (f b).Gives s c s' ∧ s.Grows s' ∧ R a s' c)
      as bs) (hs : holds s) :
    ∃ cs s', (bs.mapM f).Gives s cs s' ∧ s.Grows s' ∧ List.Forall₂ (R · s' ·) as cs := by
  induction h generalizing s with
  | nil => exact ⟨[], s, gives_pure, .refl, .nil⟩
  | cons hab _ ih =>
    obtain ⟨c, s', hc, hgrows, hRc⟩ := hab s hs
    obtain ⟨cs, s'', hcs, hgrows', hRcs⟩ := ih (hholds s s' hs hgrows)
    refine ⟨c :: cs, s'', ?_, hgrows.trans hgrows', .cons (hR _ _ _ _ hRc hgrows') hRcs⟩
    rw [List.mapM_cons]
    exact hc.bind (hcs.bind gives_pure)

end Eval

open Eval

namespace Datum

variable {scope : ScopeId}

theorem gives_variable {s : State} {name : String} {b : Binding} {line : Nat}
    (h : (s.scope scope).bindings.get? name = some b) :
    (expression scope (.place (.variable name line))).Gives s b.value s := by
  have hread : (inspect (·.lookup scope name line)).Gives s b.value s :=
    gives_inspect (State.lookup_of_get? h)
  exact Gives.perform hread

theorem gives_array {s s' : State} {elements : List (Expr Nat)} {values : List Value} {line : Nat}
    (h : (expressions scope elements).Gives s values s') :
    (expression scope (.array elements line)).Gives s (s'.newArray values.toArray).1
      (s'.newArray values.toArray).2 := by
  have hcreate : (create (·.newArray values.toArray)).Gives s' (s'.newArray values.toArray).1
      (s'.newArray values.toArray).2 := gives_create
  exact Gives.perform (h.bind hcreate)

theorem gives_object {s s' : State} {fields : List (String × Expr Nat)}
    {values : List (String × Value)} {line : Nat}
    (h : (fields.mapM fun (name, e) => return (name, ← expression scope e) :
      Eval (List (String × Value))).Gives s values s') :
    (expression scope (.object fields line)).Gives s (s'.newObject (.ofList values)).1
      (s'.newObject (.ofList values)).2 := by
  have hcreate : (create (·.newObject (.ofList values))).Gives s' (s'.newObject (.ofList values)).1
      (s'.newObject (.ofList values)).2 := gives_create
  exact Gives.perform (h.bind hcreate)

/-- Where the scalars have their names, the expression gives a value that stands for the datum, and old
cells stay. -/
def Given (scope : ScopeId) (d : Datum) (e : Expr Nat) : Prop :=
  ∀ s : State, s.BindsScalars scope →
    ∃ v s', (expression scope e).Gives s v s' ∧ s.Grows s' ∧ d.Denotes s' v

theorem given_array {items : List Datum} {elements : List (Expr Nat)} {line : Nat}
    (h : List.Forall₂ (Given scope) items elements) :
    Given scope (array items) (.array elements line) := by
  intro s hs
  obtain ⟨values, s', hvalues, hgrows, hdenotes⟩ := exists_gives_mapM
    (fun _ _ _ _ hd hs => hd.mono hs.keeps) (fun _ _ => State.BindsScalars.grows) h hs
  have hnew : s'.Grows (s'.newArray values.toArray).2 := ⟨State.keeps_newArray, rfl⟩
  refine ⟨_, _, gives_array hvalues, hgrows.trans hnew, ?_⟩
  refine .array State.contents?_newArray (forall₂_imp_of_mem hdenotes fun d _ v hv => ?_)
  exact hv.mono hnew.keeps

theorem given_object {properties : List (String × Datum)} {fields : List (String × Expr Nat)}
    {line : Nat} (hdistinct : (properties.map Prod.fst).Nodup)
    (h : List.Forall₂ (fun p field => p.1 = field.1 ∧ Given scope p.2 field.2) properties fields) :
    Given scope (object properties) (.object fields line) := by
  intro s hs
  have hfields : List.Forall₂ (fun p field => ∀ s : State, s.BindsScalars scope → ∃ entry s',
      (do return (field.1, ← expression scope field.2) : Eval (String × Value)).Gives s entry s' ∧
        s.Grows s' ∧ p.1 = entry.1 ∧ p.2.Denotes s' entry.2) properties fields := by
    refine forall₂_imp_of_mem h ?_
    rintro p - field ⟨hkey, hgiven⟩ s hs
    obtain ⟨v, s', hv, hgrows, hdenotes⟩ := hgiven s hs
    exact ⟨(field.1, v), s', hv.bind gives_pure, hgrows, hkey, hdenotes⟩
  obtain ⟨values, s', hvalues, hgrows, hdenotes⟩ := exists_gives_mapM
    (fun _ _ _ _ hd hs => ⟨hd.1, hd.2.mono hs.keeps⟩) (fun _ _ => State.BindsScalars.grows)
    hfields hs
  obtain ⟨hnames, hparts⟩ := forall₂_pairs_iff.mp hdenotes
  have hnew : s'.Grows (s'.newObject (.ofList values)).2 := ⟨State.keeps_newObject, rfl⟩
  have hentries : (Record.ofList values).entries = values :=
    Record.entries_ofList (hnames ▸ hdistinct)
  refine ⟨_, _, gives_object hvalues, hgrows.trans hnew, ?_⟩
  refine .object State.contents?_newObject (by rw [Record.keys, hentries, hnames]) ?_
  rw [hentries]
  exact forall₂_imp_of_mem hparts fun d _ v hv => hv.mono hnew.keeps

/-- An expression that writes a datum out gives a value that stands for it. -/
theorem Written.given {d : Datum} {e : Expr Nat} (h : d.Written e) (hd : d.Printable) :
    Given scope d e := by
  induction d generalizing e with
  | null =>
    cases h
    exact fun s hs => ⟨.null, s, gives_variable hs.null, .refl, .null⟩
  | bool b =>
    cases h
    exact fun s hs => ⟨.bool b, s, gives_variable (hs.bool b), .refl, .bool b⟩
  | number x =>
    cases h
    exact fun s _ => ⟨.number x, s, gives_pure.perform, .refl, .number x⟩
  | string text =>
    cases h
    exact fun s _ => ⟨.string text, s, gives_pure.perform, .refl, .string text⟩
  | array items ih =>
    cases h with
    | array h =>
      cases hd with
      | array hitems =>
        exact given_array (forall₂_imp_of_mem h fun d hmem e he => ih d hmem he (hitems d hmem))
  | object properties ih =>
    cases h with
    | object hkeys h =>
      cases hd with
      | object _ hdistinct hproperties =>
        refine given_object hdistinct (forall₂_imp_of_mem (forall₂_pairs_iff.mpr ⟨hkeys.symm, h⟩) ?_)
        exact fun p hp field hfield => ⟨hfield.1, ih p hp hfield.2 (hproperties p hp)⟩

/-! ### Programs that write data out -/

section Numbering

variable {ι : Type}

theorem written_exprs {items : List Datum} {elements : List (Expr ι)}
    (h : List.Forall₂ Written items elements)
    (hwritten : ∀ d ∈ items, ∀ (e : Expr ι) n, d.Written e → d.Written ((Numbering.expr e).run n).1)
    (n : Nat) : List.Forall₂ Written items ((Numbering.exprs elements).run n).1 := by
  induction h generalizing n with
  | nil => exact .nil
  | cons he _ ih =>
    exact .cons (hwritten _ List.mem_cons_self _ _ he)
      (ih (fun d hd => hwritten d (List.mem_cons_of_mem _ hd)) _)

theorem written_fields {properties : List (String × Datum)} {fields : List (String × Expr ι)}
    (h : List.Forall₂ (fun p field => p.1 = field.1 ∧ p.2.Written field.2) properties fields)
    (hwritten : ∀ p ∈ properties, ∀ (e : Expr ι) n, p.2.Written e →
      p.2.Written ((Numbering.expr e).run n).1) (n : Nat) :
    List.Forall₂ (fun p field => p.1 = field.1 ∧ p.2.Written field.2) properties
      ((Numbering.fields fields).run n).1 := by
  induction h generalizing n with
  | nil => exact .nil
  | @cons _ field _ _ he _ ih =>
    obtain ⟨name, e⟩ := field
    exact .cons ⟨he.1, hwritten _ List.mem_cons_self _ _ he.2⟩
      (ih (fun p hp => hwritten p (List.mem_cons_of_mem _ hp)) _)

theorem Written.identified {d : Datum} {e : Expr ι} (h : d.Written e) (n : Nat) :
    d.Written ((Numbering.expr e).run n).1 := by
  induction d generalizing e n with
  | null =>
    cases h
    exact .null
  | bool b =>
    cases h
    exact .bool
  | number x =>
    cases h
    exact .number
  | string text =>
    cases h
    exact .string
  | array items ih =>
    cases h with
    | array h => exact .array (written_exprs h (fun d hd e n he => ih d hd he n) n)
  | object properties ih =>
    cases h with
    | object hkeys h =>
      have hfields := written_fields (forall₂_pairs_iff.mpr ⟨hkeys.symm, h⟩)
        (fun p hp e n he => ih p hp he n) n
      obtain ⟨hnames, hwritten⟩ := forall₂_pairs_iff.mp hfields
      exact .object hnames.symm hwritten

end Numbering

theorem gives_program {s s' : State} {e : Expr Nat} {v : Value} {line : Nat}
    (h : (expression scope e).Gives s v s') :
    (perform (.block scope [.expression e line])).Gives s v s' := by
  have hprogram : (executeAll scope .null [.expression e line]).Gives s v s' := h.bind gives_pure
  exact Gives.perform hprogram

theorem Denotes.exists_container {s s' : State} {d : Datum} {c : Container} {w : Value}
    (hc : d.Denotes s (.container c)) (hw : d.Denotes s' w) : ∃ c', w = .container c' := by
  cases hc <;> cases hw <;> exact ⟨_, rfl⟩

end Datum

/-- The display form of an array or an object that is a finite tree of data is a program. In a fresh
global scope it ends with a value that is equal to the container and has the same display form. -/
theorem State.run_display {s : State} {d : Datum} {c : Container} (hc : d.Denotes s (.container c))
    (hd : d.Printable) :
    ∃ source w s', parse (s.display (.container c)) = .ok source ∧
      (Eval.perform (.block s.newGlobal.1 (s.newGlobal.2.load source).1)).Ends
        (s.newGlobal.2.load source).2 (.ok w) s' ∧
      s'.equal w (.container c) = true ∧ s'.display w = s.display (.container c) ∧ s.Keeps s' := by
  obtain ⟨e, line, hwritten, hparse⟩ := hd.parse
  have hnames : (s.newGlobal.2.load [.expression e line]).2.BindsScalars s.newGlobal.1 :=
    bindsScalars_newGlobal.load
  have hkeeps : s.Keeps (s.newGlobal.2.load [.expression e line]).2 := keeps_newGlobal.trans keeps_load
  obtain ⟨w, s', hgives, hgrows, hdenotes⟩ :=
    (hwritten.identified s.newGlobal.2.nextFunction).given hd _ hnames
  have hcontainer := hc.mono (hkeeps.trans hgrows.keeps)
  obtain ⟨c', rfl⟩ := hc.exists_container hdenotes
  refine ⟨[.expression e line], .container c', s', by rw [hc.display_eq, hparse],
    (Datum.gives_program hgives).ends,
    hdenotes.equalIn hd hcontainer, ?_, hkeeps.trans hgrows.keeps⟩
  rw [hdenotes.display_eq, hc.display_eq]

/-- An object with an array inside. -/
def shelf : State :=
  { State.initial 0 with
    arrays := #[#[.number 1.5, .string "x"]]
    objects := #[⟨[("items", .array ⟨0⟩), ("null", .null)]⟩] }

def shelfDatum : Datum :=
  .object [("items", .array [.number 1.5, .string "x"]), ("null", .null)]

theorem shelf_denotes : shelfDatum.Denotes shelf (.object ⟨0⟩) := by
  have hitems : (Datum.array [.number 1.5, .string "x"]).Denotes shelf (.array ⟨0⟩) :=
    .array rfl (.cons (.number _) (.cons (.string _) .nil))
  exact .object rfl rfl (.cons hitems (.cons .null .nil))

theorem shelf_printable : shelfDatum.Printable := by
  have hnumber : (Datum.number 1.5).Printable := .number (by decide +kernel) (by decide +kernel)
  have hitems : (Datum.array [.number 1.5, .string "x"]).Printable := by
    refine .array (List.forall_mem_cons.mpr ⟨hnumber, List.forall_mem_singleton.mpr ?_⟩)
    exact .string (by decide)
  have hname : ∀ name ∈ ["items", "null"], HasKind name.toList (some .identifier) := by
    refine List.forall_mem_cons.mpr ⟨?_, List.forall_mem_singleton.mpr ?_⟩
    all_goals
      exact Lexer.hasKind_wordKind (Pattern.matches_run.mpr ⟨_, _, rfl, rfl, List.all_eq_true.mp rfl⟩)
  refine .object (fun p hp => hname p.1 ?_) (by decide) ?_
  · exact List.mem_map_of_mem (f := Prod.fst) hp
  · exact List.forall_mem_cons.mpr ⟨hitems, List.forall_mem_singleton.mpr .null⟩

theorem run_shelf :
    shelfDatum.Denotes shelf (.object ⟨0⟩) ∧ shelfDatum.Printable ∧
    ∃ source w s', parse (shelf.display (.object ⟨0⟩)) = .ok source ∧
      (Eval.perform (.block shelf.newGlobal.1 (shelf.newGlobal.2.load source).1)).Ends
        (shelf.newGlobal.2.load source).2 (.ok w) s' ∧
      s'.equal w (.object ⟨0⟩) = true ∧ s'.display w = shelf.display (.object ⟨0⟩) ∧
      shelf.Keeps s' :=
  ⟨shelf_denotes, shelf_printable, State.run_display shelf_denotes shelf_printable⟩

end ScriptLang
