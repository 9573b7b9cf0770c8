import Mathlib
import ScriptLang.Value.Display

/-! The display form is that of a finite tree: the heap unfolded from a value, with a mark instead of each
container that is met again inside of itself. Where there are no cycles nothing is replaced, and the tree
does not tell which cells the containers are. -/

namespace ScriptLang

/-! ### Trees -/

/-- What a value looks like, without any references. -/
inductive Figure
  | null
  | bool (b : Bool)
  | number (x : Float)
  | string (text : String)
  | function (name : String)
  | native (name : String)
  | classRef (name : String)
  | enumeration (name : String)
  | member (enum name : String)
  | tagged (enum name : String) (payload : Figure)
  | array (items : List Figure)
  | object (properties : List (String × Figure))
  | inst (className : String) (fields : List (String × Figure))
  | elidedArray
  | elidedRecord
  | missing

namespace Figure

def braced (texts : List String) : String :=
  if texts.isEmpty then "\x7b\x7d" else "\x7b " ++ ", ".intercalate texts ++ " \x7d"

mutual

/-- Strings stand in quotes, except for a string that stands alone. -/
def render (nested : Bool) : Figure → String
  | null => "null"
  | bool b => if b then "true" else "false"
  | number x => Number.Style.display.text x
  | string text => if nested then "\"" ++ text ++ "\"" else text
  | function name => "fn " ++ name
  | native name => "native fn " ++ name
  | classRef name => "class " ++ name
  | enumeration name => "enum " ++ name
  | member enum name => enum ++ "." ++ name
  | tagged enum name payload => enum ++ "." ++ name ++ "(" ++ payload.render true ++ ")"
  | array items => "[" ++ ", ".intercalate (renderItems items) ++ "]"
  | object properties => braced (renderProperties properties)
  | inst className fields => className ++ " " ++ braced (renderProperties fields)
  | elidedArray => "[...]"
  | elidedRecord => "\x7b...\x7d"
  | missing => ""

def renderItems : List Figure → List String
  | [] => []
  | t :: rest => t.render true :: renderItems rest

def renderProperties : List (String × Figure) → List String
  | [] => []
  | (key, t) :: rest => (key ++ ": " ++ t.render true) :: renderProperties rest

end

theorem renderItems_eq (items : List Figure) : renderItems items = items.map (·.render true) := by
  induction items with
  | nil => rfl
  | cons t rest ih => rw [renderItems, ih, List.map_cons]

theorem renderProperties_zip (keys : List String) (values : List Figure) :
    renderProperties (keys.zip values) =
      List.zipWith (fun key text => key ++ ": " ++ text) keys (values.map (·.render true)) := by
  induction keys generalizing values with
  | nil => rfl
  | cons key rest ih =>
    cases values with
    | nil => rfl
    | cons t others => rw [List.zip_cons_cons, renderProperties, ih, List.map_cons, List.zipWith_cons_cons]

/-- The mark that stands for a container. -/
def elided : Container → Figure
  | .array _ => elidedArray
  | .object _ | .inst _ => elidedRecord

end Figure

/-! ### Unfolding the heap -/

namespace Contents

def values : Contents → List Value
  | elements items => items
  | properties record | fields _ record => record.entries.map Prod.snd

/-- The tree of a container, given those of its parts. -/
def figure (s : State) : Contents → List Figure → Figure
  | elements _, parts => .array parts
  | properties record, parts => .object (record.keys.zip parts)
  | fields id record, parts => .inst (s.classOf id).name (record.keys.zip parts)

end Contents

/-- Which containers a mark is put for, inside of which containers. -/
abbrev Elision : Type :=
  List Container → Container → Prop

namespace Elision

/-- A container that is met again inside of itself. -/
def revisited : Elision :=
  fun path c => c ∈ path

def never : Elision :=
  fun _ _ => False

end Elision

/-- The tree from a value on that stands inside of the containers `path`. -/
inductive State.Unfolds (s : State) (elides : Elision) : List Container → Value → Figure → Prop
  | null {path : List Container} : Unfolds s elides path .null .null
  | bool {path : List Container} (b : Bool) : Unfolds s elides path (.bool b) (.bool b)
  | number {path : List Container} (x : Float) : Unfolds s elides path (.number x) (.number x)
  | string {path : List Container} (text : String) : Unfolds s elides path (.string text) (.string text)
  | function {path : List Container} (f : Closure) :
      Unfolds s elides path (.function f) (.function f.function.name)
  | native {path : List Container} (f : Native) : Unfolds s elides path (.native f) (.native f.name)
  | classRef {path : List Container} (id : ClassId) :
      Unfolds s elides path (.classRef id) (.classRef (s.classOf id).name)
  | enumeration {path : List Container} (e : Enumeration) :
      Unfolds s elides path (.enumeration e) (.enumeration e.name)
  | member {path : List Container} (m : Member) :
      Unfolds s elides path (.member m) (.member m.enumeration.name m.name)
  | tagged {path : List Container} {payload : Value} {t : Figure} (m : Member)
      (h : Unfolds s elides path payload t) :
      Unfolds s elides path (.tagged m payload) (.tagged m.enumeration.name m.name t)
  | elided {path : List Container} {c : Container} (h : elides path c) :
      Unfolds s elides path (.container c) (.elided c)
  | missing {path : List Container} {c : Container} (h : ¬ elides path c)
      (hcell : s.contents? c = none) : Unfolds s elides path (.container c) .missing
  | contents {path : List Container} {c : Container} {contents : Contents}
      {parts : List (Value × Figure)} (h : ¬ elides path c) (hcell : s.contents? c = some contents)
      (hvalues : contents.values = parts.map Prod.fst)
      (hparts : ∀ p ∈ parts, Unfolds s elides (c :: path) p.1 p.2) :
      Unfolds s elides path (.container c) (contents.figure s (parts.map Prod.snd))

theorem map_snd_eq_of_map_fst_eq {α β : Type} {ps qs : List (α × β)}
    (hfst : ps.map Prod.fst = qs.map Prod.fst)
    (h : ∀ p ∈ ps, ∀ q ∈ qs, p.1 = q.1 → p.2 = q.2) : ps.map Prod.snd = qs.map Prod.snd := by
  induction ps generalizing qs with
  | nil =>
    rw [List.map_eq_nil_iff.mp hfst.symm]
  | cons p ps ih =>
    cases qs with
    | nil => cases hfst
    | cons q qs =>
      obtain ⟨hfirst, hrest⟩ := List.cons.inj hfst
      rw [List.map_cons, List.map_cons, h p List.mem_cons_self q List.mem_cons_self hfirst,
        ih hrest fun p hp q hq => h p (List.mem_cons_of_mem _ hp) q (List.mem_cons_of_mem _ hq)]

namespace State

variable {s : State} {elides : Elision} {path : List Container} {v : Value} {t t' : Figure}

theorem Unfolds.unique (h : s.Unfolds elides path v t) (h' : s.Unfolds elides path v t') : t = t' := by
  induction h generalizing t' with
  | tagged m _ ih =>
    cases h' with
    | tagged _ h' => rw [ih h']
  | elided helided =>
    cases h' with
    | elided => rfl
    | missing hnot => exact absurd helided hnot
    | contents hnot => exact absurd helided hnot
  | missing hnot hcell =>
    cases h' with
    | elided helided => exact absurd helided hnot
    | missing => rfl
    | contents _ hcell' => cases hcell.symm.trans hcell'
  | contents hnot hcell hvalues _ ih =>
    cases h' with
    | elided helided => exact absurd helided hnot
    | missing _ hcell' => cases hcell.symm.trans hcell'
    | contents _ hcell' hvalues' hparts' =>
      cases hcell.symm.trans hcell'
      have hparts := map_snd_eq_of_map_fst_eq (hvalues.symm.trans hvalues') fun p hp q hq hpq =>
        ih p hp (hpq ▸ hparts' q hq)
      rw [hparts]
  | _ =>
    cases h'
    rfl

theorem exists_unfolds (s : State) (path : List Container) (v : Value) :
    ∃ t, s.Unfolds .revisited path v t := by
  -- Each container on the way down leaves fewer to open, and between two of them only payloads are taken
  -- apart, by induction on the value.
  induction hcount : unseen s.containers path using Nat.strongRecOn generalizing path v with
  | ind count ihpath =>
    induction v with
    | container c =>
      by_cases hopen : c ∈ path
      · exact ⟨_, .elided hopen⟩
      cases hcell : s.contents? c with
      | none => exact ⟨_, .missing hopen hcell⟩
      | some contents =>
        have hless : unseen s.containers (c :: path) < count :=
          hcount ▸ unseen_cons_lt (mem_containers_of_contents? hcell) hopen
        choose part hpart using fun v => ihpath _ hless (c :: path) v rfl
        have hvalues : contents.values = (contents.values.map fun v => (v, part v)).map Prod.fst := by
          simp [Function.comp_def]
        refine ⟨_, .contents hopen hcell hvalues fun p hp => ?_⟩
        obtain ⟨v, -, rfl⟩ := List.mem_map.mp hp
        exact hpart v
    | tagged m payload ih =>
      obtain ⟨t, ht⟩ := ih
      exact ⟨_, .tagged m ht⟩
    | _ => exact ⟨_, by constructor⟩

/-! ### The display form -/

theorem displayIn_container {nested : Bool} {c : Container} {contents : Contents} (hc : c ∉ path)
    (hcell : s.contents? c = some contents) :
    s.displayIn path nested (.container c) =
      (Layout.ofContents s contents).opening ++
        ", ".intercalate ((Layout.ofContents s contents).parts.map fun part =>
          part.1 ++ s.displayIn (c :: path) true part.2) ++
        (Layout.ofContents s contents).closing := by
  rw [displayIn, dif_neg hc]
  split
  · next hnone => cases hnone.symm.trans hcell
  · next hsome =>
    cases hsome.symm.trans hcell
    rfl

end State

theorem Layout.braced_eq {record : Record Value} {parts : List Figure} {text : Value → String}
    (h : parts.map (·.render true) = record.entries.map fun entry => text entry.2) :
    Figure.braced (Figure.renderProperties (record.keys.zip parts)) =
      (ofRecord record).opening ++
        ", ".intercalate ((ofRecord record).parts.map fun part => part.1 ++ text part.2) ++
        (ofRecord record).closing := by
  have htexts : Figure.renderProperties (record.keys.zip parts) =
      record.entries.map fun entry => entry.1 ++ ": " ++ text entry.2 := by
    rw [Figure.renderProperties_zip, h, Record.keys, List.zipWith_map, List.zipWith_self]
  rw [htexts]
  obtain ⟨_ | ⟨entry, entries⟩⟩ := record
  · rfl
  · simp [Figure.braced, ofRecord, Record.isEmpty, Function.comp_def]

/-- A container is written as its tree is if its parts are written as theirs. -/
theorem Contents.render_figure {s : State} {contents : Contents} {parts : List Figure}
    {text : Value → String} {nested : Bool} (h : parts.map (·.render true) = contents.values.map text) :
    (contents.figure s parts).render nested =
      (Layout.ofContents s contents).opening ++
        ", ".intercalate ((Layout.ofContents s contents).parts.map fun part => part.1 ++ text part.2) ++
        (Layout.ofContents s contents).closing := by
  cases contents with
  | elements items =>
    rw [figure, Figure.render, Figure.renderItems_eq, h]
    simp [Layout.ofContents, values, Function.comp_def]
  | properties record =>
    rw [figure, Figure.render]
    exact Layout.braced_eq (by simpa [values, Function.comp_def] using h)
  | fields id record =>
    rw [figure, Figure.render, Layout.braced_eq (by simpa [values, Function.comp_def] using h)]
    simp only [Layout.ofContents, String.append_assoc]

namespace State

variable {s s' : State} {elides : Elision} {path : List Container} {v : Value} {t : Figure}

theorem Unfolds.displayIn_eq {nested : Bool} (h : s.Unfolds .revisited path v t) :
    s.displayIn path nested v = t.render nested := by
  induction h generalizing nested with
  | tagged m _ ih => rw [displayIn, ih, Figure.render, Member.text]
  | @elided path c hopen =>
    have hmem : c ∈ path := hopen
    rw [displayIn, dif_pos hmem]
    cases c <;> rw [Figure.elided, Figure.render, Container.elided]
  | @missing path c hopen hcell =>
    have hmem : c ∉ path := hopen
    rw [displayIn, dif_neg hmem, Figure.render]
    split
    · rfl
    · next hsome => cases hcell.symm.trans hsome
  | @contents path c contents parts hopen hcell hvalues _ ih =>
    rw [displayIn_container hopen hcell]
    refine (Contents.render_figure ?_).symm
    rw [hvalues, List.map_map, List.map_map]
    exact List.map_congr_left fun p hp => (ih p hp).symm
  | _ => rw [displayIn, Figure.render] <;> rfl

end State

/-! ### Values without cycles -/

/-- The container that the value is, or that it gets to through payloads alone. -/
def Value.container? : Value → Option Container
  | container c => some c
  | tagged _ payload => payload.container?
  | null | bool _ | number _ | string _ | function _ | native _ | classRef _ | enumeration _
  | member _ => none

namespace State

/-- A part of `c` is the container `d`, or gets to it through payloads alone. -/
def Contains (s : State) (c d : Container) : Prop :=
  ∃ contents, s.contents? c = some contents ∧ ∃ v ∈ contents.values, v.container? = some d

/-- No container that is reached from the value is inside of itself. -/
def AcyclicFrom (s : State) (v : Value) : Prop :=
  ∀ c d, v.container? = some c → Relation.ReflTransGen s.Contains c d →
    ¬ Relation.TransGen s.Contains d d

variable {s s' : State} {path : List Container} {v : Value} {t : Figure}

/-- Every open container contains the value, so a mark would stand for a cycle. -/
theorem Unfolds.never (h : s.Unfolds .revisited path v t) (hacyclic : s.AcyclicFrom v)
    (hpath : ∀ outer ∈ path, ∀ c, v.container? = some c → Relation.TransGen s.Contains outer c) :
    s.Unfolds .never path v t := by
  induction h with
  | tagged m _ ih => exact .tagged m (ih hacyclic hpath)
  -- The open container would contain the value, which closes a cycle.
  | @elided path c hopen => exact absurd (hpath c hopen c rfl) (hacyclic c c rfl .refl)
  | missing _ hcell => exact .missing id hcell
  | @contents path c contents parts _ hcell hvalues _ ih =>
    refine .contents id hcell hvalues fun p hp => ?_
    have hinside : ∀ d, p.1.container? = some d → s.Contains c d := by
      intro d hd
      have hmem : p.1 ∈ contents.values := hvalues ▸ List.mem_map_of_mem hp
      exact ⟨contents, hcell, p.1, hmem, hd⟩
    refine ih p hp (fun d e hd hde => ?_) (List.forall_mem_cons.mpr ⟨fun d hd => ?_, ?_⟩)
    · exact hacyclic c e rfl (.head (hinside d hd) hde)
    · exact .single (hinside d hd)
    · exact fun outer houter d hd => (hpath outer houter c rfl).tail (hinside d hd)
  | _ => constructor

end State

/-! ### Other identities -/

/-- Other identities for the containers. -/
structure Renaming where
  array : ArrayId → ArrayId
  object : ObjectId → ObjectId
  inst : InstanceId → InstanceId

structure Renaming.Injective (ρ : Renaming) : Prop where
  array : Function.Injective ρ.array
  object : Function.Injective ρ.object
  inst : Function.Injective ρ.inst

variable {ρ : Renaming}

def Container.rename (ρ : Renaming) : Container → Container
  | array id => .array (ρ.array id)
  | object id => .object (ρ.object id)
  | inst id => .inst (ρ.inst id)

theorem Container.rename_injective (hρ : ρ.Injective) : Function.Injective (rename ρ) := by
  intro c d h
  cases c <;> cases d <;> simp only [rename, reduceCtorEq, array.injEq, object.injEq, inst.injEq] at h
  · rw [hρ.array h]
  · rw [hρ.object h]
  · rw [hρ.inst h]

theorem Container.elided_rename {c : Container} : Figure.elided (c.rename ρ) = Figure.elided c := by
  cases c <;> rfl

def Receiver.rename (ρ : Renaming) : Receiver → Receiver
  | ofClass id => .ofClass id
  | ofInstance id => .ofInstance (ρ.inst id)

def Value.rename (ρ : Renaming) : Value → Value
  | container c => .container (c.rename ρ)
  | function f => .function { f with receiver := f.receiver.map (·.rename ρ) }
  | tagged m payload => .tagged m (payload.rename ρ)
  | null => .null
  | bool b => .bool b
  | number x => .number x
  | string text => .string text
  | native f => .native f
  | classRef id => .classRef id
  | enumeration e => .enumeration e
  | member m => .member m

def Record.rename (ρ : Renaming) (r : Record Value) : Record Value :=
  ⟨r.entries.map fun entry => (entry.1, entry.2.rename ρ)⟩

def Contents.rename (ρ : Renaming) : Contents → Contents
  | elements items => .elements (items.map (·.rename ρ))
  | properties record => .properties (record.rename ρ)
  | fields id record => .fields id (record.rename ρ)

theorem Record.keys_rename {r : Record Value} : (r.rename ρ).keys = r.keys := by
  simp [rename, keys, Function.comp_def]

theorem Contents.values_rename {contents : Contents} :
    (contents.rename ρ).values = contents.values.map (·.rename ρ) := by
  cases contents <;> simp [rename, values, Record.rename, Function.comp_def]

namespace State

/-- The containers of `s` are found in `s'` under their new identities. -/
structure Renamed (ρ : Renaming) (s s' : State) : Prop where
  contents : ∀ c, s'.contents? (c.rename ρ) = (s.contents? c).map (·.rename ρ)
  className : ∀ id, (s'.classOf id).name = (s.classOf id).name

variable {s s' : State} {path : List Container} {v : Value} {t : Figure}

theorem Renamed.figure_eq (h : s.Renamed ρ s') {contents : Contents} {parts : List Figure} :
    (contents.rename ρ).figure s' parts = contents.figure s parts := by
  cases contents <;> simp [Contents.rename, Contents.figure, Record.keys_rename, h.className]

theorem Unfolds.rename (hρ : ρ.Injective) (hs : s.Renamed ρ s') (h : s.Unfolds .revisited path v t) :
    s'.Unfolds .revisited (path.map (·.rename ρ)) (v.rename ρ) t := by
  have hopen : ∀ {path : List Container} {c : Container},
      c.rename ρ ∈ path.map (·.rename ρ) → c ∈ path :=
    fun h => (List.mem_map_of_injective (Container.rename_injective hρ)).mp h
  induction h with
  | tagged m _ ih => exact .tagged m ih
  | function f => exact .function _
  | classRef id => exact hs.className id ▸ .classRef id
  | @elided path c h =>
    rw [← Container.elided_rename (ρ := ρ)]
    exact .elided (List.mem_map_of_mem h)
  | @missing path c h hcell =>
    refine .missing (fun hmem => h (hopen hmem)) ?_
    rw [hs.contents, hcell, Option.map_none]
  | @contents path c contents parts h hcell hvalues _ ih =>
    have hcell' : s'.contents? (c.rename ρ) = some (contents.rename ρ) := by
      rw [hs.contents, hcell, Option.map_some]
    have hvalues' : (contents.rename ρ).values =
        (parts.map fun p => (p.1.rename ρ, p.2)).map Prod.fst := by
      rw [Contents.values_rename, hvalues, List.map_map, List.map_map]
      rfl
    have hsnd : (parts.map fun p => (p.1.rename ρ, p.2)).map Prod.snd = parts.map Prod.snd := by
      rw [List.map_map]
      rfl
    rw [← hs.figure_eq, ← hsnd]
    refine .contents (fun hmem => h (hopen hmem)) hcell' hvalues' fun p hp => ?_
    obtain ⟨q, hq, rfl⟩ := List.mem_map.mp hp
    exact ih q hq
  | _ => constructor

/-- The display form of a value is that of the one finite tree that the heap unfolds to from there, with marks
for the containers that are met again inside of themselves. If there is no cycle, this is the tree of the
heap itself. Other identities of the containers do not change it. -/
theorem display_eq_render (s : State) (v : Value) :
    (∃! t, s.Unfolds .revisited [] v t) ∧
    (∀ t, s.Unfolds .revisited [] v t → s.display v = t.render false) ∧
    (s.AcyclicFrom v → ∃! t, s.Unfolds .never [] v t ∧ s.display v = t.render false) ∧
    ∀ ρ s', ρ.Injective → s.Renamed ρ s' → s'.display (v.rename ρ) = s.display v := by
  obtain ⟨t, ht⟩ := s.exists_unfolds [] v
  have hdisplay : ∀ t, s.Unfolds .revisited [] v t → s.display v = t.render false :=
    fun t ht => ht.displayIn_eq
  refine ⟨⟨t, ht, fun t' ht' => ht'.unique ht⟩, hdisplay, fun hacyclic => ?_, fun ρ s' hρ hs => ?_⟩
  · have hnever := ht.never hacyclic (List.forall_mem_nil _)
    exact ⟨t, ⟨hnever, hdisplay t ht⟩, fun t' ht' => ht'.1.unique hnever⟩
  · rw [hdisplay t ht]
    exact (ht.rename hρ hs).displayIn_eq

/-- An array that holds itself, and one that holds another twice. -/
def knots : State :=
  { initial 0 with arrays := #[#[.array ⟨0⟩, .string "a"], #[.array ⟨2⟩, .array ⟨2⟩], #[.null]] }

/-- The same with the first two arrays in the other order. -/
def knotsSwapped : State :=
  { initial 0 with arrays := #[#[.array ⟨2⟩, .array ⟨2⟩], #[.array ⟨1⟩, .string "a"], #[.null]] }

def swapped : Renaming :=
  ⟨fun id => ⟨if id.index = 0 then 1 else if id.index = 1 then 0 else id.index⟩, id, id⟩

theorem knots_acyclicFrom : knots.AcyclicFrom (.array ⟨1⟩) := by
  have hsecond : ∀ d, knots.Contains (.array ⟨1⟩) d → d = .array ⟨2⟩ := by
    rintro d ⟨_, ⟨⟩, v, hv, hd⟩
    obtain rfl : v = .array ⟨2⟩ := by simpa [Contents.values, knots] using hv
    exact (Option.some.inj hd).symm
  have hthird : ∀ d, ¬ knots.Contains (.array ⟨2⟩) d := by
    rintro d ⟨_, ⟨⟩, v, hv, hd⟩
    obtain rfl : v = .null := by simpa [Contents.values, knots] using hv
    cases hd
  have hstuck : ∀ d, Relation.ReflTransGen knots.Contains (.array ⟨2⟩) d → d = .array ⟨2⟩ := by
    intro d hd
    rcases hd.cases_head with h | ⟨e, he, -⟩
    · exact h.symm
    · exact absurd he (hthird e)
  rintro _ d ⟨⟩ hd hcycle
  obtain ⟨e, he, hrest⟩ := Relation.TransGen.head'_iff.mp hcycle
  rcases hd.cases_head with rfl | ⟨e', he', hrest'⟩
  · rw [hsecond e he] at hrest
    cases hstuck _ hrest
  · rw [hsecond e' he'] at hrest'
    rw [hstuck d hrest'] at he
    exact hthird e he

theorem knots_renamed : knots.Renamed swapped knotsSwapped := by
  refine ⟨fun c => ?_, fun id => rfl⟩
  rcases c with ⟨_ | _ | _ | i⟩ | id | id <;> rfl

/-- The cycle is cut short, the shared array is written twice, and the order of the arrays does not show. -/
theorem knots_display :
    knots.display (.array ⟨0⟩) = "[[...], \"a\"]" ∧
      (∃! t, knots.Unfolds .never [] (.array ⟨1⟩) t ∧
        knots.display (.array ⟨1⟩) = t.render false) ∧
      knotsSwapped.display (.array ⟨1⟩) = knots.display (.array ⟨0⟩) := by
  have hinjective : swapped.Injective := by
    refine ⟨fun ⟨i⟩ ⟨j⟩ h => ?_, Function.injective_id, Function.injective_id⟩
    have hindex : (if i = 0 then 1 else if i = 1 then 0 else i) =
        if j = 0 then 1 else if j = 1 then 0 else j := congrArg ArrayId.index h
    split_ifs at hindex <;> simp_all
  have hunfolds : knots.Unfolds .revisited [] (.array ⟨0⟩) (.array [.elidedArray, .string "a"]) := by
    let parts : List (Value × Figure) :=
      [(.array ⟨0⟩, .elidedArray), (.string "a", .string "a")]
    have hparts : ∀ p ∈ parts, knots.Unfolds .revisited [.array ⟨0⟩] p.1 p.2 := by
      intro p hp
      rcases (show p = _ ∨ p = _ by simpa [parts] using hp) with rfl | rfl
      · exact .elided List.mem_cons_self
      · exact .string _
    have hcell : knots.contents? (.array ⟨0⟩) = some (.elements (parts.map Prod.fst)) := rfl
    exact .contents List.not_mem_nil hcell rfl hparts
  obtain ⟨-, hrender, -, hrename⟩ := display_eq_render knots (.array ⟨0⟩)
  obtain ⟨-, -, hnever, -⟩ := display_eq_render knots (.array ⟨1⟩)
  exact ⟨hrender _ hunfolds, hnever knots_acyclicFrom, hrename _ _ hinjective knots_renamed⟩

end State

end ScriptLang
