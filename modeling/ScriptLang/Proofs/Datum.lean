import ScriptLang.Proofs.PartialEquivalence
import ScriptLang.Proofs.Positional
import ScriptLang.Proofs.Unfolding

/-! Data: finite trees of scalars, arrays and objects. The display form of a value that stands for some
data shows these data alone, and two values that stand for the same data are equal. -/

namespace ScriptLang

inductive Datum
  | null
  | bool (b : Bool)
  | number (x : Float)
  | string (text : String)
  | array (items : List Datum)
  | object (properties : List (String × Datum))

namespace Datum

@[induction_eliminator]
theorem induct {P : Datum → Prop} (null : P null) (bool : ∀ b, P (bool b))
    (number : ∀ x, P (number x)) (string : ∀ text, P (string text))
    (array : ∀ items, (∀ d ∈ items, P d) → P (array items))
    (object : ∀ properties, (∀ p ∈ properties, P p.2) → P (object properties)) (d : Datum) : P d :=
  @Datum.rec P (fun items => ∀ d ∈ items, P d) (fun properties => ∀ p ∈ properties, P p.2)
    (fun p => P p.2) null bool number string array object (List.forall_mem_nil _)
    (fun _ _ hd hrest => List.forall_mem_cons.mpr ⟨hd, hrest⟩) (List.forall_mem_nil _)
    (fun _ _ hp hrest => List.forall_mem_cons.mpr ⟨hp, hrest⟩) (fun _ _ => id) d

mutual

/-- The display form inside of a container. -/
def text : Datum → String
  | null => "null"
  | bool b => if b then "true" else "false"
  | number x => Number.Style.display.text x
  | string text => "\"" ++ text ++ "\""
  | array items => "[" ++ ", ".intercalate (itemTexts items) ++ "]"
  | object [] => "\x7b\x7d"
  | object (p :: rest) => "\x7b " ++ ", ".intercalate (propertyTexts (p :: rest)) ++ " \x7d"

def itemTexts : List Datum → List String
  | [] => []
  | d :: rest => text d :: itemTexts rest

def propertyTexts : List (String × Datum) → List String
  | [] => []
  | (key, d) :: rest => (key ++ ": " ++ text d) :: propertyTexts rest

end

theorem itemTexts_eq (items : List Datum) : itemTexts items = items.map text := by
  induction items with
  | nil => rfl
  | cons d rest ih => rw [itemTexts, ih, List.map_cons]

def propertyText (p : String × Datum) : String :=
  p.1 ++ ": " ++ p.2.text

theorem propertyTexts_eq (properties : List (String × Datum)) :
    propertyTexts properties = properties.map propertyText := by
  induction properties with
  | nil => rfl
  | cons p rest ih => rw [propertyTexts, ih, List.map_cons, propertyText]

/-- What the value stands for in a state. -/
inductive Denotes (s : State) : Datum → Value → Prop
  | null : Denotes s null .null
  | bool (b : Bool) : Denotes s (bool b) (.bool b)
  | number (x : Float) : Denotes s (number x) (.number x)
  | string (text : String) : Denotes s (string text) (.string text)
  | array {items : List Datum} {id : ArrayId} {values : List Value}
      (hcell : s.contents? (.array id) = some (.elements values))
      (h : List.Forall₂ (Denotes s) items values) : Denotes s (array items) (.array id)
  | object {properties : List (String × Datum)} {id : ObjectId} {record : Record Value}
      (hcell : s.contents? (.object id) = some (.properties record))
      (hkeys : record.keys = properties.map Prod.fst)
      (h : List.Forall₂ (Denotes s) (properties.map Prod.snd) (record.entries.map Prod.snd)) :
      Denotes s (object properties) (.object id)

theorem forall₂_pairs_iff {α β γ : Type} {R : β → γ → Prop} {ps : List (α × β)}
    {qs : List (α × γ)} :
    List.Forall₂ (fun p q => p.1 = q.1 ∧ R p.2 q.2) ps qs ↔
      ps.map Prod.fst = qs.map Prod.fst ∧ List.Forall₂ R (ps.map Prod.snd) (qs.map Prod.snd) := by
  rw [List.forall₂_map_left_iff, List.forall₂_map_right_iff]
  constructor
  · intro h
    induction h with
    | nil => exact ⟨rfl, .nil⟩
    | cons hpq _ ih => exact ⟨by rw [List.map_cons, List.map_cons, hpq.1, ih.1], .cons hpq.2 ih.2⟩
  · rintro ⟨hkeys, h⟩
    induction h with
    | nil => exact .nil
    | cons hpq _ ih =>
      obtain ⟨hkey, hrest⟩ := List.cons.inj hkeys
      exact .cons ⟨hkey, hpq⟩ (ih hrest)

namespace Denotes

variable {s : State}

theorem properties {properties : List (String × Datum)} {record : Record Value}
    (hkeys : record.keys = properties.map Prod.fst)
    (h : List.Forall₂ (Denotes s) (properties.map Prod.snd) (record.entries.map Prod.snd)) :
    List.Forall₂ (fun p entry => p.1 = entry.1 ∧ p.2.Denotes s entry.2) properties record.entries :=
  forall₂_pairs_iff.mpr ⟨hkeys.symm, h⟩

theorem unique {d d' : Datum} {v : Value} (h : d.Denotes s v) (h' : d'.Denotes s v) : d = d' := by
  -- Both constructors with parts need this for their lists.
  have hitems : ∀ {items items' : List Datum} {values : List Value},
      (∀ d ∈ items, ∀ {d' v}, d.Denotes s v → d'.Denotes s v → d = d') →
      List.Forall₂ (Denotes s) items values → List.Forall₂ (Denotes s) items' values →
      items = items' := by
    intro items items' values hunique h h'
    induction h generalizing items' with
    | nil =>
      cases h'
      rfl
    | cons hd _ ih =>
      cases h' with
      | cons hd' hrest' =>
        rw [hunique _ List.mem_cons_self hd hd',
          ih (fun d hd => hunique d (List.mem_cons_of_mem _ hd)) hrest']
  induction d generalizing d' v with
  | array items ih =>
    cases h with
    | array hcell h =>
      cases h' with
      | array hcell' h' =>
        cases hcell.symm.trans hcell'
        rw [hitems ih h h']
  | object properties ih =>
    cases h with
    | object hcell hkeys h =>
      cases h' with
      | @object properties' _ _ hcell' hkeys' h' =>
        cases hcell.symm.trans hcell'
        have hvalues : properties.map Prod.snd = properties'.map Prod.snd := by
          refine hitems (fun d hd => ?_) h h'
          obtain ⟨p, hp, rfl⟩ := List.mem_map.mp hd
          exact ih p hp
        have hsame : properties = properties' :=
          (List.zip_of_prod hkeys.symm hvalues).trans (List.zip_of_prod hkeys'.symm rfl).symm
        rw [hsame]
  | null | bool | number | string =>
    cases h
    cases h'
    rfl

end Denotes

/-! ### The display form -/

theorem sizeOf_lt_of_mem_items {d : Datum} {items : List Datum} (h : d ∈ items) :
    sizeOf d < sizeOf (array items) := by
  have hlt := List.sizeOf_lt_of_mem h
  rw [array.sizeOf_spec]
  omega

theorem sizeOf_lt_of_mem_properties {p : String × Datum} {properties : List (String × Datum)}
    (h : p ∈ properties) : sizeOf p.2 < sizeOf (object properties) := by
  have hlt := List.sizeOf_lt_of_mem h
  obtain ⟨key, d⟩ := p
  rw [object.sizeOf_spec]
  simp only [Prod.mk.sizeOf_spec] at hlt ⊢
  omega

/-- No container of the path is met inside of smaller data. -/
def Below (s : State) (d : Datum) (path : List Container) : Prop :=
  ∀ c ∈ path, ∃ outer : Datum, outer.Denotes s (.container c) ∧ sizeOf d < sizeOf outer

theorem Below.inside {s : State} {d part : Datum} {path : List Container} {c : Container}
    (h : Below s d path) (hd : d.Denotes s (.container c)) (hpart : sizeOf part < sizeOf d) :
    Below s part (c :: path) := by
  refine List.forall_mem_cons.mpr ⟨⟨d, hd, hpart⟩, fun c' hc' => ?_⟩
  obtain ⟨outer, houter, hlt⟩ := h c' hc'
  exact ⟨outer, houter, Nat.lt_trans hpart hlt⟩

theorem Below.notMem {s : State} {d : Datum} {path : List Container} {c : Container}
    (h : Below s d path) (hd : d.Denotes s (.container c)) : c ∉ path := by
  intro hc
  obtain ⟨outer, houter, hlt⟩ := h c hc
  rw [hd.unique houter] at hlt
  exact Nat.lt_irrefl _ hlt

theorem forall₂_of_common {α β γ : Type} {R : α → β → Prop} {R' : α → γ → Prop} {S : β → γ → Prop}
    {as : List α} {bs : List β} {cs : List γ} (hb : List.Forall₂ R as bs)
    (hc : List.Forall₂ R' as cs) (h : ∀ a ∈ as, ∀ b c, R a b → R' a c → S b c) :
    List.Forall₂ S bs cs := by
  induction hb generalizing cs with
  | nil =>
    cases hc
    exact .nil
  | cons hab _ ih =>
    cases hc with
    | cons hac hrest =>
      exact .cons (h _ List.mem_cons_self _ _ hab hac)
        (ih hrest fun a ha => h a (List.mem_cons_of_mem _ ha))

theorem exists_of_mem_forall₂ {α β : Type} {R : α → β → Prop} {as : List α} {bs : List β} {b : β}
    (h : List.Forall₂ R as bs) (hb : b ∈ bs) : ∃ a ∈ as, R a b := by
  induction h with
  | nil => cases hb
  | cons hab _ ih =>
    rcases List.mem_cons.mp hb with rfl | hb
    · exact ⟨_, List.mem_cons_self, hab⟩
    · obtain ⟨a, ha, hR⟩ := ih hb
      exact ⟨a, List.mem_cons_of_mem _ ha, hR⟩

theorem map_eq_of_forall₂ {α β γ : Type} {R : α → β → Prop} {f : β → γ} {g : α → γ} {as : List α}
    {bs : List β} (h : List.Forall₂ R as bs) (hfg : ∀ a ∈ as, ∀ b, R a b → f b = g a) :
    bs.map f = as.map g := by
  induction h with
  | nil => rfl
  | cons hab _ ih =>
    rw [List.map_cons, List.map_cons, hfg _ List.mem_cons_self _ hab,
      ih fun a ha => hfg a (List.mem_cons_of_mem _ ha)]

theorem Denotes.displayIn_eq {s : State} {d : Datum} {v : Value} {path : List Container}
    (h : d.Denotes s v) (hpath : Below s d path) : s.displayIn path true v = d.text := by
  induction d generalizing v path with
  | null =>
    cases h
    rw [State.displayIn, text]
  | bool b =>
    cases h
    rw [State.displayIn, text]
  | number x =>
    cases h
    rw [State.displayIn, text]
  | string text =>
    cases h
    rw [State.displayIn, Datum.text]
    rfl
  | array items ih =>
    have hd := h
    cases h with
    | @array _ id values hcell h =>
      have hparts : values.map (fun v => "" ++ s.displayIn (.array id :: path) true v) =
          items.map Datum.text := by
        refine map_eq_of_forall₂ h fun d hmem v hv => ?_
        rw [String.empty_append, ih d hmem hv (hpath.inside hd (sizeOf_lt_of_mem_items hmem))]
      rw [Value.array, State.displayIn_container (hpath.notMem hd) hcell, text, itemTexts_eq, ← hparts]
      simp only [Layout.ofContents, List.map_map]
      rfl
  | object properties ih =>
    have hd := h
    cases h with
    | @object _ id record hcell hkeys h =>
      have hparts : record.entries.map (fun entry =>
          entry.1 ++ ": " ++ s.displayIn (.object id :: path) true entry.2) =
            properties.map propertyText := by
        refine map_eq_of_forall₂ (Denotes.properties hkeys h) fun p hmem entry hentry => ?_
        have hinside := hpath.inside hd (sizeOf_lt_of_mem_properties hmem)
        rw [propertyText, hentry.1, ih p hmem hentry.2 hinside]
      rw [Value.object, State.displayIn_container (hpath.notMem hd) hcell]
      obtain ⟨_ | ⟨entry, entries⟩⟩ := record
      · obtain rfl : properties = [] := List.map_eq_nil_iff.mp hparts.symm
        rfl
      · cases properties with
        | nil => cases hparts
        | cons p rest =>
          rw [text, propertyTexts_eq, ← hparts]
          simp only [Layout.ofContents, Layout.ofRecord, Record.isEmpty, List.isEmpty_cons,
            Bool.false_eq_true, if_false, List.map_map]
          rfl

theorem Denotes.display_eq {s : State} {d : Datum} {c : Container}
    (h : d.Denotes s (.container c)) : s.display (.container c) = d.text := by
  have hnested : s.displayIn [] true (.container c) = d.text := h.displayIn_eq (List.forall_mem_nil _)
  rw [← hnested, State.display, State.displayIn, State.displayIn]

/-! ### Equality -/

/-- Data with a display form that can be read: numbers are finite and have no sign, strings have no
quotes, and keys are distinct names. -/
inductive Printable : Datum → Prop
  | null : Printable null
  | bool (b : Bool) : Printable (bool b)
  | number {x : Float} (hfinite : x.isFinite = true) (hsign : Number.isNegative x = false) :
    Printable (number x)
  | string {text : String} (h : '"' ∉ text.toList) : Printable (string text)
  | array {items : List Datum} (h : ∀ d ∈ items, Printable d) : Printable (array items)
  | object {properties : List (String × Datum)}
      (hnames : ∀ p ∈ properties, HasKind p.1.toList (some .identifier))
      (hdistinct : (properties.map Prod.fst).Nodup) (h : ∀ p ∈ properties, Printable p.2) :
      Printable (object properties)

theorem equalIn_container {s : State} {path : List (Container × Container)} {c d : Container}
    {a b : Contents} (hc : s.contents? c = some a) (hd : s.contents? d = some b)
    (ha : a.DistinctKeys) (hb : b.DistinctKeys)
    (h : a.Related (fun v w => s.equalIn ((c, d) :: path) v w = true) b) :
    s.equalIn path (.container c) (.container d) = true := by
  obtain ⟨pairs, hpairs, hequal⟩ := (Contents.related_iff ha hb).mp h
  rw [State.equalIn]
  split
  · rfl
  split
  · rfl
  split
  · next a' b' ha' hb' =>
    cases ha'.symm.trans hc
    cases hb'.symm.trans hd
    rw [hpairs]
    exact List.all_eq_true.mpr hequal
  · next hnone => exact (hnone a b hc hd).elim

theorem Denotes.equalIn {s : State} {d : Datum} {v w : Value}
    {path : List (Container × Container)} (hd : d.Printable) (hv : d.Denotes s v)
    (hw : d.Denotes s w) : s.equalIn path v w = true := by
  induction d generalizing v w path with
  | null =>
    cases hv
    cases hw
    simp [State.equalIn]
  | bool b =>
    cases hv
    cases hw
    simp [State.equalIn]
  | number x =>
    cases hv
    cases hw
    cases hd with
    | number hfinite =>
      simpa [State.equalIn] using Number.beq_self_iff.mpr (Number.not_special hfinite).1
  | string text =>
    cases hv
    cases hw
    simp [State.equalIn]
  | array items ih =>
    cases hd with
    | array hitems =>
      cases hv with
      | array hcell h =>
        cases hw with
        | array hcell' h' =>
          exact equalIn_container hcell hcell' trivial trivial
            (forall₂_of_common h h' fun d hmem _ _ => ih d hmem (hitems d hmem))
  | object properties ih =>
    cases hd with
    | object hnames hdistinct hproperties =>
      cases hv with
      | @object _ _ a hcell hkeys h =>
        cases hw with
        | @object _ _ b hcell' hkeys' h' =>
          have ha : a.keys.Nodup := hkeys ▸ hdistinct
          have hb : b.keys.Nodup := hkeys' ▸ hdistinct
          -- Both maps have the keys of the datum in its order, and are compared key by key.
          refine equalIn_container hcell hcell' ha hb ⟨fun key => by rw [hkeys, hkeys'], ?_⟩
          intro key x y hx hy
          obtain ⟨p, hp, hkey, hpx⟩ :=
            exists_of_mem_forall₂ (Denotes.properties hkeys h) (Record.mem_entries_of_get? hx)
          obtain ⟨p', hp', hkey', hpy⟩ :=
            exists_of_mem_forall₂ (Denotes.properties hkeys' h') (Record.mem_entries_of_get? hy)
          obtain rfl : p = p' := List.inj_on_of_nodup_map hdistinct hp hp' (hkey.trans hkey'.symm)
          exact ih p hp (hproperties p hp) hpx hpy

end Datum

end ScriptLang
