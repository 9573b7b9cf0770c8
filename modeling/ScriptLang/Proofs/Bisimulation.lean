import Mathlib
import ScriptLang.Value.Equality

/-! Structural equality is the greatest bisimulation of the heap, cycles and shared cells included.
The comparison keeps only the pairs that are open on its path; the proof goes through relations that
look at most a given number of references deep. -/

namespace ScriptLang

/-- Same names, and related values under each of them. -/
def Record.Related (R : Value → Value → Prop) (a b : Record Value) : Prop :=
  (∀ key, key ∈ a.keys ↔ key ∈ b.keys) ∧
    ∀ key x y, a.get? key = some x → b.get? key = some y → R x y

/-- Same shape, and related parts. -/
def Contents.Related (R : Value → Value → Prop) : Contents → Contents → Prop
  | elements a, elements b => List.Forall₂ R a b
  | properties a, properties b => a.Related R b
  | fields c a, fields d b => c = d ∧ a.Related R b
  | _, _ => False

namespace State

/-- Every property map of the heap has each name once. -/
structure DistinctKeys (s : State) : Prop where
  objects : ∀ record ∈ s.objects, record.keys.Nodup
  instances : ∀ i ∈ s.instances, i.fields.keys.Nodup
  classes : ∀ c ∈ s.classes, c.staticFields.keys.Nodup

/-- What two equal values have in common, where `R` relates the values inside of them. -/
inductive Alike (s : State) (R : Value → Value → Prop) : Value → Value → Prop
  | null : Alike s R .null .null
  | bool (b : Bool) : Alike s R (.bool b) (.bool b)
  | number {x y : Float} (h : (x == y) = true) : Alike s R (.number x) (.number y)
  | string (text : String) : Alike s R (.string text) (.string text)
  | same (c : Container) : Alike s R (.container c) (.container c)
  | contents {c d : Container} {a b : Contents} (hc : s.contents? c = some a)
      (hd : s.contents? d = some b) (h : a.Related R b) :
      Alike s R (.container c) (.container d)
  | function {f g : Closure} (h : f.function.identity = g.function.identity) :
      Alike s R (.function f) (.function g)
  | native {f g : Native} (h : f.serial = g.serial) : Alike s R (.native f) (.native g)
  | classRef (id : ClassId) : Alike s R (.classRef id) (.classRef id)
  | enumeration {e f : Enumeration} (h : e.serial = f.serial) :
      Alike s R (.enumeration e) (.enumeration f)
  | member {m n : Member} (hm : m.enumeration.serial = n.enumeration.serial)
      (hn : m.name = n.name) : Alike s R (.member m) (.member n)
  | tagged {m n : Member} {x y : Value} (hm : m.enumeration.serial = n.enumeration.serial)
      (hn : m.name = n.name) (h : R x y) : Alike s R (.tagged m x) (.tagged n y)

def IsBisimulation (s : State) (R : Value → Value → Prop) : Prop :=
  ∀ x y, R x y → s.Alike R x y

/-- The greatest bisimulation. -/
def Bisimilar (s : State) (x y : Value) : Prop :=
  ∃ R, s.IsBisimulation R ∧ R x y

end State

/-! ### Relating parts -/

theorem Record.Related.mono {R S : Value → Value → Prop} (hRS : ∀ x y, R x y → S x y)
    {a b : Record Value} (h : a.Related R b) : a.Related S b :=
  ⟨h.1, fun key x y hx hy => hRS x y (h.2 key x y hx hy)⟩

theorem Record.related_forall {R : Nat → Value → Value → Prop} {a b : Record Value}
    (h : ∀ n, a.Related (R n) b) : a.Related (fun x y => ∀ n, R n x y) b :=
  ⟨(h 0).1, fun key x y hx hy n => (h n).2 key x y hx hy⟩

theorem Contents.Related.mono {R S : Value → Value → Prop} (hRS : ∀ x y, R x y → S x y) :
    ∀ {a b : Contents}, a.Related R b → a.Related S b
  | elements _, elements _, h => List.Forall₂.imp hRS h
  | properties _, properties _, h => Record.Related.mono hRS h
  | fields _ _, fields _ _, h => ⟨h.1, h.2.mono hRS⟩

theorem Contents.related_forall {R : Nat → Value → Value → Prop} :
    ∀ {a b : Contents}, (∀ n, a.Related (R n) b) → a.Related (fun x y => ∀ n, R n x y) b
  | elements _, elements _, h =>
    List.forall₂_iff_zip.mpr ⟨(h 0).length_eq, fun hp n => List.forall₂_zip (h n) hp⟩
  | properties _, properties _, h => Record.related_forall h
  | fields _ _, fields _ _, h => ⟨(h 0).1, Record.related_forall fun n => (h n).2⟩
  | elements _, properties _, h | elements _, fields _ _, h | properties _, elements _, h
  | properties _, fields _ _, h | fields _ _, elements _, h | fields _ _, properties _, h =>
    (h 0).elim

theorem Record.keys_iff_of_subset {a b : Record Value} (ha : a.keys.Nodup)
    (hsize : a.size = b.size) (hsub : a.keys ⊆ b.keys) (key : String) :
    key ∈ a.keys ↔ key ∈ b.keys := by
  have hlength : b.keys.length ≤ a.keys.length := by
    simpa [keys, size] using Nat.le_of_eq hsize.symm
  exact ((List.subperm_of_subset ha hsub).perm_of_length_le hlength).mem_iff

theorem mapM_eq_some_iff {α β : Type} {f : α → Option β} {l : List α} {ys : List β} :
    l.mapM f = some ys ↔ l.map f = ys.map some := by
  induction l generalizing ys with
  | nil => cases ys <;> simp
  | cons a rest ih =>
    cases ys with
    | nil => simp [Option.bind_eq_some_iff]
    | cons y ys => simp [Option.bind_eq_some_iff, ih]

theorem Record.matched?_eq_some_iff {a b : Record Value} {pairs : List (Value × Value)} :
    a.matched? b = some pairs ↔
      a.size = b.size ∧
        a.entries.map (fun entry => (b.get? entry.1).map (entry.2, ·)) = pairs.map some := by
  unfold matched?
  split
  · next hsize => simp [hsize, mapM_eq_some_iff]
  · next hsize => simp [hsize]

theorem Record.size_eq_of_keys_iff {a b : Record Value} (ha : a.keys.Nodup) (hb : b.keys.Nodup)
    (h : ∀ key, key ∈ a.keys ↔ key ∈ b.keys) : a.size = b.size := by
  have hlength := ((List.perm_ext_iff_of_nodup ha hb).mpr h).length_eq
  simpa [keys, size] using hlength

theorem Record.related_iff {R : Value → Value → Prop} {a b : Record Value} (ha : a.keys.Nodup)
    (hb : b.keys.Nodup) :
    a.Related R b ↔ ∃ pairs, a.matched? b = some pairs ∧ ∀ pair ∈ pairs, R pair.1 pair.2 := by
  simp only [matched?_eq_some_iff]
  constructor
  · rintro ⟨hkeys, hvalues⟩
    have hfound : ∀ entry ∈ a.entries, ∃ y, b.get? entry.1 = some y ∧ R entry.2 y := by
      intro entry hentry
      have hkey : entry.1 ∈ a.keys := List.mem_map_of_mem (f := Prod.fst) hentry
      obtain ⟨y, hy⟩ := exists_get?_of_mem_keys ((hkeys entry.1).mp hkey)
      exact ⟨y, hy, hvalues _ _ _ (get?_of_mem_entries ha hentry) hy⟩
    choose! other hother hrelated using hfound
    refine ⟨a.entries.map fun entry => (entry.2, other entry),
      ⟨size_eq_of_keys_iff ha hb hkeys, ?_⟩, ?_⟩
    · simpa using fun key value hentry => hother (key, value) hentry
    · simpa using fun x y key value hentry he hy => by
        subst he hy
        exact hrelated (key, value) hentry
  · rintro ⟨pairs, ⟨hsize, hmap⟩, hpairs⟩
    have hfound : ∀ entry ∈ a.entries, ∃ y, b.get? entry.1 = some y ∧ R entry.2 y := by
      intro entry hentry
      have hmem := List.mem_map_of_mem
        (f := fun entry => (b.get? entry.1).map (entry.2, ·)) hentry
      rw [hmap] at hmem
      obtain ⟨pair, hpair, he⟩ := List.mem_map.mp hmem
      obtain ⟨y, hy, rfl⟩ := Option.map_eq_some_iff.mp he.symm
      exact ⟨y, hy, hpairs _ hpair⟩
    have hsub : a.keys ⊆ b.keys := by
      intro key hkey
      obtain ⟨entry, hentry, rfl⟩ := List.mem_map.mp hkey
      obtain ⟨y, hy, -⟩ := hfound entry hentry
      exact mem_keys_of_get? hy
    refine ⟨keys_iff_of_subset ha hsize hsub, fun key x y hx hy => ?_⟩
    obtain ⟨z, hz, hrelated⟩ := hfound _ (mem_entries_of_get? hx)
    cases hy.symm.trans hz
    exact hrelated

/-- The property maps among the contents of a container have each name once. -/
def Contents.DistinctKeys : Contents → Prop
  | elements _ => True
  | properties record | fields _ record => record.keys.Nodup

theorem Contents.related_iff {R : Value → Value → Prop} :
    ∀ {a b : Contents}, a.DistinctKeys → b.DistinctKeys →
      (a.Related R b ↔ ∃ pairs, a.matched? b = some pairs ∧ ∀ pair ∈ pairs, R pair.1 pair.2)
  | elements a, elements b, _, _ => by
    rw [Related, List.forall₂_iff_zip]
    by_cases hlength : a.length = b.length
    · simp [matched?, hlength]
    · simp [matched?, hlength]
  | properties a, properties b, ha, hb => Record.related_iff ha hb
  | fields c a, fields d b, ha, hb => by
    by_cases he : c = d
    · simpa [Related, matched?, he] using Record.related_iff ha hb
    · simp [Related, matched?, he]
  | elements _, properties _, _, _ | elements _, fields _ _, _, _
  | properties _, elements _, _, _ | properties _, fields _ _, _, _
  | fields _ _, elements _, _, _ | fields _ _, properties _, _, _ => by
    simp [Related, matched?]

namespace State

theorem DistinctKeys.contents {s : State} (hs : s.DistinctKeys) {c : Container}
    {contents : Contents} (h : s.contents? c = some contents) : contents.DistinctKeys := by
  cases c with
  | array id =>
    obtain ⟨items, -, rfl⟩ := Option.map_eq_some_iff.mp h
    trivial
  | object id =>
    obtain ⟨record, hrecord, rfl⟩ := Option.map_eq_some_iff.mp h
    exact hs.objects record (Array.mem_of_getElem? hrecord)
  | inst id =>
    obtain ⟨i, hi, rfl⟩ := Option.map_eq_some_iff.mp h
    exact hs.instances i (Array.mem_of_getElem? hi)

/-! ### The comparison, one reference deep -/

theorem Alike.mono {s : State} {R S : Value → Value → Prop} (hRS : ∀ x y, R x y → S x y)
    {x y : Value} (h : s.Alike R x y) : s.Alike S x y := by
  cases h with
  | null => exact .null
  | bool b => exact .bool b
  | number h => exact .number h
  | string text => exact .string text
  | same c => exact .same c
  | contents hc hd h => exact .contents hc hd (h.mono hRS)
  | function h => exact .function h
  | native h => exact .native h
  | classRef id => exact .classRef id
  | enumeration h => exact .enumeration h
  | member hm hn => exact .member hm hn
  | tagged hm hn h => exact .tagged hm hn (hRS _ _ h)

/-- The open pairs inside of `x` and `y`, if those outside of them are `path`. -/
def openInside (path : List (Container × Container)) : Value → Value → List (Container × Container)
  | .container c, .container d => (c, d) :: path
  | _, _ => path

theorem equalIn_container_iff {s : State} (hs : s.DistinctKeys)
    {path : List (Container × Container)} {c d : Container} :
    s.equalIn path (.container c) (.container d) = true ↔
      (c, d) ∈ path ∨
        s.Alike (fun x y => s.equalIn ((c, d) :: path) x y = true) (.container c) (.container d) := by
  rw [equalIn]
  split
  · next he => exact iff_of_true rfl (.inr (he ▸ .same c))
  · next he =>
    split
    · next hopen => exact iff_of_true rfl (.inl hopen)
    · next hopen =>
      -- Two containers are alike only by their contents, since they are not the same one.
      have hrelated : ∀ a b, s.contents? c = some a → s.contents? d = some b →
          (s.Alike (fun x y => s.equalIn ((c, d) :: path) x y = true) (.container c)
              (.container d) ↔
            a.Related (fun x y => s.equalIn ((c, d) :: path) x y = true) b) := by
        intro a b hc hd
        constructor
        · intro h
          cases h with
          | same => exact absurd rfl he
          | contents hc' hd' h =>
            cases hc.symm.trans hc'
            cases hd.symm.trans hd'
            exact h
        · exact .contents hc hd
      split
      · next a b hc hd =>
        rw [hrelated a b hc hd, Contents.related_iff (hs.contents hc) (hs.contents hd)]
        split
        · next pairs hpairs => simp [hopen, hpairs]
        · next hpairs => simp [hopen, hpairs]
      · next hnone =>
        refine iff_of_false (by simp) fun h => ?_
        rcases h with h | h
        · exact hopen h
        · cases h with
          | same => exact he rfl
          | contents hc hd => exact hnone _ _ hc hd

theorem alike_of_equalIn {s : State} (hs : s.DistinctKeys) {path : List (Container × Container)}
    {x y : Value} (h : s.equalIn path x y = true) :
    (∃ c d, x = .container c ∧ y = .container d ∧ (c, d) ∈ path) ∨
      s.Alike (fun a b => s.equalIn (openInside path x y) a b = true) x y := by
  rw [equalIn.eq_def] at h
  split at h
  · exact .inr .null
  · next a b => exact .inr (eq_of_beq h ▸ .bool a)
  · exact .inr (.number h)
  · next a b => exact .inr (eq_of_beq h ▸ .string a)
  · exact .inr (.function (eq_of_beq h))
  · exact .inr (.native (eq_of_beq h))
  · next c d => exact .inr (eq_of_beq h ▸ .classRef c)
  · exact .inr (.enumeration (eq_of_beq h))
  · obtain ⟨hm, hn⟩ : _ ∧ _ := by simpa [Member.isSame] using h
    exact .inr (.member hm hn)
  · obtain ⟨⟨hm, hn⟩, h⟩ : (_ ∧ _) ∧ _ := by simpa [Member.isSame] using h
    exact .inr (.tagged hm hn h)
  · next c d =>
    have hboth : s.equalIn path (.container c) (.container d) = true := by rwa [equalIn]
    exact ((equalIn_container_iff hs).mp hboth).imp_left fun hopen => ⟨c, d, rfl, rfl, hopen⟩
  · cases h

theorem equalIn_of_alike {s : State} (hs : s.DistinctKeys) {path : List (Container × Container)}
    {x y : Value} (h : s.Alike (fun a b => s.equalIn (openInside path x y) a b = true) x y) :
    s.equalIn path x y = true := by
  cases h with
  | null => simp [equalIn]
  | bool b => simp [equalIn]
  | number h => simpa [equalIn] using h
  | string text => simp [equalIn]
  | same c => exact (equalIn_container_iff hs).mpr (.inr (.same c))
  | contents hc hd h => exact (equalIn_container_iff hs).mpr (.inr (.contents hc hd h))
  | function h => simpa [equalIn] using h
  | native h => simpa [equalIn] using h
  | classRef id => simp [equalIn]
  | enumeration h => simpa [equalIn] using h
  | member hm hn => simpa [equalIn, Member.isSame] using ⟨hm, hn⟩
  | tagged hm hn h => simpa [equalIn, Member.isSame, hm, hn, openInside] using h

/-! ### Relations that look finitely deep -/

/-- No difference shows up to `depth` references deep. -/
def agree (s : State) : Nat → Value → Value → Prop
  | 0, _, _ => True
  | depth + 1, x, y => s.Alike (s.agree depth) x y

theorem agree_of_succ {s : State} {depth : Nat} {x y : Value} (h : s.agree (depth + 1) x y) :
    s.agree depth x y := by
  induction depth generalizing x y with
  | zero => trivial
  | succ depth ih => exact Alike.mono (fun _ _ => ih) h

theorem alike_forall {s : State} {R : Nat → Value → Value → Prop} {x y : Value}
    (h : ∀ n, s.Alike (R n) x y) : s.Alike (fun x y => ∀ n, R n x y) x y := by
  cases h 0 with
  | null => exact .null
  | bool b => exact .bool b
  | number he => exact .number he
  | string text => exact .string text
  | same c => exact .same c
  | @contents c d a b hc hd _ =>
    by_cases he : c = d
    · exact he ▸ .same c
    · refine .contents hc hd (Contents.related_forall fun n => ?_)
      cases h n with
      | same => exact absurd rfl he
      | contents hc' hd' h =>
        cases hc.symm.trans hc'
        cases hd.symm.trans hd'
        exact h
  | function he => exact .function he
  | native he => exact .native he
  | classRef id => exact .classRef id
  | enumeration he => exact .enumeration he
  | member hm hn => exact .member hm hn
  | tagged hm hn _ =>
    refine .tagged hm hn fun n => ?_
    cases h n with
    | tagged _ _ h => exact h

theorem isBisimulation_agree (s : State) : s.IsBisimulation fun x y => ∀ n, s.agree n x y :=
  fun _ _ h => alike_forall fun n => h (n + 1)

theorem Bisimilar.alike {s : State} {x y : Value} (h : s.Bisimilar x y) :
    s.Alike s.Bisimilar x y := by
  obtain ⟨R, hR, hxy⟩ := h
  exact (hR x y hxy).mono fun a b hab => ⟨R, hR, hab⟩

/-- A comparison that succeeds has overlooked nothing: an open pair that was taken as equal differs
less deep than it is open, if at all. -/
theorem agree_of_equalIn {s : State} (hs : s.DistinctKeys) {depth : Nat}
    {path : List (Container × Container)} {x y : Value}
    (hpath : ∀ pair ∈ path, s.agree depth (.container pair.1) (.container pair.2))
    (h : s.equalIn path x y = true) : s.agree depth x y := by
  induction depth generalizing path x y with
  | zero => trivial
  | succ depth ih =>
    have hpath' : ∀ pair ∈ path, s.agree depth (.container pair.1) (.container pair.2) :=
      fun pair hp => agree_of_succ (hpath pair hp)
    rcases alike_of_equalIn hs h with ⟨c, d, rfl, rfl, hopen⟩ | halike
    · exact hpath _ hopen
    · refine halike.mono fun a b hab => ih ?_ hab
      -- The pair at hand is open below, and agrees one reference less deep.
      intro pair hp
      cases x <;> cases y <;> try exact hpath' pair hp
      rcases List.mem_cons.mp hp with rfl | hp
      · exact ih hpath' h
      · exact hpath' pair hp

/-- Bisimilar values compare as equal, whatever pairs are open. -/
theorem equalIn_of_bisimilar {s : State} (hs : s.DistinctKeys)
    {path : List (Container × Container)} {x y : Value} (h : s.Bisimilar x y) :
    s.equalIn path x y = true := by
  -- Each pair that is opened leaves fewer to open, and between two of them only payloads are taken apart.
  induction hcount : unseen s.containerPairs path using Nat.strongRecOn
    generalizing path x y with
  | ind count ihpath =>
    induction x generalizing y with
    | container c =>
      cases h.alike with
      | same => exact equalIn_of_alike hs (.same c)
      | @contents _ d a b hc hd hrelated =>
        rw [equalIn_container_iff hs]
        by_cases hopen : (c, d) ∈ path
        · exact .inl hopen
        · have hless : unseen s.containerPairs ((c, d) :: path) < count :=
            hcount ▸ unseen_cons_lt (mem_containerPairs (mem_containers_of_contents? hc)
              (mem_containers_of_contents? hd)) hopen
          exact .inr (.contents hc hd (hrelated.mono fun u v huv => ihpath _ hless huv rfl))
    | tagged m payload ihpayload =>
      cases h.alike with
      | tagged hm hn hpayload => exact equalIn_of_alike hs (.tagged hm hn (ihpayload hpayload))
    | _ =>
      cases h.alike
      exact equalIn_of_alike hs (by constructor <;> assumption)

theorem equal_iff_bisimilar {s : State} (hs : s.DistinctKeys) {a b : Value} :
    s.equal a b = true ↔ s.Bisimilar a b := by
  constructor
  · intro h
    exact ⟨_, isBisimulation_agree s, fun n => agree_of_equalIn hs (by simp) h⟩
  · exact equalIn_of_bisimilar hs

/-- On every heap, equality is a bisimulation, and it relates whatever a bisimulation relates. -/
theorem equal_isGreatest_bisimulation {s : State} (hs : s.DistinctKeys) :
    IsGreatest {R : Value → Value → Prop | s.IsBisimulation R} fun a b => s.equal a b = true := by
  constructor
  · intro a b h
    have halike := ((equal_iff_bisimilar hs).mp h).alike
    exact halike.mono fun x y hxy => (equal_iff_bisimilar hs).mpr hxy
  · intro R hR a b hab
    exact (equal_iff_bisimilar hs).mpr ⟨R, hR, hab⟩

/-- Two objects that hold each other, with their names in opposite orders. -/
def twins : State :=
  { initial 0 with
    objects := #[.ofList [("other", .object ⟨1⟩), ("kind", .string "twin")],
      .ofList [("kind", .string "twin"), ("other", .object ⟨0⟩)]] }

theorem twins_equal :
    twins.DistinctKeys ∧ twins.equal (.object ⟨0⟩) (.object ⟨1⟩) = true ∧
      IsGreatest {R : Value → Value → Prop | twins.IsBisimulation R}
        fun a b => twins.equal a b = true := by
  have hdistinct : twins.DistinctKeys := by
    refine ⟨fun record hrecord => ?_, by simp [twins, initial], by simp [twins, initial]⟩
    rcases (show record = _ ∨ record = _ by simpa [twins] using hrecord) with rfl | rfl <;> decide
  exact ⟨hdistinct, by cbv, equal_isGreatest_bisimulation hdistinct⟩

end State

end ScriptLang
