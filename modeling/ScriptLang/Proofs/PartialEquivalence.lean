import ScriptLang.Proofs.Bisimulation

/-! Structural equality is symmetric and transitive on every heap, cycles included, because bisimilarity is.
A value is unequal to itself only if it is a NaN, or a member of an enum around one. -/

namespace ScriptLang

/-! ### Numbers -/

namespace Number

variable {x y z : Float}

open Float.Model UnpackedFloat in
theorem unpacked_beq_iff {u v : UnpackedFloat} :
    u.beq v = true ↔ (∃ s s', u = .zero s ∧ v = .zero s') ∨ (u = v ∧ u.isNaN = false) := by
  have hsign : ∀ s s' : Sign, compare s s' = .eq ↔ s = s' := by
    intro s s'
    cases s <;> cases s' <;> simp [compare]
  cases u with
  | notANumber => simp [UnpackedFloat.beq, UnpackedFloat.compare, UnpackedFloat.isNaN]
  | infinity s =>
    cases v with
    | infinity s' => simp [UnpackedFloat.beq, UnpackedFloat.compare, UnpackedFloat.isNaN, hsign]
    | _ => cases s <;> simp [UnpackedFloat.beq, UnpackedFloat.compare]
  | zero s =>
    cases v with
    | infinity s' | finite s' => cases s' <;> simp [UnpackedFloat.beq, UnpackedFloat.compare]
    | _ => simp [UnpackedFloat.beq, UnpackedFloat.compare]
  | finite s m e =>
    cases v with
    | finite s' m' e' =>
      cases s <;> cases s' <;>
        simp [UnpackedFloat.beq, UnpackedFloat.compare, UnpackedFloat.isNaN, and_comm]
    | infinity s' => cases s <;> cases s' <;> simp [UnpackedFloat.beq, UnpackedFloat.compare]
    | _ => cases s <;> simp [UnpackedFloat.beq, UnpackedFloat.compare]

theorem beq_iff : (x == y) = true ↔
    (∃ s s', x.toModel.unpack = .zero s ∧ y.toModel.unpack = .zero s') ∨
      (x.toModel.unpack = y.toModel.unpack ∧ x.toModel.unpack.isNaN = false) :=
  unpacked_beq_iff

theorem beq_symm (h : (x == y) = true) : (y == x) = true := by
  rw [beq_iff] at h ⊢
  rcases h with ⟨s, s', hx, hy⟩ | ⟨hxy, hnan⟩
  · exact .inl ⟨s', s, hy, hx⟩
  · exact .inr ⟨hxy.symm, hxy ▸ hnan⟩

theorem beq_trans (hxy : (x == y) = true) (hyz : (y == z) = true) : (x == z) = true := by
  rw [beq_iff] at hxy hyz ⊢
  rcases hxy with ⟨s, s', hx, hy⟩ | ⟨hxy, hnan⟩
  · rcases hyz with ⟨_, s'', -, hz⟩ | ⟨hyz, -⟩
    · exact .inl ⟨s, s'', hx, hz⟩
    · exact .inl ⟨s, s', hx, hyz ▸ hy⟩
  · rw [hxy] at hnan ⊢
    exact hyz

theorem beq_self_iff : (x == x) = true ↔ x.isNaN = false := by
  have hnan : x.isNaN = x.toModel.unpack.isNaN := rfl
  rw [beq_iff, hnan]
  constructor
  · rintro (⟨s, s', hx, -⟩ | ⟨-, hnan⟩)
    · rw [hx]
      rfl
    · exact hnan
  · exact fun hnan => .inr ⟨rfl, hnan⟩

end Number

/-! ### Turning relations around, and putting them together -/

variable {R S : Value → Value → Prop}

theorem Record.Related.symm {a b : Record Value} (hRS : ∀ x y, R x y → S y x)
    (h : a.Related R b) : b.Related S a :=
  ⟨fun key => (h.1 key).symm, fun key y x hy hx => hRS x y (h.2 key x y hx hy)⟩

theorem Contents.Related.symm (hRS : ∀ x y, R x y → S y x) :
    ∀ {a b : Contents}, a.Related R b → b.Related S a
  | elements _, elements _, h => (List.Forall₂.imp hRS h).flip
  | properties _, properties _, h => Record.Related.symm hRS h
  | fields _ _, fields _ _, h => ⟨h.1.symm, h.2.symm hRS⟩

/-- What two steps through `R` relate. -/
def Twice (R : Value → Value → Prop) (x z : Value) : Prop :=
  ∃ y, R x y ∧ R y z

theorem forall₂_twice {xs ys zs : List Value} (hxy : List.Forall₂ R xs ys)
    (hyz : List.Forall₂ R ys zs) : List.Forall₂ (Twice R) xs zs := by
  induction hxy generalizing zs with
  | nil =>
    cases hyz
    exact .nil
  | cons hx _ ih =>
    cases hyz with
    | cons hy hrest => exact .cons ⟨_, hx, hy⟩ (ih hrest)

theorem Record.Related.twice {a b c : Record Value} (hab : a.Related R b) (hbc : b.Related R c) :
    a.Related (Twice R) c := by
  refine ⟨fun key => (hab.1 key).trans (hbc.1 key), fun key x z hx hz => ?_⟩
  obtain ⟨y, hy⟩ := exists_get?_of_mem_keys ((hab.1 key).mp (mem_keys_of_get? hx))
  exact ⟨y, hab.2 key x y hx hy, hbc.2 key y z hy hz⟩

theorem Contents.Related.twice :
    ∀ {a b c : Contents}, a.Related R b → b.Related R c → a.Related (Twice R) c
  | elements _, elements _, elements _, hab, hbc => forall₂_twice hab hbc
  | properties _, properties _, properties _, hab, hbc => Record.Related.twice hab hbc
  | fields _ _, fields _ _, fields _ _, hab, hbc => ⟨hab.1.trans hbc.1, hab.2.twice hbc.2⟩

namespace State

variable {s : State} {x y z : Value}

theorem Alike.symm (hRS : ∀ x y, R x y → S y x) (h : s.Alike R x y) : s.Alike S y x := by
  cases h with
  | null => exact .null
  | bool b => exact .bool b
  | number h => exact .number (Number.beq_symm h)
  | string text => exact .string text
  | same c => exact .same c
  | contents hc hd h => exact .contents hd hc (h.symm hRS)
  | function h => exact .function h.symm
  | native h => exact .native h.symm
  | classRef id => exact .classRef id
  | enumeration h => exact .enumeration h.symm
  | member hm hn => exact .member hm.symm hn.symm
  | tagged hm hn h => exact .tagged hm.symm hn.symm (hRS _ _ h)

/-- A container that is taken as equal to itself may hold a NaN, so on its parts one step remains. -/
theorem Alike.twice (hxy : s.Alike R x y) (hyz : s.Alike R y z) :
    s.Alike (fun x z => R x z ∨ Twice R x z) x z := by
  have hstep : ∀ x z, R x z → R x z ∨ Twice R x z := fun _ _ => .inl
  have htwice : ∀ x z, Twice R x z → R x z ∨ Twice R x z := fun _ _ => .inr
  cases hxy with
  | same c => exact hyz.mono hstep
  -- The three containers are compared by their contents, unless two of them are the same one.
  | contents hc hd h =>
    cases hyz with
    | same => exact .contents hc hd (h.mono hstep)
    | contents hd' he h' =>
      cases hd.symm.trans hd'
      exact .contents hc he ((h.twice h').mono htwice)
  | null => exact hyz.mono hstep
  | bool b => exact hyz.mono hstep
  | string text => exact hyz.mono hstep
  | classRef id => exact hyz.mono hstep
  | number h =>
    cases hyz with
    | number h' => exact .number (Number.beq_trans h h')
  | function h =>
    cases hyz with
    | function h' => exact .function (h.trans h')
  | native h =>
    cases hyz with
    | native h' => exact .native (h.trans h')
  | enumeration h =>
    cases hyz with
    | enumeration h' => exact .enumeration (h.trans h')
  | member hm hn =>
    cases hyz with
    | member hm' hn' => exact .member (hm.trans hm') (hn.trans hn')
  | tagged hm hn h =>
    cases hyz with
    | tagged hm' hn' h' => exact .tagged (hm.trans hm') (hn.trans hn') (.inr ⟨_, h, h'⟩)

/-! ### Bisimilarity -/

theorem Bisimilar.symm (h : s.Bisimilar x y) : s.Bisimilar y x :=
  ⟨fun y x => s.Bisimilar x y, fun _ _ hxy => hxy.alike.symm fun _ _ h => h, h⟩

theorem Bisimilar.trans (hxy : s.Bisimilar x y) (hyz : s.Bisimilar y z) : s.Bisimilar x z := by
  refine ⟨fun x z => s.Bisimilar x z ∨ Twice s.Bisimilar x z, ?_, .inr ⟨y, hxy, hyz⟩⟩
  rintro x z (h | ⟨y, hxy, hyz⟩)
  · exact h.alike.mono fun _ _ => .inl
  · exact hxy.alike.twice hyz.alike

end State

/-! ### Values and themselves -/

/-- A NaN, or a member of an enum that gets to one through payloads alone. -/
def Value.carriesNaN : Value → Bool
  | number x => x.isNaN
  | tagged _ payload => payload.carriesNaN
  | null | bool _ | string _ | container _ | function _ | native _ | classRef _ | enumeration _
  | member _ => false

namespace State

variable {s : State}

theorem equalIn_self {path : List (Container × Container)} {a : Value} :
    s.equalIn path a a = !a.carriesNaN := by
  induction a with
  | number x =>
    have hself : s.equalIn path (.number x) (.number x) = (x == x) := by rw [equalIn]
    rw [hself, Value.carriesNaN, Bool.eq_iff_iff, Number.beq_self_iff]
    simp
  | tagged m payload ih =>
    have hsame : m.isSame m = true := by simp [Member.isSame]
    rw [equalIn, hsame, Bool.true_and, ih, Value.carriesNaN]
  | _ =>
    rw [equalIn]
    simp [Member.isSame, Value.carriesNaN]

/-- On every heap, equality is symmetric and transitive, and reflexive but for NaNs and members of enums around
them. -/
theorem equal_isPartialEquivalence (hs : s.DistinctKeys) :
    (∀ a b, s.equal a b = s.equal b a) ∧
    (∀ a b c, s.equal a b = true → s.equal b c = true → s.equal a c = true) ∧
    ∀ a, s.equal a a = !a.carriesNaN := by
  refine ⟨fun a b => ?_, fun a b c hab hbc => ?_, fun a => equalIn_self⟩
  · rw [Bool.eq_iff_iff, equal_iff_bisimilar hs, equal_iff_bisimilar hs]
    exact ⟨Bisimilar.symm, Bisimilar.symm⟩
  · rw [equal_iff_bisimilar hs] at hab hbc ⊢
    exact hab.trans hbc

/-- A ring of one object and a ring of two. -/
def rings : State :=
  { initial 0 with
    objects := #[.ofList [("kind", .string "ring"), ("next", .object ⟨0⟩)],
      .ofList [("next", .object ⟨2⟩), ("kind", .string "ring")],
      .ofList [("kind", .string "ring"), ("next", .object ⟨1⟩)]] }

/-- The rings are equal wherever they are entered, and a NaN is not equal to itself. -/
theorem rings_equal :
    rings.DistinctKeys ∧
      rings.equal (.object ⟨1⟩) (.object ⟨0⟩) = rings.equal (.object ⟨0⟩) (.object ⟨1⟩) ∧
      rings.equal (.object ⟨0⟩) (.object ⟨2⟩) = true ∧
      rings.equal (.object ⟨0⟩) (.object ⟨0⟩) = true ∧
      rings.equal (.number Float.nan) (.number Float.nan) = false := by
  have hdistinct : rings.DistinctKeys := by
    refine ⟨fun record hrecord => ?_, by simp [rings, initial], by simp [rings, initial]⟩
    rcases (show record = _ ∨ record = _ ∨ record = _ by simpa [rings] using hrecord) with
      rfl | rfl | rfl <;> decide
  obtain ⟨hsymm, htrans, hself⟩ := equal_isPartialEquivalence hdistinct
  have hfirst : rings.equal (.object ⟨0⟩) (.object ⟨1⟩) = true := by cbv
  have hsecond : rings.equal (.object ⟨1⟩) (.object ⟨2⟩) = true := by cbv
  refine ⟨hdistinct, hsymm _ _, htrans _ _ _ hfirst hsecond, ?_, ?_⟩
  · rw [hself]
    rfl
  · rw [hself]
    decide +kernel

end State

end ScriptLang
