import Mathlib

/-! The parts of a number's bits. A number is a special value or a mantissa with an exponent, and its
bits are the packed parts. -/

namespace ScriptLang.Number

open Float.Model
open Float.Model.UnpackedFloat

/-- The format of numbers. -/
abbrev format : Format :=
  .binary64

/-! ### Signs, exponents and fractions -/

section Components

variable {s : Sign} {e : BitVec 11} {f : BitVec 52}

theorem toBitVec_ofBitVec (v : BitVec 1) : (Sign.ofBitVec v).toBitVec = v := by
  have hbit : v = 0#1 ∨ v = 1#1 := by
    have hlt : v.toNat < 2 ^ 1 := v.isLt
    obtain hzero | hone : v.toNat = 0 ∨ v.toNat = 1 := by omega
    · exact .inl (BitVec.eq_of_toNat_eq hzero)
    · exact .inr (BitVec.eq_of_toNat_eq hone)
  obtain rfl | rfl := hbit <;> rfl

theorem ofBitVec_toBitVec : Sign.ofBitVec s.toBitVec = s := by
  cases s <;> rfl

theorem unpackSign_packComponents : unpackSign (packComponents format s e f) = s.toBitVec := by
  apply BitVec.eq_of_getLsbD_eq
  intro i hi
  obtain rfl : i = 0 := by omega
  simp only [unpackSign, packComponents]
  grind

theorem exists_components (b : BitVec 64) : ∃ s e f, b = packComponents format s e f := by
  refine ⟨.ofBitVec (b.extractLsb' 63 1), b.extractLsb' 52 11, b.extractLsb' 0 52, ?_⟩
  rw [packComponents, toBitVec_ofBitVec]
  apply BitVec.eq_of_getLsbD_eq
  intro i hi
  grind

theorem toNat_mantissa : (1#1 ++ f).toNat = 2 ^ 52 + f.toNat := by
  have hlt : f.toNat < 2 ^ 52 := f.isLt
  rw [BitVec.toNat_append, ← Nat.shiftLeft_add_eq_or_of_lt hlt]
  rfl

/-! ### What the parts stand for -/

theorem unpack_infinity : UnpackedFloat.unpack format (packedInfinity format s) = .infinity s := by
  cases s <;> rfl

theorem unpack_zero : UnpackedFloat.unpack format (packedZero format s) = .zero s := by
  cases s <;> rfl

theorem exponentBias_eq : ((format.exponentBias : Nat) : Int) = 1023 :=
  rfl

theorem unpack_subnormal (hf : f ≠ 0#52) (hpos : 0 < f.toNat) :
    UnpackedFloat.unpack format (packComponents format s 0#11 f) =
      .finite s f.toNat (-1074) hpos := by
  simp [UnpackedFloat.unpack, hf, exponentBias_eq]

theorem unpack_normal (hlow : e ≠ 0#11) (hhigh : e ≠ -1#11) :
    UnpackedFloat.unpack format (packComponents format s e f) =
      .finite s (2 ^ 52 + f.toNat) (e.toNat - 1075) (by omega) := by
  rw [UnpackedFloat.unpack]
  simp only [unpackMantissa_packComponents, unpackExponent_packComponents,
    unpackSign_packComponents, ofBitVec_toBitVec, toNat_mantissa, exponentBias_eq]
  rw [if_neg hhigh, if_neg hlow]
  rfl

theorem pack_subnormal (hpos : 0 < f.toNat) :
    UnpackedFloat.pack format (.finite s f.toNat (-1074) hpos) =
      packComponents format s 0#11 f := by
  have hlt : f.toNat < 2 ^ 52 := f.isLt
  have hlog : f.toNat.log2 < 52 := (Nat.log2_lt (by omega)).mpr hlt
  have hshort : f.toNat.log2 + 1 ≠ format.mantissaBits := by
    show f.toNat.log2 + 1 ≠ 53
    omega
  rw [UnpackedFloat.pack]
  simp only [exponentBias_eq, hshort, if_false]
  rw [if_neg (by decide), BitVec.ofNat_toNat]
  rfl

theorem pack_normal (hhigh : e ≠ -1#11) (hpos : 0 < 2 ^ 52 + f.toNat) :
    UnpackedFloat.pack format (.finite s (2 ^ 52 + f.toNat) (e.toNat - 1075) hpos) =
      packComponents format s e f := by
  have hlt : f.toNat < 2 ^ 52 := f.isLt
  have hlog : (2 ^ 52 + f.toNat).log2 = 52 := (Nat.log2_eq_iff (by omega)).mpr (by omega)
  have hmax : e.toNat ≠ 2047 := fun h => hhigh (BitVec.eq_of_toNat_eq h)
  have helt : e.toNat < 2 ^ 11 := e.isLt
  have hfraction : BitVec.ofNat 52 (2 ^ 52 + f.toNat) = f := by
    apply BitVec.eq_of_toNat_eq
    rw [BitVec.toNat_ofNat]
    omega
  have hbiased : (e.toNat - 1075 + (format.exponentBias : Nat) +
      (format.mantissaBitsWithoutImplicit : Nat) : Int).toNat = e.toNat := by
    rw [exponentBias_eq]
    show (e.toNat - 1075 + 1023 + 52 : Int).toNat = e.toNat
    omega
  have hfull : 52 + 1 = format.mantissaBits := rfl
  rw [UnpackedFloat.pack]
  simp only [hbiased, hlog]
  rw [if_neg, if_pos hfull, BitVec.ofNat_toNat, BitVec.setWidth_eq, hfraction]
  show ¬2 ^ 11 ≤ e.toNat + 1
  omega

end Components

/-- The mantissa and the exponent of a finite number other than zero. The mantissa has fewer bits than
it could only at the least exponent. -/
structure FiniteParts (m : Nat) (e : Int) : Prop where
  pos : 0 < m
  short : m < 2 ^ 53
  low : -1074 ≤ e
  high : e ≤ 971
  full : 2 ^ 52 ≤ m ∨ e = -1074

/-- The value that the bits stand for, for each form the bits can have. -/
inductive Represents : BitVec 64 → UnpackedFloat → Prop
  | notANumber : Represents (packedNaN format) .notANumber
  | infinity (s : Sign) : Represents (packedInfinity format s) (.infinity s)
  | zero (s : Sign) : Represents (packedZero format s) (.zero s)
  | subnormal (s : Sign) (f : BitVec 52) (hpos : 0 < f.toNat) :
    Represents (packComponents format s 0#11 f) (.finite s f.toNat (-1074) hpos)
  | normal (s : Sign) (e : BitVec 11) (f : BitVec 52) (hlow : e ≠ 0#11) (hhigh : e ≠ -1#11)
      (hpos : 0 < 2 ^ 52 + f.toNat) :
    Represents (packComponents format s e f)
      (.finite s (2 ^ 52 + f.toNat) (e.toNat - 1075) hpos)

namespace Represents

variable {b : BitVec 64} {u : UnpackedFloat}

theorem unpack (h : Represents b u) : UnpackedFloat.unpack format b = u := by
  cases h with
  | notANumber => rfl
  | infinity s => exact unpack_infinity
  | zero s => exact unpack_zero
  | subnormal s f hpos => exact unpack_subnormal (by rintro rfl; simp at hpos) hpos
  | normal s e f hlow hhigh hpos => exact unpack_normal hlow hhigh

theorem pack (h : Represents b u) : UnpackedFloat.pack format u = b := by
  cases h with
  | notANumber | infinity | zero => rfl
  | subnormal s f hpos => exact pack_subnormal hpos
  | normal s e f hlow hhigh hpos => exact pack_normal hhigh hpos

theorem neg (h : Represents b u) : ∃ b', Represents b' u.neg := by
  cases h with
  | notANumber => exact ⟨_, .notANumber⟩
  | infinity s => exact ⟨_, .infinity (-s)⟩
  | zero s => exact ⟨_, .zero (-s)⟩
  | subnormal s f hpos => exact ⟨_, .subnormal (-s) f hpos⟩
  | normal s e f hlow hhigh hpos => exact ⟨_, .normal (-s) e f hlow hhigh hpos⟩

theorem finiteParts {s : Sign} {m : Nat} {e : Int} {hpos : 0 < m}
    (h : Represents b (.finite s m e hpos)) : FiniteParts m e := by
  cases h with
  | subnormal _ f =>
    have hlt : f.toNat < 2 ^ 52 := f.isLt
    exact ⟨hpos, by omega, by omega, by omega, .inr rfl⟩
  | normal _ e f hlow hhigh =>
    have hlt : f.toNat < 2 ^ 52 := f.isLt
    have helt : e.toNat < 2 ^ 11 := e.isLt
    have hmin : e.toNat ≠ 0 := fun h => hlow (BitVec.eq_of_toNat_eq h)
    have hmax : e.toNat ≠ 2047 := fun h => hhigh (BitVec.eq_of_toNat_eq h)
    exact ⟨hpos, by omega, by omega, by omega, .inl (by omega)⟩

end Represents

theorem exists_represents {b : BitVec 64} (hb : format.Valid b) : ∃ u, Represents b u := by
  obtain ⟨s, e, f, rfl⟩ := exists_components b
  by_cases hhigh : e = -1#11
  · by_cases hf : f = 0#52
    · subst hhigh hf
      exact ⟨_, .infinity s⟩
    · have hnan : packComponents format s e f = packedNaN format := by
        apply hb.eq_packedNaN
        · rw [unpackExponent_packComponents, hhigh]
        · rwa [unpackMantissa_packComponents]
      rw [hnan]
      exact ⟨_, .notANumber⟩
  · by_cases hlow : e = 0#11
    · by_cases hf : f = 0#52
      · subst hlow hf
        exact ⟨_, .zero s⟩
      · have hpos : 0 < f.toNat := Nat.pos_of_ne_zero fun h => hf (BitVec.eq_of_toNat_eq h)
        subst hlow
        exact ⟨_, .subnormal s f hpos⟩
    · exact ⟨_, .normal s e f hlow hhigh (by omega)⟩

/-! ### Numbers and their values -/

theorem exists_unpack (x : Float) :
    ∃ u, Represents x.toBits.toBitVec u ∧ x = .ofModel (.pack u) := by
  obtain ⟨⟨bits, hvalid⟩⟩ := x
  obtain ⟨u, hu⟩ := exists_represents hvalid
  refine ⟨u, hu, ?_⟩
  simp [Float.Model.pack, hu.pack]

theorem neg_ofModel_pack {b : BitVec 64} {u : UnpackedFloat} (h : Represents b u) :
    -Float.ofModel (.pack u) = .ofModel (.pack u.neg) := by
  show Float.ofModel (.pack (UnpackedFloat.unpack format (UnpackedFloat.pack format u)).neg) = _
  rw [h.pack, h.unpack]

/-! ### Exact rounding -/

section Rounding

variable {m : Nat} {e : Int}

theorem shift_exact (m j : Nat) :
    (⟨m * 2 ^ j, false, false⟩ : ExtendedMantissa) >>> j = ⟨m, false, false⟩ := by
  show Nat.repeat ExtendedMantissa.shiftRightOne j ⟨m * 2 ^ j, false, false⟩ = _
  induction j generalizing m with
  | zero => simp [Nat.repeat]
  | succ j ih =>
    have hdouble : m * 2 ^ (j + 1) = m * 2 * 2 ^ j := by rw [Nat.pow_succ]; ac_rfl
    rw [Nat.repeat, hdouble, ih (m * 2)]
    simp [ExtendedMantissa.shiftRightOne]

theorem log2_mul_pow {m : Nat} (hm : m ≠ 0) (j : Nat) : (m * 2 ^ j).log2 = m.log2 + j := by
  have hpow : 0 < 2 ^ j := Nat.two_pow_pos j
  refine (Nat.log2_eq_iff (Nat.mul_ne_zero hm (Nat.pos_iff_ne_zero.mp hpow))).mpr ⟨?_, ?_⟩
  · rw [Nat.pow_add]
    exact Nat.mul_le_mul_right _ (Nat.log2_self_le hm)
  · have hsum : m.log2 + j + 1 = m.log2 + 1 + j := by omega
    rw [hsum, Nat.pow_add]
    exact Nat.mul_lt_mul_of_pos_right Nat.lt_log2_self hpow

theorem targetExponent_eq (x : Int) : format.targetExponent x = max (x - 53) (-1074) :=
  rfl

theorem FiniteParts.log2_le (h : FiniteParts m e) : m.log2 ≤ 52 := by
  have hlog := (Nat.log2_lt (Nat.pos_iff_ne_zero.mp h.pos)).mpr h.short
  omega

theorem FiniteParts.targetExponent (h : FiniteParts m e) :
    format.targetExponent (m.log2 + 1 + e) = e := by
  rw [targetExponent_eq]
  have hle := h.log2_le
  have hlow := h.low
  obtain hfull | hleast := h.full
  · have hge : 52 ≤ m.log2 := (Nat.le_log2 (Nat.pos_iff_ne_zero.mp h.pos)).mpr hfull
    omega
  · omega

theorem FiniteParts.shiftToTargetExponent (h : FiniteParts m e) {j : Nat} {t : Int}
    (ht : t + j = e) :
    shiftToTargetExponent format (m * 2 ^ j) t .exact = (⟨m, false, false⟩, e) := by
  have hlog : (m * 2 ^ j).log2 = m.log2 + j := log2_mul_pow (Nat.pos_iff_ne_zero.mp h.pos) j
  have htarget : format.targetExponent (totalExponent (m * 2 ^ j) t) = e := by
    rw [totalExponent, hlog]
    have hsum : ((m.log2 + j : Nat) + 1 + t : Int) = m.log2 + 1 + e := by omega
    rw [hsum]
    exact h.targetExponent
  have hshift : (e - t).toNat = j := by omega
  rw [UnpackedFloat.shiftToTargetExponent, htarget]
  simp only [shiftToExponent, hshift, ExtendedMantissa.ofMantissaAndAccuracy, shift_exact, ht]

theorem FiniteParts.roundWithAccuracy (h : FiniteParts m e) {s : Sign} {j : Nat} {t : Int}
    (ht : t + j = e) :
    roundWithAccuracy format s (m * 2 ^ j) t .exact = .finite s m e h.pos := by
  have hagain : UnpackedFloat.shiftToTargetExponent format m e .exact = (⟨m, false, false⟩, e) := by
    have hzero := h.shiftToTargetExponent (Int.add_zero e)
    rwa [Nat.pow_zero, Nat.mul_one] at hzero
  have hne : m ≠ 0 := Nat.pos_iff_ne_zero.mp h.pos
  rw [UnpackedFloat.roundWithAccuracy, h.shiftToTargetExponent ht]
  simp [ExtendedMantissa.roundedMantissa, ExtendedMantissa.accuracy, Accuracy.roundToNearestEven,
    hagain, hne]

end Rounding

end ScriptLang.Number
