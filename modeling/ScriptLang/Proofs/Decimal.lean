import ScriptLang.Number.Reading
import ScriptLang.Proofs.Nearest

/-! A decimal is read as the number in whose interval it lies. -/

namespace ScriptLang.Number

open Float.Model
open Float.Model.UnpackedFloat

variable {m D k : Nat} {e : Int}

/-! ### Finite numbers and their bits -/

theorem FiniteParts.exists_represents (h : FiniteParts m e) (s : Sign) :
    ∃ b, Represents b (.finite s m e h.pos) := by
  have hshort := h.short
  have hlow := h.low
  have hhigh := h.high
  have hfull := h.full
  by_cases hm : 2 ^ 52 ≤ m
  · obtain ⟨f, rfl⟩ : ∃ f : BitVec 52, m = 2 ^ 52 + f.toNat := by
      refine ⟨BitVec.ofNat 52 (m - 2 ^ 52), ?_⟩
      rw [BitVec.toNat_ofNat]
      omega
    obtain ⟨b, rfl⟩ : ∃ b : BitVec 11, e = b.toNat - 1075 := by
      refine ⟨BitVec.ofNat 11 (e + 1075).toNat, ?_⟩
      rw [BitVec.toNat_ofNat]
      omega
    refine ⟨_, .normal s b f ?_ ?_ h.pos⟩
    · rintro rfl
      simp at hlow
    · rintro rfl
      simp at hhigh
  · obtain rfl : e = -1074 := hfull.resolve_left hm
    obtain ⟨f, rfl⟩ : ∃ f : BitVec 52, m = f.toNat := by
      refine ⟨BitVec.ofNat 52 m, ?_⟩
      rw [BitVec.toNat_ofNat]
      omega
    exact ⟨_, .subnormal s f h.pos⟩

theorem FiniteParts.unpack_pack (h : FiniteParts m e) (s : Sign) :
    (Float.Model.pack (.finite s m e h.pos)).unpack = .finite s m e h.pos := by
  obtain ⟨b, hb⟩ := h.exists_represents s
  show UnpackedFloat.unpack format (UnpackedFloat.pack format _) = _
  rw [hb.pack, hb.unpack]

/-! ### Small counts and powers of ten -/

theorem finiteParts_count (hD : 0 < D) (hshort : D < 2 ^ 53) :
    FiniteParts (D * 2 ^ (52 - D.log2)) (D.log2 - 52) := by
  have hlog : D.log2 ≤ 52 := by
    have hlt := (Nat.log2_lt hD.ne').mpr hshort
    omega
  refine ⟨Nat.mul_pos hD (Nat.two_pow_pos _), ?_, by omega, by omega, .inl ?_⟩
  · calc D * 2 ^ (52 - D.log2)
        _ < 2 ^ (D.log2 + 1) * 2 ^ (52 - D.log2) :=
          Nat.mul_lt_mul_of_pos_right Nat.lt_log2_self (Nat.two_pow_pos _)
        _ = 2 ^ 53 := by rw [← Nat.pow_add]; congr 1; omega
  · calc 2 ^ 52
        _ = 2 ^ D.log2 * 2 ^ (52 - D.log2) := by rw [← Nat.pow_add]; congr 1; omega
        _ ≤ D * 2 ^ (52 - D.log2) := Nat.mul_le_mul_right _ (Nat.log2_self_le hD.ne')

theorem toFloat_toUInt64 (hD : 0 < D) (hshort : D < 2 ^ 53) :
    D.toUInt64.toFloat = .ofModel (.pack (.finite .positive (D * 2 ^ (52 - D.log2)) (D.log2 - 52)
      (finiteParts_count hD hshort).pos)) := by
  have hparts := finiteParts_count hD hshort
  have hlog : D.log2 ≤ 52 := by
    have hlt := (Nat.log2_lt hD.ne').mpr hshort
    omega
  have hcount : D.toUInt64.toNat = D := UInt64.toNat_ofNat_of_lt' (by
    show D < 2 ^ 64
    omega)
  have htarget : format.targetExponent (totalExponent D 0) = D.log2 - 52 := by
    rw [targetExponent_eq, totalExponent]
    omega
  have hshift : (0 - ((D.log2 : Int) - 52)).toNat = 52 - D.log2 := by omega
  have hexponent : (0 - ((52 - D.log2 : Nat) : Int)) = D.log2 - 52 := by omega
  have hround : UnpackedFloat.round format .positive D 0 =
      .finite .positive (D * 2 ^ (52 - D.log2)) (D.log2 - 52) hparts.pos := by
    have hexact := hparts.roundWithAccuracy (s := .positive) (Int.add_zero _)
    rw [pow_zero, mul_one] at hexact
    rw [UnpackedFloat.round, htarget]
    simp only [decreaseExponent, hshift, hexponent, Nat.shiftLeft_eq]
    exact hexact
  have hnormal : UnpackedFloat.ofUInt64 format D.toUInt64 =
      .finite .positive (D * 2 ^ (52 - D.log2)) (D.log2 - 52) hparts.pos := by
    rw [UnpackedFloat.ofUInt64, hcount, UnpackedFloat.ofNat, UnpackedFloat.ofInt,
      UnpackedFloat.normalize]
    have hcompare : compare (D : Int) 0 = .gt := Int.compare_eq_gt.mpr (by omega)
    rw [hcompare]
    exact hround
  rw [UInt64.toFloat, Float.Model.ofUInt64, hnormal]

/-- The unpacked number is this power of ten. -/
def isPowerOfTen (k : Nat) : UnpackedFloat → Bool
  | .finite .positive n c _ => -52 ≤ c && n * 2 ^ (c + 52).toNat == 10 ^ k * 2 ^ 52
  | _ => false

theorem isPowerOfTen_table : ∀ k : Fin Float.exactlyRepresentablePowersOfTen.size,
    isPowerOfTen k Float.exactlyRepresentablePowersOfTen[k].toModel.unpack = true := by
  decide +kernel

theorem exists_of_isPowerOfTen {u : UnpackedFloat} (h : isPowerOfTen k u = true) :
    ∃ n c hn, u = .finite .positive n c hn ∧ (n * 2 ^ c : ℚ) = 10 ^ k := by
  unfold isPowerOfTen at h
  split at h
  · next n c hn =>
    obtain ⟨hc, hpower⟩ := Bool.and_eq_true_iff.mp h
    refine ⟨n, c, hn, rfl, ?_⟩
    have hpower' : (n : ℚ) * 2 ^ (c + 52).toNat = 10 ^ k * 2 ^ 52 := by
      exact_mod_cast beq_iff_eq.mp hpower
    have hle : -52 ≤ c := of_decide_eq_true hc
    have hshift : (((c + 52).toNat : Nat) : Int) = c + 52 := Int.toNat_of_nonneg (by omega)
    rw [← zpow_natCast, hshift, zpow_add₀ two_ne_zero, ← mul_assoc] at hpower'
    exact mul_right_cancel₀ (by norm_num) hpower'
  · cases h

theorem exists_powerOfTen (hk : k < Float.exactlyRepresentablePowersOfTen.size) :
    ∃ n c hn, Float.exactlyRepresentablePowersOfTen[k].toModel.unpack = .finite .positive n c hn ∧
      (n * 2 ^ c : ℚ) = 10 ^ k :=
  exists_of_isPowerOfTen (isPowerOfTen_table ⟨k, hk⟩)

/-! ### Decimals -/

theorem cast_count (hD : 0 < D) (hshort : D < 2 ^ 53) :
    ((D * 2 ^ (52 - D.log2) : Nat) * 2 ^ (D.log2 - 52 : Int) : ℚ) = D := by
  have hlog : D.log2 ≤ 52 := by
    have hlt := (Nat.log2_lt hD.ne').mpr hshort
    omega
  have hexponent : ((52 - D.log2 : Nat) : Int) + (D.log2 - 52) = 0 := by omega
  rw [Nat.cast_mul, Nat.cast_pow, Nat.cast_ofNat, ← zpow_natCast, mul_assoc,
    ← zpow_add₀ two_ne_zero, hexponent, zpow_zero, mul_one]

namespace FiniteParts

/-- The fast way: two numbers are divided or multiplied that are exact. -/
theorem ofScientific_small (h : FiniteParts m e) (hD : 0 < D) (hshort : D < 2 ^ 53) (hk : k ≤ 22)
    (hq : Nearest m e (D / 10 ^ k / 2 ^ e)) :
    Float.ofScientific D (decide (k ≠ 0)) k = .ofModel (.pack (.finite .positive m e h.pos)) := by
  have hcount := finiteParts_count hD hshort
  have htable : k < Float.exactlyRepresentablePowersOfTen.size := Nat.lt_succ_of_le hk
  obtain ⟨n, c, hn, hpower, hten⟩ := exists_powerOfTen htable
  have hdiv : ∀ x y : Float, x / y =
      .ofModel (.pack (UnpackedFloat.div format x.toModel.unpack y.toModel.unpack)) :=
    fun _ _ => rfl
  have hmul : ∀ x y : Float, x * y =
      .ofModel (.pack (UnpackedFloat.mul format x.toModel.unpack y.toModel.unpack)) :=
    fun _ _ => rfl
  rw [Float.ofScientific, dif_pos ⟨hshort, hk⟩]
  dsimp only
  rw [toFloat_toUInt64 hD hshort]
  by_cases hzero : k = 0
  · rw [if_neg (by simpa using hzero), hmul, hpower, hcount.unpack_pack]
    have hvalue : Nearest m e
        ((D * 2 ^ (52 - D.log2) : Nat) * 2 ^ (D.log2 - 52 : Int) * (n * 2 ^ c) / 2 ^ e) := by
      rw [cast_count hD hshort, hten]
      simpa [hzero] using hq
    have hfull : 2 ^ 52 ≤ D * 2 ^ (52 - D.log2) * n :=
      Nat.le_trans (hcount.full.resolve_right (by omega)) (Nat.le_mul_of_pos_right _ hn)
    rw [h.mul_of_nearest hcount.pos hn hfull hvalue]
  · rw [if_pos (by simpa using hzero), hdiv, hpower, hcount.unpack_pack]
    have hvalue : Nearest m e
        ((D * 2 ^ (52 - D.log2) : Nat) * 2 ^ (D.log2 - 52 : Int) / (n * 2 ^ c) / 2 ^ e) := by
      rwa [cast_count hD hshort, hten]
    rw [h.div_of_nearest hcount.pos hn hvalue]

theorem ofScientific_unpacked (h : FiniteParts m e) (hD : 0 < D) (hk : k ≤ 2048 + D.log2)
    (hq : Nearest m e (D / 10 ^ k / 2 ^ e)) :
    UnpackedFloat.ofScientific format D (-k) = .finite .positive m e h.pos := by
  have hhigh : ¬ -(k : Int) > 2 ^ 11 := by omega
  have hlow : ¬ -(k : Int) < -((2 ^ 11 : Int) + D.log2) := by omega
  rw [UnpackedFloat.ofScientific, dif_neg hD.ne', if_neg hhigh, if_neg hlow]
  by_cases hzero : k = 0
  · subst hzero
    have hone : 10 ^ (-((0 : Nat) : Int)).toNat = 1 := rfl
    have hbits : D <<< format.mantissaBits = D * 2 ^ 53 := Nat.shiftLeft_eq D 53
    have hvalue : ((D <<< format.mantissaBits : Nat) * 2 ^ (-(format.mantissaBits : Int)) *
        ((10 ^ (-((0 : Nat) : Int)).toNat : Nat) * 2 ^ (0 : Int)) : ℚ) = D / 10 ^ 0 := by
      have hcancel : (2 : ℚ) ^ 53 * 2 ^ (-(53 : Int)) = 1 := by norm_num
      rw [hone, hbits, Nat.cast_mul, Nat.cast_pow, Nat.cast_ofNat]
      show (D * 2 ^ 53 * 2 ^ (-(53 : Int)) * ((1 : Nat) * 2 ^ (0 : Int)) : ℚ) = D / 10 ^ 0
      rw [mul_assoc (D : ℚ), hcancel]
      simp
    rw [if_pos (by simp)]
    refine h.mul_of_nearest _ _ ?_ (by rwa [hvalue])
    rw [hone, hbits]
    omega
  · have hplaces : (- -(k : Int)).toNat = k := by omega
    rw [if_neg (by omega)]
    refine h.div_of_nearest _ _ ?_
    rw [hplaces]
    simpa using hq

/-- A decimal in the interval of a number is that number. -/
theorem ofScientific_of_nearest (h : FiniteParts m e) (hD : 0 < D) (hk : k ≤ 2048 + D.log2)
    (hq : Nearest m e (D / 10 ^ k / 2 ^ e)) :
    Float.ofScientific D (decide (k ≠ 0)) k = .ofModel (.pack (.finite .positive m e h.pos)) := by
  by_cases hsmall : D < 2 ^ 53 ∧ k ≤ 22
  · exact h.ofScientific_small hD hsmall.1 hsmall.2 hq
  · have hexponent : (if decide (k ≠ 0) = true then Int.negOfNat k else Int.ofNat k) = -k := by
      by_cases hzero : k = 0
      · subst hzero
        rfl
      · rw [if_pos (decide_eq_true hzero)]
        exact Int.negOfNat_eq
    rw [Float.ofScientific, dif_neg hsmall]
    show Float.ofModel (.pack (UnpackedFloat.ofScientific format D
      (if decide (k ≠ 0) = true then Int.negOfNat k else Int.ofNat k))) = _
    rw [hexponent, h.ofScientific_unpacked hD hk hq]

end FiniteParts

/-! ### The range of numbers -/

theorem pow_ten_pos (n : Nat) : 0 < 10 ^ n :=
  Nat.pow_pos (by decide)

namespace Nearest

theorem half_le (hq : Nearest m e (D / 10 ^ k / 2 ^ e)) (hm : 0 < m) :
    1 / 2 * 2 ^ e ≤ (D / 10 ^ k : ℚ) := by
  refine (le_div_iff₀ (zpow_pos two_pos e)).mp (le_trans ?_ hq.low)
  have hone : (1 : ℚ) ≤ m := by exact_mod_cast hm
  linarith [lowGap_le m e]

theorem lt_full (hq : Nearest m e (D / 10 ^ k / 2 ^ e)) (hm : m < 2 ^ 53) :
    (D / 10 ^ k : ℚ) < 2 ^ 53 * 2 ^ e := by
  refine (div_lt_iff₀ (zpow_pos two_pos e)).mp (lt_of_le_of_lt hq.high ?_)
  have hshort : (m : ℚ) + 1 ≤ 2 ^ 53 := by exact_mod_cast hm
  linarith

theorem pow_le (hq : Nearest m e (D / 10 ^ k / 2 ^ e)) (h : FiniteParts m e) :
    10 ^ k ≤ D * (2 * 2 ^ 1074) := by
  obtain ⟨least, hleast⟩ : ∃ least : Nat, least = 1074 := ⟨_, rfl⟩
  have hten : (0 : ℚ) < 10 ^ k := pow_pos (by norm_num) k
  have hle : 1 / 2 * 2 ^ e * 10 ^ k ≤ (D : ℚ) := (le_div_iff₀ hten).mp (hq.half_le h.pos)
  have hunit : (2 : ℚ) ^ (-least : Int) ≤ 2 ^ e :=
    zpow_le_zpow_right₀ one_le_two (by rw [hleast]; exact h.low)
  have hcancel : (2 : ℚ) ^ (-least : Int) * 2 ^ least = 1 := by
    rw [← zpow_natCast, ← zpow_add₀ two_ne_zero, neg_add_cancel, zpow_zero]
  have hwhole : (10 ^ k : ℚ) ≤ D * (2 * 2 ^ least) := by
    calc (10 ^ k : ℚ)
        _ = 2 ^ (-least : Int) * 10 ^ k * 2 ^ least := by rw [mul_right_comm, hcancel, one_mul]
        _ ≤ 2 ^ e * 10 ^ k * 2 ^ least := by gcongr
        _ = 1 / 2 * 2 ^ e * 10 ^ k * (2 * 2 ^ least) := by ring
        _ ≤ D * (2 * 2 ^ least) := by gcongr
  rw [← hleast]
  exact_mod_cast hwhole

theorem lt_pow (hq : Nearest m e (D / 10 ^ k / 2 ^ e)) (h : FiniteParts m e) :
    D < 2 ^ 1024 * 10 ^ k := by
  have hten : (0 : ℚ) < 10 ^ k := pow_pos (by norm_num) k
  have hlt : (D : ℚ) < 2 ^ 53 * 2 ^ e * 10 ^ k := (div_lt_iff₀ hten).mp (hq.lt_full h.short)
  have hunit : (2 : ℚ) ^ e ≤ 2 ^ 971 := by
    rw [← zpow_natCast]
    exact zpow_le_zpow_right₀ one_le_two h.high
  have hwhole : (D : ℚ) < 2 ^ 1024 * 10 ^ k := by
    calc (D : ℚ)
        _ < 2 ^ 53 * 2 ^ e * 10 ^ k := hlt
        _ ≤ 2 ^ 53 * 2 ^ 971 * 10 ^ k := by gcongr
        _ = 2 ^ 1024 * 10 ^ k := by rw [← pow_add]
  exact_mod_cast hwhole

end Nearest

theorem pow_length_le (hD : 0 < D) : 10 ^ ((toString D).length - 1) ≤ D := by
  by_cases hone : (toString D).length - 1 = 0
  · rw [hone]
    exact hD
  · refine Nat.not_lt.mp fun hlt => ?_
    have hle : (toString D).length ≤ (toString D).length - 1 :=
      (Nat.length_repr_le_iff (Nat.pos_of_ne_zero hone)).mpr hlt
    omega

theorem two_pow_le_ten_pow : 2 * 2 ^ 1074 ≤ 10 ^ 400 ∧ 2 ^ 1024 ≤ 10 ^ 400 := by
  decide +kernel

namespace Nearest

theorem digits_pos (hq : Nearest m e (D / 10 ^ k / 2 ^ e)) (h : FiniteParts m e) : 0 < D :=
  Nat.pos_of_mul_pos_right (Nat.lt_of_lt_of_le (pow_ten_pos k) (hq.pow_le h))

theorem places_lt (hq : Nearest m e (D / 10 ^ k / 2 ^ e)) (h : FiniteParts m e) :
    k < (toString D).length + 400 := by
  have hlength : 0 < (toString D).length := Nat.length_repr_pos
  have hdigits : D < 10 ^ (toString D).length :=
    (Nat.length_repr_le_iff hlength).mp (Nat.le_refl _)
  obtain ⟨bound, hbound⟩ : ∃ bound, bound = 400 := ⟨_, rfl⟩
  have htwo := two_pow_le_ten_pow.1
  rw [← hbound] at htwo ⊢
  refine (Nat.pow_lt_pow_iff_right (by decide : 1 < 10)).mp ?_
  calc 10 ^ k
      _ ≤ D * (2 * 2 ^ 1074) := hq.pow_le h
      _ ≤ D * 10 ^ bound := Nat.mul_le_mul_left _ htwo
      _ < 10 ^ (toString D).length * 10 ^ bound :=
        Nat.mul_lt_mul_of_pos_right hdigits (pow_ten_pos bound)
      _ = 10 ^ ((toString D).length + bound) := (Nat.pow_add 10 _ bound).symm

theorem length_le (hq : Nearest m e (D / 10 ^ k / 2 ^ e)) (h : FiniteParts m e) :
    (toString D).length ≤ 400 + k := by
  obtain ⟨bound, hbound⟩ : ∃ bound, bound = 400 := ⟨_, rfl⟩
  have htwo := two_pow_le_ten_pow.2
  rw [← hbound] at htwo ⊢
  refine (Nat.length_repr_le_iff (by omega)).mpr ?_
  rw [Nat.pow_add]
  exact Nat.lt_of_lt_of_le (hq.lt_pow h) (Nat.mul_le_mul_right _ htwo)

theorem places_le (hq : Nearest m e (D / 10 ^ k / 2 ^ e)) (h : FiniteParts m e) :
    k ≤ 2048 + D.log2 := by
  have hD := hq.digits_pos h
  have hplaces := hq.places_lt h
  have hpow : 2 ^ ((toString D).length - 1) ≤ D :=
    Nat.le_trans (Nat.pow_le_pow_left (by decide) _) (pow_length_le hD)
  have hlog := (Nat.le_log2 hD.ne').mpr hpow
  omega

end Nearest

theorem FiniteParts.ofDecimal_of_nearest (h : FiniteParts m e)
    (hq : Nearest m e (D / 10 ^ k / 2 ^ e)) :
    ofDecimal D (-k) = .ofModel (.pack (.finite .positive m e h.pos)) := by
  have hD := hq.digits_pos h
  have hlow := hq.places_lt h
  have hhigh := hq.length_le h
  have hguard : (D = 0 || ((toString D).length + -k : Int) < -400) = false := by
    simp only [Bool.or_eq_false_iff, decide_eq_false_iff_not]
    omega
  have hguard' : ¬ (400 : Int) < (toString D).length + -k := by omega
  have hnegative : decide (-(k : Int) < 0) = decide (k ≠ 0) := by
    rw [decide_eq_decide]
    omega
  rw [ofDecimal]
  simp only [hguard, hguard', if_false, Bool.false_eq_true, hnegative, Int.natAbs_neg,
    Int.natAbs_natCast]
  exact h.ofScientific_of_nearest hD (hq.places_le h) hq

end ScriptLang.Number
