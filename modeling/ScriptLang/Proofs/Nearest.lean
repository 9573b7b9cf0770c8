import ScriptLang.Proofs.Binary

/-! Rounding to the nearest number. A number is the result wherever the exact value lies in the interval
around it, which reaches halfway to its neighbours. -/

namespace ScriptLang.Number

open Float.Model
open Float.Model.UnpackedFloat

/-! ### Truncated values -/

/-- The accuracy tells where the value lies between the mantissa and the next one. -/
inductive Cut (m : Nat) : Accuracy → ℚ → Prop
  | exact : Cut m .exact m
  | below {y : ℚ} (hlow : m < y) (hhigh : y < m + 1 / 2) : Cut m (.inexact .lt) y
  | half : Cut m (.inexact .eq) (m + 1 / 2)
  | above {y : ℚ} (hlow : m + 1 / 2 < y) (hhigh : y < m + 1) : Cut m (.inexact .gt) y

namespace Cut

variable {m : Nat} {a : Accuracy} {y : ℚ} {em : ExtendedMantissa}

theorem le (h : Cut m a y) : (m : ℚ) ≤ y := by
  cases h <;> linarith

theorem lt (h : Cut m a y) : y < m + 1 := by
  cases h <;> linarith

theorem lt_of_inexact {o : Ordering} (h : Cut m (.inexact o) y) : (m : ℚ) < y := by
  cases h <;> linarith

theorem ofMantissaAndAccuracy (h : Cut m a y) :
    Cut (ExtendedMantissa.ofMantissaAndAccuracy m a).mantissa
      (ExtendedMantissa.ofMantissaAndAccuracy m a).accuracy y := by
  rcases a with _ | (_ | _ | _) <;> exact h

/-- Half of an even mantissa is exact, half of an odd one leaves a half. -/
theorem shiftRightOne (h : Cut em.mantissa em.accuracy y) :
    Cut em.shiftRightOne.mantissa em.shiftRightOne.accuracy (y / 2) := by
  obtain ⟨m, round, sticky⟩ := em
  have hlt := h.lt
  have hexact : round = false → sticky = false → y = m := by
    rintro rfl rfl
    cases h
    rfl
  have hinexact : round = true ∨ sticky = true → (m : ℚ) < y := by
    intro hbits
    cases round <;> cases sticky
    · simp at hbits
    all_goals exact h.lt_of_inexact
  have hbits : (round || sticky) = true ↔ round = true ∨ sticky = true := Bool.or_eq_true_iff
  -- The bit that is shifted out becomes the round bit, and the former bits become sticky.
  obtain ⟨k, rfl | rfl⟩ := m.even_or_odd'
  · have hshift : (⟨2 * k, round, sticky⟩ : ExtendedMantissa).shiftRightOne =
        ⟨k, false, round || sticky⟩ := by
      simp [ExtendedMantissa.shiftRightOne]
    rw [hshift]
    push_cast at hlt hexact hinexact
    cases hor : round || sticky with
    | false =>
      obtain ⟨hround, hsticky⟩ := Bool.or_eq_false_iff.mp hor
      rw [hexact hround hsticky, mul_div_cancel_left₀ _ two_ne_zero]
      exact .exact
    | true =>
      have hlow := hinexact (hbits.mp hor)
      exact .below (by dsimp only; linarith) (by dsimp only; linarith)
  · have hshift : (⟨2 * k + 1, round, sticky⟩ : ExtendedMantissa).shiftRightOne =
        ⟨k, true, round || sticky⟩ := by
      simp [ExtendedMantissa.shiftRightOne]
      omega
    rw [hshift]
    push_cast at hlt hexact hinexact
    cases hor : round || sticky with
    | false =>
      obtain ⟨hround, hsticky⟩ := Bool.or_eq_false_iff.mp hor
      have hhalf : y / 2 = k + 1 / 2 := by rw [hexact hround hsticky]; ring
      rw [hhalf]
      exact .half
    | true =>
      have hlow := hinexact (hbits.mp hor)
      exact .above (by dsimp only; linarith) (by dsimp only; linarith)

theorem shiftRight (h : Cut em.mantissa em.accuracy y) (n : Nat) :
    Cut (em >>> n).mantissa (em >>> n).accuracy (y / 2 ^ n) := by
  induction n with
  | zero =>
    rw [pow_zero, div_one]
    exact h
  | succ n ih =>
    rw [pow_succ, ← div_div]
    exact ih.shiftRightOne

/-- A mantissa is the rounded one where the value is at most a half away from it. A tie goes to the even
one. -/
theorem roundToNearestEven_eq {n : Nat} (h : Cut m a y) (hlow : n - 1 / 2 ≤ y) (hhigh : y ≤ n + 1 / 2)
    (hties : n % 2 = 0 ∨ (n - 1 / 2 < y ∧ y < n + 1 / 2)) : a.roundToNearestEven m = n := by
  have hlt : n < m + 2 := by
    have hlt : (n : ℚ) < m + 2 := by linarith [h.lt]
    exact_mod_cast hlt
  have hle : m < n + 1 := by
    have hle : (m : ℚ) < n + 1 := by linarith [h.le]
    exact_mod_cast hle
  -- Bounded on both sides, `n` is `m` or `m + 1`.
  cases h with
  | exact =>
    have hsmall : (n : ℚ) < m + 1 := by linarith
    have hsmall' : n < m + 1 := by exact_mod_cast hsmall
    exact Nat.le_antisymm (Nat.le_of_lt_succ hle) (Nat.le_of_lt_succ hsmall')
  | below hlow' hhigh' =>
    have hsmall : (n : ℚ) < m + 1 := by linarith
    have hsmall' : n < m + 1 := by exact_mod_cast hsmall
    exact Nat.le_antisymm (Nat.le_of_lt_succ hle) (Nat.le_of_lt_succ hsmall')
  | half =>
    show m + m % 2 = n
    have hnext : n = m ∨ n = m + 1 := by omega
    have heven : n % 2 = 0 := by
      refine hties.resolve_right ?_
      rintro ⟨hstrict, hstrict'⟩
      obtain rfl | rfl := hnext
      · exact lt_irrefl _ hstrict'
      · push_cast at hstrict
        linarith
    omega
  | above hlow' hhigh' =>
    have hlarge : (m : ℚ) < n := by linarith
    have hlarge' : m < n := by exact_mod_cast hlarge
    show m + 1 = n
    omega

end Cut

/-! ### The interval around a number -/

/-- How far the interval reaches down, in units of `2 ^ e`. Below a power of two the next number is only half
as far away as above it. -/
def lowGap (m : Nat) (e : Int) : ℚ :=
  if m = 2 ^ 52 ∧ -1074 < e then 1 / 4 else 1 / 2

/-- In units of `2 ^ e`, the value lies in the interval around the number `m · 2 ^ e`. -/
structure Nearest (m : Nat) (e : Int) (u : ℚ) : Prop where
  low : m - lowGap m e ≤ u
  high : u ≤ m + 1 / 2
  ties : m % 2 = 0 ∨ (m - lowGap m e < u ∧ u < m + 1 / 2)

theorem lowGap_le (m : Nat) (e : Int) : lowGap m e ≤ 1 / 2 := by
  rw [lowGap]
  split <;> norm_num

theorem lowGap_pos (m : Nat) (e : Int) : 0 < lowGap m e := by
  rw [lowGap]
  split <;> norm_num

theorem Nearest.self (m : Nat) (e : Int) : Nearest m e m := by
  have hgap := lowGap_pos m e
  exact ⟨by linarith, by linarith, .inr ⟨by linarith, by linarith⟩⟩

section Rounding

variable {m M : Nat} {e t : Int} {a : Accuracy} {q : ℚ}

theorem Cut.lt_zpow (h : Cut M a (q / 2 ^ t)) : q < 2 ^ (M.log2 + 1 + t : Int) := by
  have hlt : (M : ℚ) + 1 ≤ 2 ^ (M.log2 + 1) := by exact_mod_cast Nat.lt_log2_self (n := M)
  have hq := (div_lt_iff₀ (zpow_pos two_pos t)).mp (lt_of_lt_of_le h.lt hlt)
  rw [zpow_add₀ two_ne_zero]
  exact_mod_cast hq

theorem Cut.zpow_le (h : Cut M a (q / 2 ^ t)) (hM : M ≠ 0) : 2 ^ (M.log2 + t : Int) ≤ q := by
  have hle : (2 : ℚ) ^ M.log2 ≤ M := by exact_mod_cast Nat.log2_self_le hM
  have hq := (le_div_iff₀ (zpow_pos two_pos t)).mp (le_trans hle h.le)
  rw [zpow_add₀ two_ne_zero]
  exact_mod_cast hq

theorem Cut.targetExponent {k : Int} (h : Cut M a (q / 2 ^ t))
    (ht : t ≤ format.targetExponent (totalExponent M t)) (hk : -1074 ≤ k)
    (hlow : 2 ^ (52 + k) ≤ q ∨ k = -1074) (hhigh : q < 2 ^ (53 + k)) :
    format.targetExponent (totalExponent M t) = k := by
  rw [targetExponent_eq, totalExponent] at ht ⊢
  by_cases hM : M = 0
  · subst hM
    have hlog : Nat.log2 0 = 0 := rfl
    rw [hlog] at ht ⊢
    have hleast : k = -1074 := by
      refine hlow.resolve_left fun hlow => ?_
      have hlt : q < 2 ^ t := by
        have hone := h.lt
        rw [Nat.cast_zero, zero_add, div_lt_one (zpow_pos two_pos t)] at hone
        exact hone
      have hexponents := (zpow_lt_zpow_iff_right₀ one_lt_two).mp (lt_of_le_of_lt hlow hlt)
      omega
    omega
  · have hupper := (zpow_lt_zpow_iff_right₀ one_lt_two).mp (lt_of_le_of_lt (h.zpow_le hM) hhigh)
    rcases hlow with hlow | hleast
    · have hlower := (zpow_lt_zpow_iff_right₀ one_lt_two).mp (lt_of_le_of_lt hlow (h.lt_zpow))
      omega
    · omega

theorem FiniteParts.roundWithAccuracy_of_shift (h : FiniteParts m e) {s : Sign} {em : ExtendedMantissa}
    {T : Int} {j : Nat} (hfirst : UnpackedFloat.shiftToTargetExponent format M t a = (em, T))
    (hround : em.roundedMantissa = m * 2 ^ j) (hT : T + j = e) :
    UnpackedFloat.roundWithAccuracy format s M t a = .finite s m e h.pos := by
  have hne : m ≠ 0 := Nat.pos_iff_ne_zero.mp h.pos
  rw [UnpackedFloat.roundWithAccuracy, hfirst]
  simp [hround, h.shiftToTargetExponent hT, hne]

theorem two_zpow_natCast_add (n : Nat) (e : Int) : (2 : ℚ) ^ (n + e : Int) = 2 ^ n * 2 ^ e := by
  rw [zpow_add₀ two_ne_zero, zpow_natCast]

theorem Cut.shiftToTargetExponent {T : Int} (h : Cut M a (q / 2 ^ t))
    (hT : format.targetExponent (totalExponent M t) = T) (ht : t ≤ T) :
    ∃ em, UnpackedFloat.shiftToTargetExponent format M t a = (em, T) ∧
      Cut em.mantissa em.accuracy (q / 2 ^ T) := by
  obtain ⟨j, rfl⟩ : ∃ j : Nat, T = t + j := ⟨(T - t).toNat, by omega⟩
  have hshift : (t + j - t).toNat = j := by omega
  refine ⟨ExtendedMantissa.ofMantissaAndAccuracy M a >>> j, ?_, ?_⟩
  · rw [UnpackedFloat.shiftToTargetExponent, hT]
    simp only [shiftToExponent, hshift]
  · have hvalue : q / 2 ^ (t + j : Int) = q / 2 ^ t / 2 ^ j := by
      rw [zpow_add₀ two_ne_zero, zpow_natCast, div_div]
    rw [hvalue]
    exact h.ofMantissaAndAccuracy.shiftRight j

/-- A value with all its digits is rounded once. -/
theorem FiniteParts.roundWithAccuracy_of_full (h : FiniteParts m e) {s : Sign}
    (hcut : Cut M a (q / 2 ^ t)) (ht : t ≤ format.targetExponent (totalExponent M t))
    (hq : Nearest m e (q / 2 ^ e)) (hfull : 2 ^ 52 ≤ q / 2 ^ e ∨ e = -1074) :
    UnpackedFloat.roundWithAccuracy format s M t a = .finite s m e h.pos := by
  have hunit : (0 : ℚ) < 2 ^ e := zpow_pos two_pos e
  have hgap := lowGap_le m e
  have hlow := hq.low
  have hhigh := hq.high
  have hshort : (m : ℚ) + 1 ≤ 2 ^ 53 := by exact_mod_cast h.short
  have hupper : q < 2 ^ (53 + e) := by
    refine lt_of_lt_of_eq ((div_lt_iff₀ hunit).mp ?_) (two_zpow_natCast_add 53 e).symm
    linarith
  have hlower : 2 ^ (52 + e) ≤ q ∨ e = -1074 := by
    refine hfull.imp_left fun hfull => le_of_eq_of_le (two_zpow_natCast_add 52 e) ?_
    exact (le_div_iff₀ hunit).mp hfull
  have hT := hcut.targetExponent ht h.low hlower hupper
  obtain ⟨em, hfirst, hem⟩ := hcut.shiftToTargetExponent hT (hT ▸ ht)
  refine h.roundWithAccuracy_of_shift hfirst ?_ (Int.add_zero e)
  rw [pow_zero, mul_one]
  refine hem.roundToNearestEven_eq (by linarith) hhigh (hq.ties.imp_right fun hties => ?_)
  exact ⟨by linarith [hties.1], hties.2⟩

/-- A value just below a power of two is rounded at the exponent of the numbers below, and the carry brings it
back up. -/
theorem FiniteParts.roundWithAccuracy_of_carry (h : FiniteParts m e) {s : Sign}
    (hcut : Cut M a (q / 2 ^ t)) (ht : t ≤ format.targetExponent (totalExponent M t))
    (hq : Nearest m e (q / 2 ^ e)) (hbelow : q / 2 ^ e < 2 ^ 52) (hexponent : e ≠ -1074) :
    UnpackedFloat.roundWithAccuracy format s M t a = .finite s m e h.pos := by
  have hgap := lowGap_le m e
  have hlow := hq.low
  have hleast := h.low
  -- Only the least full mantissa has values below `2 ^ 52` in its interval.
  have hm : m = 2 ^ 52 := by
    have hge := h.full.resolve_right hexponent
    have hlt : (m : ℚ) < 2 ^ 52 + 1 := by linarith
    have hlt' : m < 2 ^ 52 + 1 := by exact_mod_cast hlt
    omega
  have hnarrow : lowGap m e = 1 / 4 := if_pos ⟨hm, by omega⟩
  rw [hnarrow, hm] at hlow
  push_cast at hlow
  obtain ⟨k, rfl⟩ : ∃ k, e = k + 1 := ⟨e - 1, by omega⟩
  have hdouble : q / 2 ^ k = 2 * (q / 2 ^ (k + 1)) := by
    rw [zpow_add_one₀ two_ne_zero]
    field_simp
  have hunit : (0 : ℚ) < 2 ^ k := zpow_pos two_pos k
  have hupper : q < 2 ^ (53 + k) := by
    refine lt_of_lt_of_eq ((div_lt_iff₀ hunit).mp ?_) (two_zpow_natCast_add 53 k).symm
    linarith
  have hlower : 2 ^ (52 + k) ≤ q := by
    refine le_of_eq_of_le (two_zpow_natCast_add 52 k) ((le_div_iff₀ hunit).mp ?_)
    linarith
  have hT := hcut.targetExponent ht (by omega) (.inl hlower) hupper
  obtain ⟨em, hfirst, hem⟩ := hcut.shiftToTargetExponent hT (hT ▸ ht)
  have hround : em.roundedMantissa = m * 2 ^ 1 := by
    refine hem.roundToNearestEven_eq ?_ ?_ (.inl (by omega))
    all_goals
      rw [hm, hdouble]
      push_cast
      linarith
  exact h.roundWithAccuracy_of_shift hfirst hround rfl

/-- A value is rounded to the number in whose interval it lies. -/
theorem FiniteParts.roundWithAccuracy_of_nearest (h : FiniteParts m e) {s : Sign}
    (hcut : Cut M a (q / 2 ^ t)) (ht : t ≤ format.targetExponent (totalExponent M t))
    (hq : Nearest m e (q / 2 ^ e)) :
    UnpackedFloat.roundWithAccuracy format s M t a = .finite s m e h.pos := by
  by_cases hfull : 2 ^ 52 ≤ q / 2 ^ e ∨ e = -1074
  · exact h.roundWithAccuracy_of_full hcut ht hq hfull
  · obtain ⟨hbelow, hexponent⟩ := not_or.mp hfull
    exact h.roundWithAccuracy_of_carry hcut ht hq (not_le.mp hbelow) hexponent

/-! ### Decimals -/

theorem cut_add_div {k r d : Nat} (hr : r < d) : Cut k (accuracyOfFraction r d) (k + r / d) := by
  have hlt : (r : ℚ) < d := by exact_mod_cast hr
  have hd : (0 : ℚ) < d := lt_of_le_of_lt (Nat.cast_nonneg r) hlt
  have hone : (r : ℚ) / d < 1 := (div_lt_one hd).mpr hlt
  rw [accuracyOfFraction]
  split
  · next hzero =>
    rw [hzero, Nat.cast_zero, zero_div, add_zero]
    exact .exact
  · next hzero =>
    have hpos : (0 : ℚ) < r / d := div_pos (by exact_mod_cast Nat.pos_of_ne_zero hzero) hd
    rcases Nat.lt_trichotomy (2 * r) d with hless | hequal | hgreater
    · have hhalf : (r : ℚ) / d < 1 / 2 := by
        rw [div_lt_iff₀ hd]
        have hless' : (2 * r : ℚ) < d := by exact_mod_cast hless
        linarith
      rw [Nat.compare_eq_lt.mpr hless]
      exact .below (by linarith) (by linarith)
    · have hhalf : (r : ℚ) / d = 1 / 2 := by
        rw [div_eq_iff hd.ne']
        have hequal' : (2 * r : ℚ) = d := by exact_mod_cast hequal
        linarith
      rw [Nat.compare_eq_eq.mpr hequal, hhalf]
      exact .half
    · have hhalf : 1 / 2 < (r : ℚ) / d := by
        rw [lt_div_iff₀ hd]
        have hgreater' : (d : ℚ) < 2 * r := by exact_mod_cast hgreater
        linarith
      rw [Nat.compare_eq_gt.mpr hgreater]
      exact .above (by linarith) (by linarith)

theorem cut_div {n d : Nat} (hd : 0 < d) : Cut (n / d) (accuracyOfFraction (n % d) d) (n / d : ℚ) := by
  have hpos : (d : ℚ) ≠ 0 := by exact_mod_cast hd.ne'
  have hvalue : (n / d : ℚ) = (n / d : Nat) + (n % d : Nat) / d := by
    field_simp
    exact_mod_cast (Nat.div_add_mod n d).symm
  rw [hvalue]
  exact cut_add_div (Nat.mod_lt n hd)

section Operations

variable {n d : Nat} {b c : Int}

/-- A quotient is taken with all binary digits that are rounded. -/
theorem le_targetExponent_of_quotient (hn : 0 < n) (hd : 0 < d)
    (ht : t = min (b - c) (format.targetExponent (totalExponent n b - totalExponent d c))) :
    t ≤ format.targetExponent (totalExponent (n <<< (b - c - t).toNat / d) t) := by
  rw [targetExponent_eq, totalExponent, totalExponent] at ht
  rw [targetExponent_eq, totalExponent]
  by_cases hleast : t ≤ -1074
  · omega
  · have hfull : 2 ^ 52 ≤ n <<< (b - c - t).toNat / d := by
      rw [Nat.shiftLeft_eq, Nat.le_div_iff_mul_le hd]
      calc 2 ^ 52 * d
          _ ≤ 2 ^ 52 * 2 ^ (d.log2 + 1) := Nat.mul_le_mul_left _ (Nat.le_of_lt Nat.lt_log2_self)
          _ = 2 ^ (52 + (d.log2 + 1)) := (Nat.pow_add 2 52 _).symm
          _ ≤ 2 ^ (n.log2 + (b - c - t).toNat) := Nat.pow_le_pow_right (by decide) (by omega)
          _ = 2 ^ n.log2 * 2 ^ (b - c - t).toNat := Nat.pow_add 2 _ _
          _ ≤ n * 2 ^ (b - c - t).toNat :=
            Nat.mul_le_mul_right _ (Nat.log2_self_le (Nat.pos_iff_ne_zero.mp hn))
    have hlog : 52 ≤ (n <<< (b - c - t).toNat / d).log2 := (Nat.le_log2 (by omega)).mpr hfull
    omega

theorem FiniteParts.div_of_nearest (h : FiniteParts m e) (hn : 0 < n) (hd : 0 < d)
    (hq : Nearest m e (n * 2 ^ b / (d * 2 ^ c) / 2 ^ e)) :
    UnpackedFloat.div format (.finite .positive n b hn) (.finite .positive d c hd) =
      .finite .positive m e h.pos := by
  obtain ⟨t, ht⟩ : ∃ t, t = min (b - c) (format.targetExponent
      (totalExponent n b - totalExponent d c)) := ⟨_, rfl⟩
  have hvalue : (n * 2 ^ b / (d * 2 ^ c) / 2 ^ t : ℚ) = (n <<< (b - c - t).toNat : Nat) / d := by
    have hshift : (((b - c - t).toNat : Nat) : Int) = b - c - t := Int.toNat_of_nonneg (by omega)
    rw [Nat.shiftLeft_eq, Nat.cast_mul, Nat.cast_pow, Nat.cast_ofNat, ← zpow_natCast, hshift,
      zpow_sub₀ two_ne_zero, zpow_sub₀ two_ne_zero]
    ring
  have hcut : Cut (n <<< (b - c - t).toNat / d) (accuracyOfFraction (n <<< (b - c - t).toNat % d) d)
      (n * 2 ^ b / (d * 2 ^ c) / 2 ^ t) := by
    rw [hvalue]
    exact cut_div hd
  rw [UnpackedFloat.div, divCore, ← ht]
  exact h.roundWithAccuracy_of_nearest hcut (le_targetExponent_of_quotient hn hd ht) hq

theorem FiniteParts.mul_of_nearest (h : FiniteParts m e) (hn : 0 < n) (hd : 0 < d)
    (hfull : 2 ^ 52 ≤ n * d) (hq : Nearest m e (n * 2 ^ b * (d * 2 ^ c) / 2 ^ e)) :
    UnpackedFloat.mul format (.finite .positive n b hn) (.finite .positive d c hd) =
      .finite .positive m e h.pos := by
  have hvalue : (n * 2 ^ b * (d * 2 ^ c) / 2 ^ (b + c) : ℚ) = (n * d : Nat) := by
    rw [zpow_add₀ two_ne_zero, Nat.cast_mul]
    field_simp
  have hcut : Cut (n * d) .exact (n * 2 ^ b * (d * 2 ^ c) / 2 ^ (b + c) : ℚ) := by
    rw [hvalue]
    exact .exact
  have ht : b + c ≤ format.targetExponent (totalExponent (n * d) (b + c)) := by
    have hlog : 52 ≤ (n * d).log2 := (Nat.le_log2 (by omega)).mpr hfull
    rw [targetExponent_eq, totalExponent]
    omega
  exact h.roundWithAccuracy_of_nearest hcut ht hq

end Operations

end Rounding

end ScriptLang.Number
