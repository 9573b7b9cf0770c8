import ScriptLang.Number.Shortest
import ScriptLang.Proofs.Decimal

/-! The shortest decimal of a number lies in the interval around it. -/

namespace ScriptLang.Number

open Float.Model
open Float.Model.UnpackedFloat

/-! ### The parts of a number -/

section Parts

variable {x : Float} {s : Sign} {b : BitVec 11} {f : BitVec 52}

theorem toNat_packComponents :
    (packComponents format s b f).toNat =
      (s.toBitVec.toNat * 2 ^ 11 + b.toNat) * 2 ^ 52 + f.toNat := by
  have hb : b.toNat < 2 ^ 11 := b.isLt
  have hf : f.toNat < 2 ^ 52 := f.isLt
  rw [packComponents, BitVec.toNat_append, BitVec.toNat_append, ← Nat.shiftLeft_add_eq_or_of_lt hb,
    ← Nat.shiftLeft_add_eq_or_of_lt hf, Nat.shiftLeft_eq, Nat.shiftLeft_eq]

theorem toNat_toBits (h : x.toBits.toBitVec = packComponents format s b f) :
    x.toBits.toNat = (s.toBitVec.toNat * 2 ^ 11 + b.toNat) * 2 ^ 52 + f.toNat := by
  rw [← toNat_packComponents, ← h]
  rfl

theorem fraction_eq (h : x.toBits.toBitVec = packComponents format s b f) : fraction x = f.toNat := by
  have hf : f.toNat < 2 ^ 52 := f.isLt
  have hmask : (0xfffffffffffff : UInt64).toNat = 2 ^ 52 - 1 := rfl
  rw [fraction, UInt64.toNat_and, hmask, Nat.and_two_pow_sub_one_eq_mod, toNat_toBits h]
  omega

theorem biasedExponent_eq (h : x.toBits.toBitVec = packComponents format s b f) :
    biasedExponent x = b.toNat := by
  have hb : b.toNat < 2 ^ 11 := b.isLt
  have hf : f.toNat < 2 ^ 52 := f.isLt
  have hmask : (0x7ff : UInt64).toNat = 2 ^ 11 - 1 := rfl
  have hshift : (x.toBits >>> 52).toNat = x.toBits.toNat / 2 ^ 52 := by
    rw [UInt64.toNat_shiftRight, Nat.shiftRight_eq_div_pow]
    rfl
  rw [biasedExponent, UInt64.toNat_and, hmask, Nat.and_two_pow_sub_one_eq_mod, hshift, toNat_toBits h]
  omega

theorem isNegative_eq (h : x.toBits.toBitVec = packComponents format s b f) :
    isNegative x = true ↔ s = .negative := by
  have hb : b.toNat < 2 ^ 11 := b.isLt
  have hf : f.toNat < 2 ^ 52 := f.isLt
  have hshift : (x.toBits >>> 63).toNat = x.toBits.toNat / 2 ^ 63 := by
    rw [UInt64.toNat_shiftRight, Nat.shiftRight_eq_div_pow]
    rfl
  rw [isNegative, beq_iff_eq, ← UInt64.toNat_inj, hshift, toNat_toBits h]
  cases s with
  | negative =>
    have hsign : Sign.negative.toBitVec.toNat = 1 := rfl
    have hone : (1 : UInt64).toNat = 1 := rfl
    rw [hsign, hone]
    exact iff_of_true (by omega) rfl
  | positive =>
    have hsign : Sign.positive.toBitVec.toNat = 0 := rfl
    have hone : (1 : UInt64).toNat = 1 := rfl
    rw [hsign, hone]
    exact iff_of_false (by omega) nofun

/-- The bits of a finite number hold its mantissa and its exponent. -/
structure HasParts (x : Float) (m : Nat) (e : Int) : Prop where
  parts : FiniteParts m e
  mantissa_eq : mantissa x = m
  exponent_eq : exponent x = e
  narrow_iff : hasNarrowGapBelow x = true ↔ m = 2 ^ 52 ∧ -1074 < e

theorem Represents.hasParts {m : Nat} {e : Int} {hpos : 0 < m}
    (h : Represents x.toBits.toBitVec (.finite s m e hpos)) : HasParts x m e := by
  have hparts := h.finiteParts
  generalize hbits : x.toBits.toBitVec = bits at h
  cases h with
  | subnormal _ f =>
    have hf : f.toNat < 2 ^ 52 := f.isLt
    have hzero : (0#11).toNat = 0 := rfl
    have hbiased : biasedExponent x = 0 := (biasedExponent_eq hbits).trans hzero
    refine ⟨hparts, ?_, ?_, ?_⟩
    · rw [mantissa, if_pos hbiased, fraction_eq hbits]
    · rw [exponent, hbiased]
      rfl
    · rw [hasNarrowGapBelow, hbiased]
      simp
  | normal _ b f hlow hhigh =>
    have hf : f.toNat < 2 ^ 52 := f.isLt
    have hmin : b.toNat ≠ 0 := fun h => hlow (BitVec.eq_of_toNat_eq h)
    have hbiased := biasedExponent_eq hbits
    have hfraction := fraction_eq hbits
    refine ⟨hparts, ?_, ?_, ?_⟩
    · rw [mantissa, hbiased, if_neg hmin, hfraction, Nat.add_comm]
      rfl
    · rw [exponent, hbiased]
      omega
    · rw [hasNarrowGapBelow, hfraction, hbiased, Bool.and_eq_true, decide_eq_true_eq,
        decide_eq_true_eq]
      omega

end Parts

/-! ### The interval as the search sees it -/

/-- The search counts the number and the ends of its interval over one denominator. -/
structure Rounding.Measures (r : Rounding) (m : Nat) (e : Int) : Prop where
  parts : FiniteParts m e
  denominator_eq : ∃ i ≤ 1076, r.denominator = 2 ^ i
  value_eq : (r.value : ℚ) = m * (2 ^ e * r.denominator)
  low_eq : (r.low : ℚ) = (m - lowGap m e) * (2 ^ e * r.denominator)
  high_eq : (r.high : ℚ) = (m + 1 / 2) * (2 ^ e * r.denominator)
  closed_iff : r.closed = true ↔ m % 2 = 0

theorem zpow_eq_div (b : ℚ) (i : Int) : b ^ i = b ^ i.toNat / b ^ (-i).toNat := by
  rcases i.le_total 0 with hneg | hpos
  · rw [Int.toNat_of_nonpos hneg, pow_zero, one_div, ← zpow_natCast, Int.toNat_of_nonneg (by omega),
      zpow_neg, inv_inv]
  · rw [Int.toNat_of_nonpos (by omega : -i ≤ 0), pow_zero, div_one, ← zpow_natCast,
      Int.toNat_of_nonneg hpos]

namespace HasParts

variable {x : Float} {m : Nat} {e : Int}

theorem ofFloat_eq (h : HasParts x m e) : Rounding.ofFloat x =
    ⟨4 * m * 2 ^ (e - 2).toNat, (4 * m - if m = 2 ^ 52 ∧ -1074 < e then 1 else 2) * 2 ^ (e - 2).toNat,
      (4 * m + 2) * 2 ^ (e - 2).toNat, 2 ^ (2 - e).toNat, m % 2 = 0⟩ := by
  simp only [Rounding.ofFloat, h.mantissa_eq, h.exponent_eq, h.narrow_iff]
  rfl

theorem measures (h : HasParts x m e) : (Rounding.ofFloat x).Measures m e := by
  have hlow := h.parts.low
  have hmantissa : 1 ≤ m := h.parts.pos
  have hquarter : (2 ^ e * (2 ^ (2 - e).toNat : Nat) : ℚ) = 4 * (2 ^ (e - 2).toNat : Nat) := by
    have hneg : -(e - 2) = 2 - e := by omega
    have hpow := zpow_eq_div 2 (e - 2)
    rw [hneg, zpow_sub₀ two_ne_zero, div_eq_div_iff (by norm_num) (by positivity)] at hpow
    push_cast
    rw [hpow]
    norm_num [mul_comm]
  rw [h.ofFloat_eq]
  refine ⟨h.parts, ⟨(2 - e).toNat, by omega, rfl⟩, ?_, ?_, ?_, decide_eq_true_iff⟩
  · dsimp only
    rw [hquarter]
    push_cast
    ring
  · dsimp only
    rw [hquarter, lowGap]
    split
    · rw [Nat.cast_mul, Nat.cast_sub (by omega)]
      push_cast
      ring
    · rw [Nat.cast_mul, Nat.cast_sub (by omega)]
      push_cast
      ring
  · dsimp only
    rw [hquarter]
    push_cast
    ring

end HasParts

/-! ### Decimals -/

namespace Decimal

def value (d : Decimal) : ℚ :=
  d.digits * 10 ^ d.exponent

theorem value_trim (d : Decimal) (count : Nat) : (d.trim count).value = d.value := by
  induction count generalizing d with
  | zero => rfl
  | succ count ih =>
    rw [trim]
    split
    · next hzero =>
      have hdigits : d.digits = 10 * (d.digits / 10) := by
        have hlast : d.digits % 10 = 0 := of_decide_eq_true (Bool.and_eq_true_iff.mp hzero).2
        omega
      have hcast : (d.digits : ℚ) = 10 * (d.digits / 10 : Nat) := by exact_mod_cast hdigits
      rw [ih, value, value, hcast]
      dsimp only
      rw [zpow_add_one₀ (by norm_num)]
      ring
    · rfl

end Decimal

/-! ### The search -/

theorem FiniteParts.lt_gap {m : Nat} {e : Int} (h : FiniteParts m e) :
    (m : ℚ) < 2 * lowGap m e * 10 ^ 16 := by
  have hshort : (m : ℚ) < 2 ^ 53 := by exact_mod_cast h.short
  rw [lowGap]
  split
  · next hnarrow =>
    rw [hnarrow.1]
    norm_num
  · norm_num at hshort ⊢
    linarith

/-- The multiple that the search tries first is at most half a unit away. -/
theorem Rounding.nearer_bounds {value unit nearer : Nat} (hunit : 0 < unit)
    (hnearer : nearer = if 2 * value < (2 * (value / unit) + 1) * unit then value / unit
      else value / unit + 1) :
    2 * value ≤ 2 * (nearer * unit) + unit ∧ 2 * (nearer * unit) ≤ 2 * value + unit := by
  have hlow : value / unit * unit ≤ value := Nat.div_mul_le_self value unit
  have hhigh : value < value / unit * unit + unit := Nat.lt_div_mul_add hunit
  rw [Nat.add_mul, Nat.mul_assoc, Nat.one_mul] at hnearer
  split at hnearer
  · subst hnearer
    omega
  · subst hnearer
    rw [Nat.add_mul, Nat.one_mul]
    omega

theorem le_iff_of_scaled {p n : Nat} {a b unit : ℚ} (hunit : 0 < unit) (hp : (p : ℚ) = a * unit)
    (hn : (n : ℚ) = b * unit) : p ≤ n ↔ a ≤ b := by
  rw [← Nat.cast_le (α := ℚ), hp, hn, mul_le_mul_iff_left₀ hunit]

theorem lt_iff_of_scaled {p n : Nat} {a b unit : ℚ} (hunit : 0 < unit) (hp : (p : ℚ) = a * unit)
    (hn : (n : ℚ) = b * unit) : p < n ↔ a < b := by
  rw [← Nat.cast_lt (α := ℚ), hp, hn, mul_lt_mul_iff_left₀ hunit]

namespace Rounding.Measures

variable {r : Rounding} {m up down digits : Nat} {e i : Int}

theorem denominator_pos (h : r.Measures m e) : 0 < r.denominator := by
  obtain ⟨i, -, hdenominator⟩ := h.denominator_eq
  rw [hdenominator]
  exact Nat.two_pow_pos i

theorem unit_pos (h : r.Measures m e) : (0 : ℚ) < 2 ^ e * r.denominator :=
  mul_pos (zpow_pos two_pos e) (by exact_mod_cast h.denominator_pos)

theorem contains_iff (h : r.Measures m e) (hdown : 0 < down) :
    r.contains up down digits = true ↔ Nearest m e (digits * (up / down) / 2 ^ e) := by
  have hdown' : (0 : ℚ) < down := by exact_mod_cast hdown
  have hunit : (0 : ℚ) < 2 ^ e * r.denominator * down := mul_pos h.unit_pos hdown'
  have hmiddle : ((digits * up * r.denominator : Nat) : ℚ) =
      digits * (up / down) / 2 ^ e * (2 ^ e * r.denominator * down) := by
    have htwo : (2 : ℚ) ^ e ≠ 0 := zpow_ne_zero e two_ne_zero
    push_cast
    field_simp
  have hlow : ((r.low * down : Nat) : ℚ) = (m - lowGap m e) * (2 ^ e * r.denominator * down) := by
    rw [Nat.cast_mul, h.low_eq]
    ring
  have hhigh : ((r.high * down : Nat) : ℚ) = (m + 1 / 2) * (2 ^ e * r.denominator * down) := by
    rw [Nat.cast_mul, h.high_eq]
    ring
  have heven := h.closed_iff
  rw [contains]
  split
  · next hclosed =>
    rw [Bool.and_eq_true, decide_eq_true_iff, decide_eq_true_iff, le_iff_of_scaled hunit hlow hmiddle,
      le_iff_of_scaled hunit hmiddle hhigh]
    exact ⟨fun hinside => ⟨hinside.1, hinside.2, .inl (heven.mp hclosed)⟩,
      fun hinside => ⟨hinside.low, hinside.high⟩⟩
  · next hopen =>
    rw [Bool.and_eq_true, decide_eq_true_iff, decide_eq_true_iff, lt_iff_of_scaled hunit hlow hmiddle,
      lt_iff_of_scaled hunit hmiddle hhigh]
    exact ⟨fun hinside => ⟨hinside.1.le, hinside.2.le, .inr hinside⟩,
      fun hinside => hinside.ties.resolve_left fun hm => hopen (heven.mpr hm)⟩

/-- The search tries two multiples, and the first is at most half a unit away. -/
theorem exists_multiples (h : r.Measures m e) (i : Int) : ∃ nearer farther,
    (2 * (r.value * 10 ^ (-i).toNat) ≤
        2 * (nearer * (10 ^ i.toNat * r.denominator)) + 10 ^ i.toNat * r.denominator ∧
      2 * (nearer * (10 ^ i.toNat * r.denominator)) ≤
        2 * (r.value * 10 ^ (-i).toNat) + 10 ^ i.toNat * r.denominator) ∧
    r.onGrid? i = if r.contains (10 ^ i.toNat) (10 ^ (-i).toNat) nearer then some ⟨nearer, i⟩
      else if r.contains (10 ^ i.toNat) (10 ^ (-i).toNat) farther then some ⟨farther, i⟩ else none :=
  ⟨_, _, nearer_bounds (Nat.mul_pos (pow_ten_pos _) h.denominator_pos) rfl, rfl⟩

theorem contains_pow_iff (h : r.Measures m e) :
    r.contains (10 ^ i.toNat) (10 ^ (-i).toNat) digits = true ↔
      Nearest m e (Decimal.value ⟨digits, i⟩ / 2 ^ e) := by
  rw [h.contains_iff (pow_ten_pos _), Decimal.value, zpow_eq_div 10 i]
  push_cast
  rfl

theorem nearest_of_onGrid? {d : Decimal} (h : r.Measures m e) (hd : r.onGrid? i = some d) :
    Nearest m e (d.value / 2 ^ e) := by
  obtain ⟨nearer, farther, -, hgrid⟩ := h.exists_multiples i
  rw [hgrid] at hd
  split at hd
  · next hinside =>
    cases hd
    exact h.contains_pow_iff.mp hinside
  · split at hd
    · next hinside =>
      cases hd
      exact h.contains_pow_iff.mp hinside
    · cases hd

theorem exists_onGrid? (h : r.Measures m e) (hfine : 10 ^ i < 2 * lowGap m e * 2 ^ e) :
    ∃ d, r.onGrid? i = some d := by
  obtain ⟨nearer, farther, ⟨hbelow, habove⟩, hgrid⟩ := h.exists_multiples i
  refine ⟨⟨nearer, i⟩, hgrid.trans (if_pos (h.contains_pow_iff.mpr ?_))⟩
  obtain ⟨down, hdown⟩ : ∃ down, down = 10 ^ (-i).toNat := ⟨_, rfl⟩
  obtain ⟨up, hup⟩ : ∃ up, up = 10 ^ i.toNat := ⟨_, rfl⟩
  have hten : (10 ^ i : ℚ) = up / down := by
    rw [zpow_eq_div, hdown, hup]
    push_cast
    rfl
  have hdownPos : (0 : ℚ) < down := by
    rw [hdown]
    exact_mod_cast pow_ten_pos _
  rw [← hdown, ← hup] at hbelow habove
  have htwo : (0 : ℚ) < 2 ^ e := zpow_pos two_pos e
  have hscale : (0 : ℚ) < 2 ^ e * r.denominator * down := mul_pos h.unit_pos hdownPos
  have hstep : (10 ^ i / 2 ^ e : ℚ) < 2 * lowGap m e := (div_lt_iff₀ htwo).mpr hfine
  have hvalue : (r.value * down : ℚ) = m * (2 ^ e * r.denominator * down) := by
    rw [h.value_eq]
    ring
  have hunit : (up * r.denominator : ℚ) = 10 ^ i / 2 ^ e * (2 ^ e * r.denominator * down) := by
    rw [hten]
    field_simp
  have hlow : (2 * m : ℚ) ≤ 2 * (nearer * (10 ^ i / 2 ^ e)) + 10 ^ i / 2 ^ e := by
    refine (le_iff_of_scaled hscale ?_ ?_).mp hbelow
    · push_cast
      rw [hvalue]
      ring
    · push_cast
      rw [hunit]
      ring
  have hhigh : (2 * (nearer * (10 ^ i / 2 ^ e)) : ℚ) ≤ 2 * m + 10 ^ i / 2 ^ e := by
    refine (le_iff_of_scaled hscale ?_ ?_).mp habove
    · push_cast
      rw [hunit]
      ring
    · push_cast
      rw [hvalue, hunit]
      ring
  have hgap := lowGap_le m e
  rw [Decimal.value, mul_div_assoc]
  exact ⟨by linarith, by linarith, .inr ⟨by linarith, by linarith⟩⟩

theorem value_pos (h : r.Measures m e) : 0 < r.value := by
  have hcast : (0 : ℚ) < r.value := by
    rw [h.value_eq]
    exact mul_pos (by exact_mod_cast h.parts.pos) h.unit_pos
  exact_mod_cast hcast

theorem exists_denominator_le (h : r.Measures m e) :
    ∃ places < 400, r.denominator ≤ r.value * 10 ^ places := by
  obtain ⟨i, hi, hdenominator⟩ := h.denominator_eq
  obtain ⟨places, hplaces⟩ : ∃ places, places = 399 := ⟨_, rfl⟩
  obtain ⟨most, hmost⟩ : ∃ most, most = 1076 := ⟨_, rfl⟩
  have htwo : 2 ^ most ≤ 10 ^ places := by
    rw [hplaces, hmost]
    decide +kernel
  refine ⟨places, by omega, ?_⟩
  rw [hdenominator]
  calc 2 ^ i
      _ ≤ 2 ^ most := Nat.pow_le_pow_right Nat.two_pos (hmost ▸ hi)
      _ ≤ 10 ^ places := htwo
      _ ≤ r.value * 10 ^ places := Nat.le_mul_of_pos_left _ h.value_pos

theorem pow_magnitude_le (h : r.Measures m e) : (10 : ℚ) ^ (r.magnitude - 1) ≤ m * 2 ^ e := by
  have hden : (0 : ℚ) < r.denominator := by exact_mod_cast h.denominator_pos
  have hvalue : (m * 2 ^ e : ℚ) = r.value / r.denominator := by
    rw [eq_div_iff hden.ne', h.value_eq, mul_assoc]
  rw [hvalue, magnitude]
  split
  · next hwhole =>
    have hquotient : 0 < r.value / r.denominator := Nat.div_pos hwhole h.denominator_pos
    have hlength : 0 < (toString (r.value / r.denominator)).length := Nat.length_repr_pos
    have hexponent : ((toString (r.value / r.denominator)).length - 1 : Int) =
        ((toString (r.value / r.denominator)).length - 1 : Nat) := by omega
    rw [hexponent, zpow_natCast]
    calc (10 ^ ((toString (r.value / r.denominator)).length - 1) : ℚ)
        _ ≤ (r.value / r.denominator : Nat) := by exact_mod_cast pow_length_le hquotient
        _ ≤ r.value / r.denominator := Nat.cast_div_le
  · split
    · next j hj =>
      have hreach : r.denominator ≤ r.value * 10 ^ j := by simpa using List.find?_some hj
      have hreach' : (r.denominator : ℚ) ≤ r.value * 10 ^ j := by exact_mod_cast hreach
      have hexponent : (1 - j - 1 : Int) = -j := by omega
      rw [hexponent, zpow_neg, zpow_natCast, inv_le_iff_one_le_mul₀ (pow_pos (by norm_num) j),
        div_mul_eq_mul_div, one_le_div hden]
      exact hreach'
    · next hnone =>
      obtain ⟨places, hplaces, hreach⟩ := h.exists_denominator_le
      have hmissed := List.find?_eq_none.mp hnone places (List.mem_range.mpr hplaces)
      exact absurd (decide_eq_true hreach) hmissed

/-- The shortest decimal reads back. -/
theorem nearest_shortest (h : r.Measures m e) : Nearest m e (r.shortest.value / 2 ^ e) := by
  rw [shortest]
  split
  · next d hd =>
    obtain ⟨n, -, hn⟩ := List.exists_of_findSome?_eq_some hd
    rw [Decimal.value_trim]
    exact h.nearest_of_onGrid? hn
  -- The last grid, with 17 digits, is fine enough to have a decimal, so the search does not fail.
  · next hnone =>
    have hfine : (10 : ℚ) ^ (r.magnitude - (16 : Nat) - 1) < 2 * lowGap m e * 2 ^ e := by
      have hexponent : r.magnitude - (16 : Nat) - 1 = r.magnitude - 1 - 16 := by omega
      rw [hexponent, zpow_sub₀ (by norm_num), div_lt_iff₀ (by norm_num)]
      calc (10 : ℚ) ^ (r.magnitude - 1)
          _ ≤ m * 2 ^ e := h.pow_magnitude_le
          _ < 2 * lowGap m e * 10 ^ 16 * 2 ^ e :=
            mul_lt_mul_of_pos_right h.parts.lt_gap (zpow_pos two_pos e)
          _ = 2 * lowGap m e * 2 ^ e * 10 ^ (16 : Int) := by
            rw [mul_right_comm]
            rfl
    obtain ⟨d, hd⟩ := h.exists_onGrid? hfine
    have hmissed := List.findSome?_eq_none_iff.mp hnone 16 (by decide)
    rw [hd] at hmissed
    cases hmissed

end Rounding.Measures

theorem HasParts.nearest_shortest {x : Float} {m : Nat} {e : Int} (h : HasParts x m e) :
    Nearest m e ((shortest x).value / 2 ^ e) := by
  have hne : mantissa x ≠ 0 := by
    rw [h.mantissa_eq]
    exact h.parts.pos.ne'
  rw [shortest, if_neg hne]
  exact h.measures.nearest_shortest

end ScriptLang.Number
