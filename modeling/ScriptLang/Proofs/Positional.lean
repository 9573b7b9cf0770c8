import ScriptLang.Number.Style
import ScriptLang.Proofs.Literal
import ScriptLang.Proofs.Pattern
import ScriptLang.Proofs.Shortest

/-! The display form of a number is a decimal without an exponent, and it is read back as the number. -/

namespace ScriptLang.Number

open Float.Model
open Float.Model.UnpackedFloat

/-! ### Digits with a point -/

/-- The digits of a decimal: those before the point and those behind it. -/
structure Digits where
  whole : List Char
  part : List Char
  ne_nil : whole ≠ []
  isDigit : ∀ c ∈ whole ++ part, c.isDigit = true

namespace Digits

/-- Without digits behind it the point is not written. -/
def text (n : Digits) : List Char :=
  if n.part = [] then n.whole else n.whole ++ '.' :: n.part

def decimal (n : Digits) : Decimal :=
  ⟨digitsValue (n.whole ++ n.part), -n.part.length⟩

variable {n : Digits}

theorem digits_matches {l : List Char} (hne : l ≠ []) (hl : ∀ c ∈ l, c.isDigit = true) :
    Pattern.digits.Matches l :=
  Pattern.matches_digits.mpr ⟨hne, hl⟩

theorem number_matches : Pattern.number.Matches n.text := by
  obtain ⟨hwhole, hpart⟩ := List.forall_mem_append.mp n.isDigit
  rw [text]
  split
  · exact Pattern.matches_number.mpr (.inl (digits_matches n.ne_nil hwhole))
  · next hne =>
    exact Pattern.matches_number.mpr
      (.inr ⟨n.whole, n.part, rfl, digits_matches n.ne_nil hwhole, digits_matches hne hpart⟩)

theorem readMagnitude?_text :
    readMagnitude? n.text = some (ofDecimal n.decimal.digits n.decimal.exponent) := by
  obtain ⟨hwhole, hpart⟩ := List.forall_mem_append.mp n.isDigit
  have htake : ∀ {l : List Char}, (∀ c ∈ l, c.isDigit = true) → l.takeWhile Char.isDigit = l :=
    fun h => List.takeWhile_eq_self_iff.mpr h
  have hdrop : ∀ {l : List Char}, (∀ c ∈ l, c.isDigit = true) → l.dropWhile Char.isDigit = [] :=
    fun h => List.dropWhile_eq_nil_iff.mpr h
  rw [text, decimal]
  split
  · next hnil =>
    rw [readMagnitude?, htake hwhole, hdrop hwhole, hnil]
    simp [n.ne_nil]
  · rw [readMagnitude?, List.takeWhile_append_of_pos hwhole, List.dropWhile_append_of_pos hwhole,
      List.takeWhile_cons_of_neg (by decide), List.dropWhile_cons_of_neg (by decide), List.append_nil]
    simp only [htake hpart, hdrop hpart]
    simp [n.ne_nil]

theorem read?_text :
    read? (String.ofList n.text) = some (ofDecimal n.decimal.digits n.decimal.exponent) := by
  obtain ⟨c, rest, hwhole⟩ := List.exists_cons_of_ne_nil n.ne_nil
  have hc : c.isDigit = true := n.isDigit c (by simp [hwhole])
  obtain ⟨rest', htext⟩ : ∃ rest', n.text = c :: rest' := by
    rw [text, hwhole]
    split
    · exact ⟨rest, rfl⟩
    · exact ⟨_, List.cons_append⟩
  have hmagnitude := readMagnitude?_text (n := n)
  rw [htext] at hmagnitude ⊢
  rw [read?_of_isDigit hc, read?.unsigned?, readName?_of_isDigit hc, hmagnitude]
  rfl

end Digits

/-! ### The form without an exponent -/

section Positional

variable {D : Nat}

theorem digitsValue_append_zeros (l : List Char) (count : Nat) :
    digitsValue (l ++ List.replicate count '0') = digitsValue l * 10 ^ count := by
  show Nat.ofDigitChars 10 (l ++ List.replicate count '0') 0 = Nat.ofDigitChars 10 l 0 * 10 ^ count
  rw [Nat.ofDigitChars_append, Nat.ofDigitChars_replicate_zero, Nat.mul_comm]

theorem digitsValue_zeros_append (l : List Char) (count : Nat) :
    digitsValue (List.replicate count '0' ++ l) = digitsValue l := by
  show Nat.ofDigitChars 10 (List.replicate count '0' ++ l) 0 = Nat.ofDigitChars 10 l 0
  rw [Nat.ofDigitChars_append, Nat.ofDigitChars_replicate_zero, Nat.mul_zero]

theorem isDigit_zeros (count : Nat) : ∀ c ∈ List.replicate count '0', c.isDigit = true := by
  intro c hc
  rw [List.eq_of_mem_replicate hc]
  rfl

theorem toList_toString : (toString D).toList = Nat.toDigits 10 D := by
  rw [Nat.toString_eq_repr, Nat.toList_repr]

namespace Digits

/-- The digits with zeros at the end. -/
def padded (D count : Nat) : Digits where
  whole := Nat.toDigits 10 D ++ List.replicate count '0'
  part := []
  ne_nil := List.append_ne_nil_of_left_ne_nil Nat.toDigits_ne_nil _
  isDigit := by
    rw [List.append_nil]
    exact List.forall_mem_append.mpr ⟨isDigit_toDigits, isDigit_zeros count⟩

/-- The digits with the point among them. -/
def broken (D : Nat) {start : Nat} (hstart : 0 < start) : Digits where
  whole := (Nat.toDigits 10 D).take start
  part := (Nat.toDigits 10 D).drop start
  ne_nil := by simp [Nat.toDigits_ne_nil, hstart.ne']
  isDigit := by
    rw [List.take_append_drop]
    exact isDigit_toDigits

/-- The digits behind the point, with zeros between. -/
def shifted (D count : Nat) : Digits where
  whole := ['0']
  part := List.replicate count '0' ++ Nat.toDigits 10 D
  ne_nil := List.cons_ne_nil _ _
  isDigit := List.forall_mem_append.mpr
    ⟨isDigit_zeros 1, List.forall_mem_append.mpr ⟨isDigit_zeros count, isDigit_toDigits⟩⟩

variable {count start : Nat}

theorem decimal_padded : (padded D count).decimal = ⟨D * 10 ^ count, 0⟩ := by
  rw [decimal, Decimal.mk.injEq]
  constructor
  · rw [padded, List.append_nil, digitsValue_append_zeros, digitsValue_toDigits]
  · rfl

theorem decimal_broken (hstart : 0 < start) (hle : start ≤ (Nat.toDigits 10 D).length) :
    (broken D hstart).decimal = ⟨D, start - (Nat.toDigits 10 D).length⟩ := by
  rw [decimal, Decimal.mk.injEq]
  constructor
  · rw [broken, List.take_append_drop, digitsValue_toDigits]
  · rw [broken, List.length_drop]
    omega

theorem decimal_shifted :
    (shifted D count).decimal = ⟨D, -(count + (Nat.toDigits 10 D).length : Nat)⟩ := by
  have hdigits : digitsValue (['0'] ++ (List.replicate count '0' ++ Nat.toDigits 10 D)) = D := by
    rw [← List.append_assoc]
    exact (digitsValue_zeros_append _ (count + 1)).trans digitsValue_toDigits
  rw [decimal, Decimal.mk.injEq]
  refine ⟨hdigits, ?_⟩
  rw [shifted, List.length_append, List.length_replicate]

end Digits

theorem exists_positional (d : Decimal) : ∃ n : Digits,
    Style.display.positionalText d = String.ofList n.text ∧ n.decimal.value = d.value := by
  obtain ⟨D, i⟩ := d
  have hne : Nat.toDigits 10 D ≠ [] := Nat.toDigits_ne_nil
  simp only [Style.positionalText, toList_toString]
  by_cases hwhole : 0 ≤ i
  · obtain ⟨count, rfl⟩ : ∃ count : Nat, i = count := ⟨i.toNat, by omega⟩
    refine ⟨.padded D count, ?_, ?_⟩
    · rw [if_pos hwhole]
      apply String.toList_injective
      simp [Digits.text, Digits.padded, Style.zeros, Style.display]
    · rw [Digits.decimal_padded, Decimal.value, Decimal.value]
      simp
  · rw [if_neg hwhole]
    by_cases hinside : 0 < (Nat.toDigits 10 D).length + i
    · obtain ⟨start, hstart⟩ : ∃ start : Nat, (Nat.toDigits 10 D).length + i = start :=
        ⟨_, (Int.toNat_of_nonneg hinside.le).symm⟩
      have hpos : 0 < start := by omega
      have hpart : (Nat.toDigits 10 D).drop start ≠ [] := by
        rw [← List.length_pos_iff, List.length_drop]
        omega
      refine ⟨.broken D hpos, ?_, ?_⟩
      · rw [if_pos hinside, hstart]
        apply String.toList_injective
        simp [Digits.text, Digits.broken, hpart]
      · rw [Digits.decimal_broken _ (by omega), ← hstart, add_sub_cancel_left]
    · obtain ⟨count, hcount⟩ : ∃ count : Nat, -((Nat.toDigits 10 D).length + i) = count :=
        ⟨_, (Int.toNat_of_nonneg (by omega)).symm⟩
      have hexponent : -(count + (Nat.toDigits 10 D).length : Nat) = i := by omega
      refine ⟨.shifted D count, ?_, ?_⟩
      · rw [if_neg hinside, hcount]
        apply String.toList_injective
        have hzero : "0.".toList = ['0', '.'] := rfl
        simp [Digits.text, Digits.shifted, Style.zeros, hne, hzero]
      · rw [Digits.decimal_shifted, hexponent]

end Positional

/-! ### Reading back -/

section ReadingBack

variable {x : Float}

theorem not_special (h : x.isFinite = true) : x.isNaN = false ∧ x.isInf = false := by
  have hunpacked : ∀ u : UnpackedFloat, u.isFinite = true → u.isNaN = false ∧ u.isInf = false := by
    intro u hu
    cases u with
    | notANumber | infinity => cases hu
    | zero | finite => exact ⟨rfl, rfl⟩
  exact hunpacked _ h

theorem sign_finite {s : Sign} {m : Nat} {e : Int} {hpos : 0 < m}
    (h : Represents x.toBits.toBitVec (.finite s m e hpos)) (hsign : isNegative x = false) :
    s = .positive := by
  have hcomponents : ∃ b f, x.toBits.toBitVec = packComponents format s b f := by
    generalize x.toBits.toBitVec = bits at h
    cases h with
    | subnormal _ f => exact ⟨_, _, rfl⟩
    | normal _ b f => exact ⟨_, _, rfl⟩
  obtain ⟨b, f, hbits⟩ := hcomponents
  cases s with
  | positive => rfl
  | negative =>
    rw [(isNegative_eq hbits).mpr rfl] at hsign
    cases hsign

theorem eq_zero_or_hasParts (hfinite : x.isFinite = true) (hsign : isNegative x = false) :
    x = 0 ∨ ∃ m e, ∃ h : HasParts x m e, x = .ofModel (.pack (.finite .positive m e h.parts.pos)) := by
  obtain ⟨u, hu, hx⟩ := exists_unpack x
  have hunpack : x.toModel.unpack.isFinite = true := hfinite
  rw [show x.toModel.unpack = u from hu.unpack] at hunpack
  cases u with
  | notANumber | infinity => cases hunpack
  | zero s =>
    cases s with
    | positive => exact .inl hx
    | negative =>
      rw [hx] at hsign
      exact absurd hsign (by decide +kernel)
  | finite s m e hpos =>
    obtain rfl := sign_finite hu hsign
    exact .inr ⟨m, e, hu.hasParts, hx⟩

/-- A decimal with the value of the shortest one is read as the number. -/
theorem ofDecimal_of_value {d : Decimal} {places : Nat} (hfinite : x.isFinite = true)
    (hsign : isNegative x = false) (hplaces : d.exponent = -places)
    (hvalue : d.value = (shortest x).value) : ofDecimal d.digits d.exponent = x := by
  rcases eq_zero_or_hasParts hfinite hsign with rfl | ⟨m, e, hparts, hx⟩
  · have hmantissa : mantissa 0 = 0 := by decide +kernel
    have hpower : (10 : ℚ) ^ d.exponent ≠ 0 := zpow_ne_zero _ (by norm_num)
    have hdigits : d.digits = 0 := by
      rw [shortest, if_pos hmantissa, Decimal.value, Decimal.value] at hvalue
      simpa [hpower] using hvalue
    rw [ofDecimal, hdigits]
    rfl
  · have hnearest := hparts.nearest_shortest
    rw [← hvalue, Decimal.value, hplaces, zpow_neg, zpow_natCast, ← div_eq_mul_inv] at hnearest
    rw [hplaces]
    exact (hparts.parts.ofDecimal_of_nearest hnearest).trans hx.symm

/-- The display form is digits, perhaps with a fraction, and is read as the number. -/
structure ReadsBack (x : Float) : Prop where
  digits : Pattern.number.Matches (Style.display.text x).toList
  read : read? (Style.display.text x) = some x

/-- This leaves out the negative numbers and the negative zero, which have a sign in front. -/
theorem readsBack (hfinite : x.isFinite = true) (hsign : isNegative x = false) : ReadsBack x := by
  obtain ⟨hnan, hinf⟩ := not_special hfinite
  obtain ⟨n, hpositional, hvalue⟩ := exists_positional (shortest x)
  have htext : Style.display.text x = String.ofList n.text := by
    rw [Style.text, hnan, hinf, hsign, ← hpositional]
    rfl
  refine ⟨?_, ?_⟩
  · rw [htext, String.toList_ofList]
    exact n.number_matches
  · rw [htext, Digits.read?_text]
    exact congrArg some (ofDecimal_of_value hfinite hsign rfl hvalue)

end ReadingBack

end ScriptLang.Number
