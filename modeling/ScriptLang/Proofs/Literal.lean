import ScriptLang.Proofs.Decimal

/-! A literal for every number. A finite number is a multiple of `2 ^ -1074`, and so it is exactly a decimal
with 1074 places. -/

namespace ScriptLang.Number

open Float.Model
open Float.Model.UnpackedFloat

/-- The digits of `m · 2 ^ e` with so many places. -/
def digitsOf (places m : Nat) (e : Int) : Nat :=
  m * 2 ^ (e + places).toNat * 5 ^ places

def signText : Sign → String
  | .negative => "-"
  | .positive => ""

/-- A text that is read as this very number. -/
def spell (x : Float) : String :=
  match x.toModel.unpack with
  | .notANumber => "nan"
  | .infinity s => signText s ++ "inf"
  | .zero s => signText s ++ "0"
  | .finite s m e _ => signText s ++ (toString (digitsOf 1074 m e) ++ "e-1074")

/-! ### Digits -/

section Digits

variable {n : Nat} {rest : List Char}

theorem digitsValue_toDigits : digitsValue (Nat.toDigits 10 n) = n :=
  Nat.ofDigitChars_ten_toDigits

theorem isDigit_toDigits : ∀ c ∈ Nat.toDigits 10 n, c.isDigit = true :=
  fun _ hc => Nat.isDigit_of_mem_toDigits (by decide) (by decide) hc

theorem exists_toDigits (n : Nat) :
    ∃ c digits, Nat.toDigits 10 n = c :: digits ∧ c.isDigit = true := by
  have hne : Nat.toDigits 10 n ≠ [] := Nat.toDigits_ne_nil
  obtain ⟨c, digits, hdigits⟩ := List.exists_cons_of_ne_nil hne
  have hc : c ∈ Nat.toDigits 10 n := by
    rw [hdigits]
    exact List.mem_cons_self
  exact ⟨c, digits, hdigits, isDigit_toDigits c hc⟩

theorem takeWhile_toDigits {c : Char} (hc : c.isDigit = false) :
    (Nat.toDigits 10 n ++ c :: rest).takeWhile Char.isDigit = Nat.toDigits 10 n := by
  rw [List.takeWhile_append_of_pos isDigit_toDigits]
  simp [hc]

theorem dropWhile_toDigits {c : Char} (hc : c.isDigit = false) :
    (Nat.toDigits 10 n ++ c :: rest).dropWhile Char.isDigit = c :: rest := by
  rw [List.dropWhile_append_of_pos isDigit_toDigits]
  simp [hc]

theorem readMagnitude?_toDigits :
    readMagnitude? (Nat.toDigits 10 n ++ "e-1074".toList) = some (ofDecimal n (-1074)) := by
  have htext : "e-1074".toList = 'e' :: ['-', '1', '0', '7', '4'] := by decide
  have hexponent : readExponent? ['-', '1', '0', '7', '4'] = some (-1074) := by decide
  rw [htext, readMagnitude?, takeWhile_toDigits rfl, dropWhile_toDigits rfl]
  simp [hexponent, digitsValue_toDigits]

theorem toLower_of_isDigit {c : Char} (hc : c.isDigit = true) : c.toLower = c := by
  simp only [Char.isDigit, Bool.and_eq_true, decide_eq_true_eq] at hc
  have hnine : c.val.toNat ≤ 57 := hc.2
  have hupper : ¬(c.val ≥ 'A'.val ∧ c.val ≤ 'Z'.val) := by
    intro h
    have hletter : 65 ≤ c.val.toNat := h.1
    omega
  rw [Char.toLower, dif_neg hupper]

theorem readName?_of_isDigit {c : Char} (hc : c.isDigit = true) : readName? (c :: rest) = none := by
  have hne : ∀ first name, first.isDigit = false →
      String.ofList ((c :: rest).map Char.toLower) ≠ String.ofList (first :: name) := by
    intro first name hfirst h
    have hhead := (List.cons.inj (String.ofList_injective h)).1
    rw [toLower_of_isDigit hc] at hhead
    rw [← hhead, hc] at hfirst
    cases hfirst
  have hinf := hne 'i' ['n', 'f'] rfl
  have hinfinity := hne 'i' ['n', 'f', 'i', 'n', 'i', 't', 'y'] rfl
  have hnan := hne 'n' ['a', 'n'] rfl
  unfold readName?
  split
  · next h => exact absurd h hinf
  · next h => exact absurd h hinfinity
  · next h => exact absurd h hnan
  · rfl

theorem readName?_toDigits : readName? (Nat.toDigits 10 n ++ rest) = none := by
  obtain ⟨c, digits, hdigits, hc⟩ := exists_toDigits n
  rw [hdigits, List.cons_append]
  exact readName?_of_isDigit hc

end Digits

/-! ### Decimals -/

theorem cast_digitsOf {places m : Nat} {e : Int} (h : 0 ≤ e + places) :
    (digitsOf places m e / 10 ^ places / 2 ^ e : ℚ) = m := by
  have hten : (10 : ℚ) ^ places = 2 ^ places * 5 ^ places := by
    rw [← mul_pow]
    norm_num
  have htwo : (2 : ℚ) ^ (e + places).toNat = 2 ^ e * 2 ^ places := by
    rw [← zpow_natCast, Int.toNat_of_nonneg h, zpow_add₀ two_ne_zero, zpow_natCast]
  rw [digitsOf]
  push_cast
  rw [hten, htwo]
  field_simp

theorem ofDecimal_digitsOf {m : Nat} {e : Int} (h : FiniteParts m e) :
    ofDecimal (digitsOf 1074 m e) (-1074) = .ofModel (.pack (.finite .positive m e h.pos)) := by
  obtain ⟨places, hplaces⟩ : ∃ places : Nat, places = 1074 := ⟨_, rfl⟩
  have hexponent : (-1074 : Int) = -places := by omega
  rw [hexponent, ← hplaces]
  refine h.ofDecimal_of_nearest ?_
  rw [cast_digitsOf (by have hlow := h.low; omega)]
  exact .self m e

/-! ### Literals -/

theorem read?_negative {rest : List Char} :
    read? (String.ofList ('-' :: rest)) = (read?.unsigned? rest).map (-·) := by
  rw [read?, String.toList_ofList]
  rfl

theorem read?_of_isDigit {c : Char} {rest : List Char} (hc : c.isDigit = true) :
    read? (String.ofList (c :: rest)) = read?.unsigned? (c :: rest) := by
  have hminus : c ≠ '-' := by
    rintro rfl
    cases hc
  have hplus : c ≠ '+' := by
    rintro rfl
    cases hc
  rw [read?, String.toList_ofList]
  split
  · next h => exact absurd (List.cons.inj h).1 hminus
  · next h => exact absurd (List.cons.inj h).1 hplus
  · rfl

section Finite

variable {m : Nat} {e : Int}

/-- The magnitude of a finite number is read back. -/
theorem unsigned?_digitsOf (h : FiniteParts m e) :
    read?.unsigned? (Nat.toDigits 10 (digitsOf 1074 m e) ++ "e-1074".toList) =
      some (.ofModel (.pack (.finite .positive m e h.pos))) := by
  have hread : readMagnitude? (Nat.toDigits 10 (digitsOf 1074 m e) ++ "e-1074".toList) =
      some (.ofModel (.pack (.finite .positive m e h.pos))) := by
    rw [readMagnitude?_toDigits, ofDecimal_digitsOf h]
  rw [read?.unsigned?, readName?_toDigits, hread]
  rfl

theorem text_toList : (toString (digitsOf 1074 m e) ++ "e-1074").toList =
    Nat.toDigits 10 (digitsOf 1074 m e) ++ "e-1074".toList := by
  rw [String.toList_append, Nat.toString_eq_repr, Nat.toList_repr]

theorem read?_finite (h : FiniteParts m e) :
    read? (toString (digitsOf 1074 m e) ++ "e-1074") =
      some (.ofModel (.pack (.finite .positive m e h.pos))) := by
  obtain ⟨c, digits, hdigits, hc⟩ := exists_toDigits (digitsOf 1074 m e)
  rw [← String.ofList_toList (s := toString (digitsOf 1074 m e) ++ "e-1074"), text_toList,
    ← unsigned?_digitsOf h, hdigits, List.cons_append]
  exact read?_of_isDigit hc

theorem read?_finite_negative (h : FiniteParts m e) :
    read? ("-" ++ (toString (digitsOf 1074 m e) ++ "e-1074")) =
      some (-.ofModel (.pack (.finite .positive m e h.pos))) := by
  have htext : "-" ++ (toString (digitsOf 1074 m e) ++ "e-1074") =
      String.ofList ('-' :: (Nat.toDigits 10 (digitsOf 1074 m e) ++ "e-1074".toList)) := by
    have hminus : "-".toList = ['-'] := rfl
    apply String.toList_injective
    rw [String.toList_append, text_toList, hminus]
    exact String.toList_ofList.symm
  rw [htext, read?_negative, unsigned?_digitsOf h]
  rfl

end Finite

theorem read?_spell (x : Float) : read? (spell x) = some x := by
  obtain ⟨u, hu, hx⟩ := exists_unpack x
  have hunpack : x.toModel.unpack = u := hu.unpack
  rw [spell, hunpack]
  cases u with
  | notANumber =>
    rw [hx]
    rfl
  | infinity s =>
    rw [hx]
    cases s <;> rfl
  | zero s =>
    rw [hx]
    cases s <;> rfl
  | finite s m e hpos =>
    have hparts : FiniteParts m e := hu.finiteParts
    cases s with
    | positive =>
      show read? ("" ++ (toString (digitsOf 1074 m e) ++ "e-1074")) = _
      rw [String.empty_append, read?_finite hparts, hx]
    | negative =>
      obtain ⟨b, hb⟩ := hu.neg
      show read? ("-" ++ (toString (digitsOf 1074 m e) ++ "e-1074")) = _
      rw [read?_finite_negative hparts, hx]
      exact congrArg some (neg_ofModel_pack hb)

end ScriptLang.Number
