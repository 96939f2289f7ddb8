import Mathlib.Tactic.FieldSimp
import Calculator.Proofs.Decimal.Shortest
import Calculator.Proofs.Syntax.Literal

/-!
# The text of a double reads back

The positional text of a number is a numeral of the same value. With it the text of every finite
double that has no minus sign is a literal, and it is read as that double again.
-/

namespace Calculator

namespace Decimal

/-- The value of digits with one more at the end. -/
theorem valueOf_append_singleton (digits : List Char) (c : Char) :
    valueOf (digits ++ [c]) = 10 * valueOf digits + (c.toNat - 48) := by
  simp [valueOf, List.foldl_append]

/-- The digits of a number have its value. -/
theorem valueOf_digitsOf (n : Nat) : valueOf (digitsOf n) = n := by
  have hdigit : ∀ d : Fin 10, (Nat.digitChar d).toNat - 48 = d := by decide
  induction n using Nat.strongRecOn with
  | ind n ih =>
    unfold digitsOf at ih ⊢
    by_cases hlt : n < 10
    · rw [Nat.toDigits_of_lt_base hlt]
      simpa [valueOf] using hdigit ⟨n, hlt⟩
    · have hmod : n % 10 < 10 := Nat.mod_lt n (by decide)
      have hlast : (Nat.digitChar (n % 10)).toNat - 48 = n % 10 := hdigit ⟨n % 10, hmod⟩
      rw [Nat.toDigits_of_base_le (by decide) (by omega), valueOf_append_singleton,
        ih (n / 10) (by omega), hlast]
      omega

/-- Zeros at the end multiply by a power of ten. -/
theorem valueOf_append_zeros (digits : List Char) (k : Nat) :
    valueOf (digits ++ List.replicate k '0') = valueOf digits * 10 ^ k := by
  induction k with
  | zero => simp
  | succ k ih =>
    have hzero : '0'.toNat - 48 = 0 := rfl
    rw [List.replicate_succ', ← List.append_assoc, valueOf_append_singleton, ih, hzero,
      Nat.pow_succ]
    ring

/-- Zeros in front change nothing. -/
theorem valueOf_zeros_append (k : Nat) (digits : List Char) :
    valueOf (List.replicate k '0' ++ digits) = valueOf digits := by
  induction k with
  | zero => rfl
  | succ k ih =>
    rw [← ih]
    rfl

/-- Every digit of a number is a decimal digit. -/
theorem isDigit_of_mem_digitsOf {n : Nat} {c : Char} (h : c ∈ digitsOf n) : c.isDigit = true :=
  Nat.isDigit_of_mem_toDigits (by decide) (by decide) h

/-- Zeros are decimal digits. -/
theorem isDigit_of_mem_zeros {k : Nat} {c : Char} (h : c ∈ List.replicate k '0') :
    c.isDigit = true := by
  obtain rfl := List.eq_of_mem_replicate h
  rfl

/-- Digits with a point among them are a numeral with the places after the point. -/
theorem numeral_pointAmong {n places : Nat} (hpos : 0 < places)
    (hlt : places < (digitsOf n).length) :
    Numeral ((digitsOf n).take ((digitsOf n).length - places) ++
      '.' :: (digitsOf n).drop ((digitsOf n).length - places)) ⟨false, n, -places⟩ := by
  have hlength : ((digitsOf n).drop ((digitsOf n).length - places)).length = places := by
    rw [List.length_drop]
    omega
  have hpoint : Numeral ((digitsOf n).take ((digitsOf n).length - places) ++
      '.' :: (digitsOf n).drop ((digitsOf n).length - places)) _ :=
    .point (.inr (List.ne_nil_of_length_pos (by omega)))
      (fun c hc => isDigit_of_mem_digitsOf (List.mem_of_mem_take hc))
      (fun c hc => isDigit_of_mem_digitsOf (List.mem_of_mem_drop hc))
  rwa [List.take_append_drop, valueOf_digitsOf, hlength] at hpoint

/-- Digits after a point, with zeros up to it, are a numeral with all of these places. -/
theorem numeral_pointBefore {n places : Nat} (hle : (digitsOf n).length ≤ places) :
    Numeral ('0' :: '.' :: List.replicate (places - (digitsOf n).length) '0' ++ digitsOf n)
      ⟨false, n, -places⟩ := by
  have hlength : (List.replicate (places - (digitsOf n).length) '0' ++ digitsOf n).length =
      places := by
    rw [List.length_append, List.length_replicate]
    omega
  have hpoint : Numeral (['0'] ++ '.' ::
      (List.replicate (places - (digitsOf n).length) '0' ++ digitsOf n)) _ :=
    .point (.inl (by simp)) (by simp) fun c hc =>
      (List.mem_append.1 hc).elim isDigit_of_mem_zeros isDigit_of_mem_digitsOf
  rwa [← List.replicate_one, valueOf_zeros_append, valueOf_zeros_append, valueOf_digitsOf,
    hlength] at hpoint

/-- The positional text of a number is a numeral of the same value. -/
theorem numeral_positional (n : Nat) (exponent : Int) :
    ∃ n' places : Nat, Numeral (positional n exponent) ⟨false, n', -places⟩ ∧
      (n' / 10 ^ places : ℚ) = n * 10 ^ exponent := by
  unfold positional
  simp only
  split
  · next hle =>
    refine ⟨n * 10 ^ exponent.toNat, 0, ?_, ?_⟩
    · have hne : digitsOf n ≠ [] := Nat.toDigits_ne_nil
      have hwhole : Numeral (digitsOf n ++ List.replicate exponent.toNat '0') _ :=
        .whole (by simp [hne]) fun c hc =>
          (List.mem_append.1 hc).elim isDigit_of_mem_digitsOf isDigit_of_mem_zeros
      rwa [valueOf_append_zeros, valueOf_digitsOf] at hwhole
    · have hzero : (-exponent).toNat = 0 := by omega
      rw [Binary64.zpow_eq_div 10 exponent, hzero]
      push_cast
      rw [mul_div_assoc]
  · next hlt =>
    refine ⟨n, (-exponent).toNat, ?_, ?_⟩
    · split
      · next hplaces => exact numeral_pointAmong (by omega) hplaces
      · next hplaces => exact numeral_pointBefore (Nat.le_of_not_lt hplaces)
    · have hzero : exponent.toNat = 0 := by omega
      rw [Binary64.zpow_eq_div 10 exponent, hzero, pow_zero, mul_one_div]

end Decimal

open Float.Model (UnpackedFloat)

/-- The text of a finite double without a minus sign is a literal that is read as it. -/
theorem literal_numberText {x : Float} (hfinite : x.isFinite = true)
    (hsign : Binary64.isNegative x = false) : ∃ d, Literal (numberText x) d ∧ d.toFloat = x := by
  have hunpack : x.toModel.unpack.isFinite = true := hfinite
  unfold Binary64.isNegative at hsign
  unfold numberText
  generalize hx : x.toModel.unpack = u at hunpack hsign
  cases u with
  | notANumber => cases hunpack
  | infinity => cases hunpack
  | zero sign =>
    cases sign with
    | negative => cases hsign
    | positive =>
      refine ⟨⟨false, 0, 0⟩, .plain (.whole (by simp) (by simp)), ?_⟩
      have hzero : (Decimal.toFloat ⟨false, 0, 0⟩).toModel.unpack = .zero .positive := rfl
      exact Binary64.eq_of_unpack_eq (hzero.trans hx.symm)
  | finite sign mantissa exponent hpos =>
    cases sign with
    | negative => cases hsign
    | positive =>
      have hcanonical := Binary64.canonical_of_unpack hx
      have hnearest := Decimal.nearest_shortest hcanonical false
      obtain ⟨n, places, hnumeral, hvalue⟩ := Decimal.numeral_positional
        (Decimal.shortest false mantissa exponent).coefficient
        (Decimal.shortest false mantissa exponent).exponent
      refine ⟨_, .plain hnumeral, Decimal.toFloat_eq hx ?_⟩
      rwa [hvalue]

/-- The text of a finite negative double is a minus sign and the text of its negation. -/
theorem numberText_of_isNegative {x : Float} (hfinite : x.isFinite = true)
    (hsign : Binary64.isNegative x = true) : numberText x = '-' :: numberText (-x) := by
  have hunpack : x.toModel.unpack.isFinite = true := hfinite
  unfold Binary64.isNegative at hsign
  unfold numberText
  rw [Binary64.unpack_neg]
  generalize x.toModel.unpack = u at hunpack hsign
  cases u with
  | notANumber => cases hunpack
  | infinity => cases hunpack
  | zero sign =>
    cases sign with
    | negative => rfl
    | positive => cases hsign
  | finite sign mantissa exponent hpos =>
    cases sign with
    | negative => rfl
    | positive => cases hsign

end Calculator
