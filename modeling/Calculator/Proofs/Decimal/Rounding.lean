import Mathlib.Tactic.NormNum
import Calculator.Decimal.Basic
import Calculator.Proofs.Binary64.Laws
import Calculator.Proofs.Binary64.Nearest

/-!
# The double of a decimal

A decimal without an exponent is read as the double that it is nearest to, on the fast path for
short decimals as well as on the general one.
-/

namespace Calculator.Decimal

open Float.Model (UnpackedFloat Format)
open Float.Model.UnpackedFloat
open Binary64 (Canonical Nearest two_zpow_eq)

/-- A natural number is rounded to the double that it is nearest to. -/
theorem round_natural {n mantissa : Nat} {exponent : Int} (hn : n ≠ 0)
    (hcanonical : Canonical mantissa exponent) (h : Nearest mantissa exponent (n : ℚ)) :
    UnpackedFloat.ofNat .binary64 n = .finite .positive mantissa exponent hcanonical.pos := by
  have hcompare : compare (n : Int) 0 = .gt := Int.compare_eq_gt.2 (by omega)
  have hvalue : (n : ℚ) * 2 ^ (0 : Int) = n := by rw [zpow_zero, mul_one]
  rw [UnpackedFloat.ofNat, UnpackedFloat.ofInt, UnpackedFloat.normalize, hcompare]
  exact Binary64.round_eq hn hcanonical (hvalue.symm ▸ h)

/-- A natural number below two to the fifty-third fits into sixty-four bits. -/
theorem toNat_toUInt64 {n : Nat} (hlt : n < 2 ^ 53) : n.toUInt64.toNat = n := by
  rw [Nat.toUInt64, UInt64.toNat_ofNat']
  exact Nat.mod_eq_of_lt (by omega)

/-- The number of the double of a natural number below two to the fifty-third. -/
theorem exists_unpack_toFloat {n : Nat} (hn : n ≠ 0) (hlt : n < 2 ^ 53) :
    ∃ mantissa exponent hpos, n.toUInt64.toFloat.toModel.unpack =
      .finite .positive mantissa exponent hpos ∧ (mantissa * 2 ^ exponent : ℚ) = n := by
  obtain ⟨m, e, hcanonical, hvalue⟩ := Binary64.exists_canonical (Nat.pos_of_ne_zero hn) hlt
    (by decide : -1074 ≤ (0 : Int)) (by decide)
  rw [zpow_zero, mul_one] at hvalue
  refine ⟨m, e, hcanonical.pos, ?_, hvalue⟩
  have hround := round_natural hn hcanonical (hvalue ▸ Binary64.nearest_self m e)
  have hmodel : n.toUInt64.toFloat.toModel =
      Float.Model.pack (UnpackedFloat.ofNat .binary64 n.toUInt64.toNat) := rfl
  rw [hmodel, toNat_toUInt64 hlt, hround]
  exact hcanonical.unpack_pack .positive

/-- Every entry of the table of powers of ten has the power as its number. -/
theorem table_powersOfTen : ∀ k, ∀ h : k < Float.exactlyRepresentablePowersOfTen.size,
    (match Float.exactlyRepresentablePowersOfTen[k].toModel.unpack with
      | .finite .positive mantissa exponent _ =>
        decide (mantissa * 2 ^ exponent.toNat = 10 ^ k * 2 ^ (-exponent).toNat)
      | _ => false) = true := by
  decide +kernel

/-- The tabulated powers of ten are exact. -/
theorem exists_unpack_powerOfTen {k : Nat} (h : k < Float.exactlyRepresentablePowersOfTen.size) :
    ∃ mantissa exponent hpos, Float.exactlyRepresentablePowersOfTen[k].toModel.unpack =
      .finite .positive mantissa exponent hpos ∧ (mantissa * 2 ^ exponent : ℚ) = 10 ^ k := by
  have hentry := table_powersOfTen k h
  split at hentry
  · next mantissa exponent hpos heq =>
    refine ⟨mantissa, exponent, hpos, heq, ?_⟩
    have hnat := of_decide_eq_true hentry
    have hcast : (mantissa * 2 ^ exponent.toNat : ℚ) = 10 ^ k * 2 ^ (-exponent).toNat := by
      exact_mod_cast hnat
    rw [Binary64.zpow_eq_div, ← mul_div_assoc, hcast, mul_div_assoc, div_self, mul_one]
    positivity
  · cases hentry

/-- A decimal that is read as a double is no further below one than the least double. -/
theorem places_le {n places mantissa : Nat} {exponent : Int}
    (hcanonical : Canonical mantissa exponent)
    (h : Nearest mantissa exponent (n / 10 ^ places : ℚ)) :
    n ≠ 0 ∧ places ≤ n.log2 + 1076 := by
  have hten : (0 : ℚ) < 10 ^ places := by positivity
  have hleast : (2 : ℚ) ^ (-1076 : Int) ≤ n / 10 ^ places := by
    have hle := hcanonical.le_exponent
    have hmantissa := Binary64.lower_pos exponent hcanonical.pos
    have hunit : (0 : ℚ) < 2 ^ (exponent - 2) := by positivity
    have hpow : (2 : ℚ) ^ (-1076 : Int) ≤ 2 ^ (exponent - 2) := Binary64.two_zpow_le (by omega)
    have hlower := h.lower
    nlinarith
  have hpow : (2 : ℚ) ^ (-1076 : Int) = 1 / 2 ^ 1076 := by
    rw [zpow_neg, one_div]
    norm_cast
  rw [hpow, div_le_div_iff₀ (by positivity) hten, one_mul] at hleast
  have hnat : 10 ^ places ≤ n * 2 ^ 1076 := by exact_mod_cast hleast
  have hn : n ≠ 0 := by
    rintro rfl
    rw [Nat.zero_mul] at hnat
    exact absurd hnat (Nat.not_le.2 (by positivity))
  refine ⟨hn, ?_⟩
  have hlt : 2 ^ places < 2 ^ (n.log2 + 1 + 1076) := by
    calc 2 ^ places ≤ 10 ^ places := Nat.pow_le_pow_left (by decide) places
      _ ≤ n * 2 ^ 1076 := hnat
      _ < 2 ^ (n.log2 + 1) * 2 ^ 1076 := by
          gcongr
          exact Nat.lt_log2_self
      _ = 2 ^ (n.log2 + 1 + 1076) := by rw [← Nat.pow_add]
  have hexponent := (Nat.pow_lt_pow_iff_right (by decide)).1 hlt
  omega

/-- The first power of ten in the table is one. -/
theorem powerOfTen_zero : ∀ k, ∀ h : k < Float.exactlyRepresentablePowersOfTen.size, k = 0 →
    Float.exactlyRepresentablePowersOfTen[k] = 1 := by
  decide +kernel

/-- A short decimal is read through the table as the double that it is nearest to. -/
theorem short_eq {n places mantissa : Nat} {exponent : Int}
    (hcanonical : Canonical mantissa exponent)
    (h : Nearest mantissa exponent (n / 10 ^ places : ℚ)) (hlt : n < 2 ^ 53)
    (hplaces : places < Float.exactlyRepresentablePowersOfTen.size) :
    (if 0 < places then n.toUInt64.toFloat / Float.exactlyRepresentablePowersOfTen[places]
      else n.toUInt64.toFloat * Float.exactlyRepresentablePowersOfTen[places]) =
      .ofModel (.pack (.finite .positive mantissa exponent hcanonical.pos)) := by
  obtain ⟨hn, -⟩ := places_le hcanonical h
  split
  · obtain ⟨m, e, hm, hunpack, hvalue⟩ := exists_unpack_toFloat hn hlt
    obtain ⟨m', e', hm', hunpack', hvalue'⟩ := exists_unpack_powerOfTen hplaces
    have hdiv (x y : Float) : x / y =
        .ofModel (.pack (UnpackedFloat.div .binary64 x.toModel.unpack y.toModel.unpack)) := rfl
    rw [hdiv, hunpack, hunpack', Binary64.div_eq hcanonical (by rwa [hvalue, hvalue'])]
  · next hpoint =>
    obtain rfl : places = 0 := by omega
    rw [pow_zero, div_one] at h
    have hone : Float.exactlyRepresentablePowersOfTen[0] = 1 := powerOfTen_zero 0 hplaces rfl
    have hmodel : n.toUInt64.toFloat =
        .ofModel (.pack (UnpackedFloat.ofNat .binary64 n.toUInt64.toNat)) := rfl
    rw [hone, Binary64.mul_one, hmodel, toNat_toUInt64 hlt, round_natural hn hcanonical h]

/-- The decimal is read as the double that it is nearest to, however long it is. -/
theorem long_eq {n places mantissa : Nat} {exponent : Int}
    (hcanonical : Canonical mantissa exponent)
    (h : Nearest mantissa exponent (n / 10 ^ places : ℚ)) :
    UnpackedFloat.ofScientific .binary64 n (-places) =
      .finite .positive mantissa exponent hcanonical.pos := by
  obtain ⟨hn, hplaces⟩ := places_le hcanonical h
  have hlarge : ¬ (-places : Int) > 2 ^ 11 := by omega
  have hsmall : ¬ (-places : Int) < -(2 ^ 11 + n.log2) := by omega
  rw [UnpackedFloat.ofScientific, dif_neg hn, if_neg hlarge, if_neg hsmall]
  split
  · obtain rfl : places = 0 := by omega
    have hvalue : ((n * 2 ^ 53 : Nat) : ℚ) * 2 ^ (-53 : Int) = n / 10 ^ 0 := by
      rw [zpow_neg]
      push_cast
      rw [pow_zero, div_one, mul_inv_cancel_right₀ (by norm_num)]
    have hbits : 2 ^ 52 ≤ n * 2 ^ 53 := by omega
    have hmantissa : n * 2 ^ 53 * 10 ^ (-(0 : Nat) : Int).toNat = n * 2 ^ 53 := Nat.mul_one _
    have hexponent : -((53 : Nat) : Int) + 0 = -53 := rfl
    simp only [UnpackedFloat.mul, Binary64.mantissaBits_binary64, Nat.shiftLeft_eq, hmantissa,
      hexponent, Binary64.positive_mul]
    exact Binary64.roundWithAccuracy_exact (.inl hbits) hcanonical (hvalue.symm ▸ h)
  · have hplaces : (- -(places : Int)).toNat = places := by omega
    have hvalue : (n * 2 ^ (0 : Int) / ((10 ^ places : Nat) * 2 ^ (0 : Int)) : ℚ) =
        n / 10 ^ places := by
      push_cast
      rw [mul_one, mul_one]
    simp only [hplaces]
    exact Binary64.div_eq hcanonical (hvalue.symm ▸ h)

/-- A natural number with a point some places from its end is read as the double that it is
nearest to. -/
theorem ofScientific_eq {n places mantissa : Nat} {exponent : Int}
    (hcanonical : Canonical mantissa exponent)
    (h : Nearest mantissa exponent (n / 10 ^ places : ℚ)) :
    Float.ofScientific n (decide (0 < places)) places =
      .ofModel (.pack (.finite .positive mantissa exponent hcanonical.pos)) := by
  rw [Float.ofScientific]
  split
  · next hfast =>
    obtain ⟨hlt, hplaces⟩ := hfast
    simp only [decide_eq_true_eq]
    exact short_eq hcanonical h hlt (Nat.lt_succ_of_le hplaces)
  · have hexponent :
        (if decide (0 < places) = true then Int.negOfNat places else Int.ofNat places) =
          -places := by
      split
      · exact Int.negOfNat_eq
      · next hpoint =>
        obtain rfl : places = 0 := by simpa using hpoint
        rfl
    simp only [hexponent, Float.Model.ofScientific, long_eq hcanonical h]

/-- A decimal without an exponent has the double that it is nearest to. -/
theorem toFloat_eq {x : Float} {mantissa : Nat} {exponent : Int} {hpos : 0 < mantissa}
    (hx : x.toModel.unpack = .finite .positive mantissa exponent hpos) {n places : Nat}
    (h : Nearest mantissa exponent (n / 10 ^ places : ℚ)) :
    toFloat ⟨false, n, -places⟩ = x := by
  have hsign : decide ((-places : Int) < 0) = decide (0 < places) := by
    rw [decide_eq_decide]
    omega
  have hplaces : (-places : Int).natAbs = places := by omega
  have hread := ofScientific_eq (Binary64.canonical_of_unpack hx) h
  rw [← hx, Binary64.pack_unpack] at hread
  simp only [toFloat, hsign, hplaces, hread, Bool.false_eq_true, if_false]

end Calculator.Decimal
