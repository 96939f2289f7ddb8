import Mathlib.Tactic.FieldSimp
import Mathlib.Tactic.Linarith
import Mathlib.Tactic.Ring
import Mathlib.Algebra.Order.Field.Rat
import Mathlib.Algebra.Order.Field.Power
import Calculator.Decimal.Shortest
import Calculator.Proofs.Binary64.Unpacked

/-!
# Rounding to doubles

A quotient is rounded from its whole part and two further bits. These bits tell enough: whatever
the scale it was computed at, a quotient that lies in the interval of a double is rounded to it.
-/

namespace Calculator.Binary64

open Float.Model (UnpackedFloat Format)
open Float.Model.UnpackedFloat

/-- The whole part of a fraction with the bits that say how its rest compares with one half. -/
def ofFraction (num den : Nat) : ExtendedMantissa :=
  ⟨num / den, decide (den ≤ 2 * (num % den)), decide (num % den ≠ 0 ∧ 2 * (num % den) ≠ den)⟩

/-- The mantissa and the accuracy of a quotient are those of the fraction. -/
theorem ofMantissaAndAccuracy_fraction {num den : Nat} (hden : 0 < den) :
    ExtendedMantissa.ofMantissaAndAccuracy (num / den) (accuracyOfFraction (num % den) den) =
      ofFraction num den := by
  unfold accuracyOfFraction ofFraction
  by_cases hzero : num % den = 0
  · have hne : den ≠ 0 := by omega
    simp [hzero, hne, ExtendedMantissa.ofMantissaAndAccuracy]
  · rw [if_neg hzero]
    obtain hlt | heq | hgt := Nat.lt_trichotomy (2 * (num % den)) den
    · have hbits : ¬ den ≤ 2 * (num % den) ∧ 2 * (num % den) ≠ den := by omega
      simp [Nat.compare_eq_lt.2 hlt, ExtendedMantissa.ofMantissaAndAccuracy, hzero, hbits]
    · simp [heq, ExtendedMantissa.ofMantissaAndAccuracy]
    · have hbits : den ≤ 2 * (num % den) ∧ 2 * (num % den) ≠ den := by omega
      simp [Nat.compare_eq_gt.2 hgt, ExtendedMantissa.ofMantissaAndAccuracy, hzero, hbits]

/-- Shifting by one place halves the fraction. -/
theorem shiftRightOne_ofFraction {num den : Nat} (hden : 0 < den) :
    (ofFraction num den).shiftRightOne = ofFraction num (den * 2) := by
  have hrest : num % (den * 2) = num % den + den * (num / den % 2) := Nat.mod_mul
  have hlt := Nat.mod_lt num hden
  have hround : (num / den % 2 != 0) = decide (den * 2 ≤ 2 * (num % (den * 2))) := by
    rw [hrest, Bool.eq_iff_iff]
    obtain hbit | hbit := Nat.mod_two_eq_zero_or_one (num / den) <;> simp [hbit] <;> omega
  have hsticky : (decide (den ≤ 2 * (num % den)) ||
      decide (num % den ≠ 0 ∧ 2 * (num % den) ≠ den)) =
        decide (num % (den * 2) ≠ 0 ∧ 2 * (num % (den * 2)) ≠ den * 2) := by
    rw [hrest, Bool.eq_iff_iff, Bool.or_eq_true, decide_eq_true_iff, decide_eq_true_iff,
      decide_eq_true_iff]
    obtain hbit | hbit := Nat.mod_two_eq_zero_or_one (num / den) <;> rw [hbit] <;> omega
  rw [ofFraction, ofFraction, ExtendedMantissa.shiftRightOne, Nat.div_div_eq_div_mul, hround,
    hsticky]

/-- Shifting by some places divides the fraction by that power of two. -/
theorem shiftRight_ofFraction {num den : Nat} (hden : 0 < den) (places : Nat) :
    ofFraction num den >>> places = ofFraction num (den * 2 ^ places) := by
  change places.repeat ExtendedMantissa.shiftRightOne (ofFraction num den) = _
  induction places with
  | zero => rw [Nat.pow_zero, Nat.mul_one, Nat.repeat]
  | succ places ih =>
    rw [Nat.repeat, ih, shiftRightOne_ofFraction (by positivity), Nat.mul_assoc, Nat.pow_succ]

/-- A fraction lies at most half a unit from a natural number, and less than that from an odd
one. -/
structure RoundsTo (num den n : Nat) : Prop where
  lower : 2 * (n * den) ≤ 2 * num + den
  upper : 2 * num ≤ 2 * (n * den) + den
  odd : n % 2 = 1 → 2 * (n * den) < 2 * num + den ∧ 2 * num < 2 * (n * den) + den

/-- A fraction is rounded to the number it lies at most half a unit from. -/
theorem roundedMantissa_ofFraction {num den n : Nat} (hden : 0 < den) (h : RoundsTo num den n) :
    (ofFraction num den).roundedMantissa = n := by
  obtain ⟨hlower, hupper, hodd⟩ := h
  have hnum := Nat.div_add_mod' num den
  have hrest := Nat.mod_lt num hden
  unfold ofFraction ExtendedMantissa.roundedMantissa
  generalize num / den = q at hnum
  generalize num % den = r at hnum hrest
  have hle (a b : Nat) (h : a * den < b * den + den) : a ≤ b := by
    have hlt : a * den < (b + 1) * den := by rwa [Nat.succ_mul]
    exact Nat.le_of_lt_succ (Nat.lt_of_mul_lt_mul_right hlt)
  have hsucc : (q + 1) * den = q * den + den := Nat.succ_mul q den
  have hqn : q ≤ n := hle q n (by omega)
  have hnq : n ≤ q + 1 := hle n (q + 1) (by omega)
  by_cases hzero : r = 0
  · have heq : n ≤ q := hle n q (by omega)
    have hbits : ¬ den = 0 := by omega
    simp [hzero, hbits, ExtendedMantissa.accuracy, Accuracy.roundToNearestEven]
    omega
  obtain hlt | htie | hgt := Nat.lt_trichotomy (2 * r) den
  · have heq : n ≤ q := hle n q (by omega)
    have hbits : ¬ den ≤ 2 * r ∧ 2 * r ≠ den := by omega
    simp [hzero, hbits, ExtendedMantissa.accuracy, Accuracy.roundToNearestEven]
    omega
  · simp [htie, ExtendedMantissa.accuracy, Accuracy.roundToNearestEven]
    -- At the midpoint the odd one of the two neighbours is excluded.
    obtain rfl | rfl : n = q ∨ n = q + 1 := by omega
    · by_contra hne
      have hlt := (hodd (by omega)).2
      omega
    · by_contra hne
      have hlt := (hodd (by omega)).1
      omega
  · have heq : q + 1 ≤ n := hle (q + 1) n (by omega)
    have hbits : den ≤ 2 * r ∧ 2 * r ≠ den := by omega
    simp [hzero, hbits, ExtendedMantissa.accuracy, Accuracy.roundToNearestEven]
    omega

/-- The exponent that a number is rounded at: its mantissa gets fifty-three bits, unless the
exponent is the least one. -/
theorem targetExponent_eq (mantissa : Nat) (exponent : Int) :
    Format.binary64.targetExponent (Float.Model.totalExponent mantissa exponent) =
      max ((mantissa.log2 : Int) + exponent - 52) (-1074) := by
  have hleast : Format.binary64.minExponent = -1074 := rfl
  rw [Format.targetExponent, Float.Model.totalExponent, mantissaBits_binary64, hleast]
  omega

/-- A canonical number stays as it is when it is moved to its exponent. -/
theorem Canonical.shiftToTargetExponent {mantissa : Nat} {exponent : Int}
    (h : Canonical mantissa exponent) :
    shiftToTargetExponent .binary64 mantissa exponent .exact =
      (⟨mantissa, false, false⟩, exponent) := by
  have htarget : max ((mantissa.log2 : Int) + exponent - 52) (-1074) = exponent := by
    have hlt : mantissa.log2 < 53 := (Nat.log2_lt h.pos.ne').2 h.lt
    have hle := h.le_exponent
    obtain hfull | hleast := h.full_or_least
    · have hlog : 52 ≤ mantissa.log2 := (Nat.le_log2 h.pos.ne').2 hfull
      omega
    · omega
  rw [UnpackedFloat.shiftToTargetExponent, targetExponent_eq, htarget, shiftToExponent,
    Int.sub_self]
  change (_, exponent + 0) = _
  rw [Int.add_zero]
  rfl

/-- A mantissa that rounding carried to fifty-four bits is halved. -/
theorem shiftToTargetExponent_carry {exponent : Int} (h : -1074 ≤ exponent) :
    shiftToTargetExponent .binary64 (2 ^ 53) exponent .exact =
      (⟨2 ^ 52, false, false⟩, exponent + 1) := by
  have htarget : max (((2 ^ 53 : Nat).log2 : Int) + exponent - 52) (-1074) = exponent + 1 := by
    have hlog : (2 ^ 53 : Nat).log2 = 53 := by decide
    omega
  have hplaces : exponent + 1 - exponent = 1 := by omega
  rw [UnpackedFloat.shiftToTargetExponent, targetExponent_eq, htarget, shiftToExponent, hplaces]
  rfl

/-- The numbers that are rounded to a double: those at most half-way to its neighbours, where the
midpoints belong to it if its mantissa is even. -/
structure Nearest (mantissa : Nat) (exponent : Int) (v : ℚ) : Prop where
  lower : (4 * mantissa - Decimal.lowerGap mantissa exponent : ℚ) * 2 ^ (exponent - 2) ≤ v
  upper : v ≤ (4 * mantissa + 2 : ℚ) * 2 ^ (exponent - 2)
  odd : mantissa % 2 = 1 →
    (4 * mantissa - Decimal.lowerGap mantissa exponent : ℚ) * 2 ^ (exponent - 2) < v ∧
      v < (4 * mantissa + 2 : ℚ) * 2 ^ (exponent - 2)

/-- The distance down to the midpoint is at most half a unit, and a quarter at the power of two. -/
theorem lowerGap_le (mantissa : Nat) (exponent : Int) :
    (Decimal.lowerGap mantissa exponent : ℚ) ≤ 2 := by
  unfold Decimal.lowerGap
  split <;> norm_num

/-- The midpoint below a double lies below it. -/
theorem lowerGap_pos (mantissa : Nat) (exponent : Int) :
    (0 : ℚ) < Decimal.lowerGap mantissa exponent := by
  unfold Decimal.lowerGap
  split <;> norm_num

/-- The lower end of the interval of a double is above zero. -/
theorem lower_pos {mantissa : Nat} (exponent : Int) (hpos : 0 < mantissa) :
    (1 : ℚ) ≤ 4 * mantissa - Decimal.lowerGap mantissa exponent := by
  have hgap := lowerGap_le mantissa exponent
  have hcast : (1 : ℚ) ≤ mantissa := Nat.one_le_cast.2 hpos
  linarith

/-- Powers of two grow with their exponent. -/
theorem two_zpow_le {a b : Int} (h : a ≤ b) : (2 : ℚ) ^ a ≤ 2 ^ b :=
  zpow_le_zpow_right₀ (by norm_num) h

/-- A power of two in units of a smaller one. -/
theorem two_zpow_eq {a b : Int} {places : Nat} (h : a = b + places) :
    (2 : ℚ) ^ a = 2 ^ places * 2 ^ b := by
  rw [h, Int.add_comm, zpow_add₀ (by norm_num), zpow_natCast]

/-- A power of two in quarters, the units of the midpoints. -/
theorem two_zpow_eq_quarters (exponent : Int) :
    (2 : ℚ) ^ exponent = 2 ^ 2 * 2 ^ (exponent - 2) :=
  two_zpow_eq (by omega)

/-- A power with a whole exponent as a quotient of two natural powers. -/
theorem zpow_eq_div (base : ℚ) (exponent : Int) :
    base ^ exponent = base ^ exponent.toNat / base ^ (-exponent).toNat := by
  obtain hle | hlt := Int.le_total 0 exponent
  · obtain ⟨n, rfl⟩ := Int.eq_ofNat_of_zero_le hle
    simp
  · obtain ⟨n, hn⟩ := Int.eq_ofNat_of_zero_le (Int.neg_nonneg.2 hlt)
    obtain rfl : exponent = -n := by omega
    simp

/-- What a double is nearest to lies below the next power of two that no mantissa reaches. -/
theorem Nearest.lt_zpow {mantissa : Nat} {exponent : Int} {v : ℚ}
    (h : Nearest mantissa exponent v) (hcanonical : Canonical mantissa exponent) :
    v < 2 ^ (exponent + 53) := by
  have hunit : (0 : ℚ) < 2 ^ (exponent - 2) := by positivity
  have hpow : (2 : ℚ) ^ (exponent + 53) = 2 ^ 55 * 2 ^ (exponent - 2) := two_zpow_eq (by omega)
  have hmantissa : (mantissa : ℚ) ≤ 2 ^ 53 - 1 := by
    have hlt : mantissa + 1 ≤ 2 ^ 53 := hcanonical.lt
    have hcast : ((mantissa + 1 : Nat) : ℚ) ≤ (2 ^ 53 : Nat) := Nat.cast_le.2 hlt
    push_cast at hcast
    linarith
  have hlt : (4 * mantissa + 2 : ℚ) * 2 ^ (exponent - 2) < 2 ^ 55 * 2 ^ (exponent - 2) := by
    apply mul_lt_mul_of_pos_right _ hunit
    linarith
  rw [hpow]
  exact h.upper.trans_lt hlt

/-- A double with a full mantissa is nearest to a number below its power of two only if it is this
power. -/
theorem Nearest.eq_of_lt_zpow {mantissa : Nat} {exponent : Int} {v : ℚ}
    (h : Nearest mantissa exponent v) (hfull : 2 ^ 52 ≤ mantissa)
    (hlt : v < 2 ^ (exponent + 52)) : mantissa = 2 ^ 52 := by
  have hunit : (0 : ℚ) < 2 ^ (exponent - 2) := by positivity
  have hpow : (2 : ℚ) ^ (exponent + 52) = 2 ^ 54 * 2 ^ (exponent - 2) := two_zpow_eq (by omega)
  have hscaled : (4 * mantissa - Decimal.lowerGap mantissa exponent : ℚ) < 2 ^ 54 := by
    rw [hpow] at hlt
    exact lt_of_mul_lt_mul_right (h.lower.trans_lt hlt) hunit.le
  have hgap := lowerGap_le mantissa exponent
  have hnext : (mantissa : ℚ) < (2 ^ 52 + 1 : Nat) := by
    push_cast
    linarith
  have hnat : mantissa < 2 ^ 52 + 1 := Nat.cast_lt.1 hnext
  omega

/-- What a power of two is nearest to is no less than half of it. -/
theorem Nearest.zpow_le {mantissa : Nat} {exponent : Int} {v : ℚ}
    (h : Nearest mantissa exponent v) (hpower : mantissa = 2 ^ 52) : 2 ^ (exponent + 51) ≤ v := by
  have hunit : (0 : ℚ) < 2 ^ (exponent - 2) := by positivity
  have hpow : (2 : ℚ) ^ (exponent + 51) = 2 ^ 53 * 2 ^ (exponent - 2) := two_zpow_eq (by omega)
  have hgap := lowerGap_le mantissa exponent
  have hle : (2 ^ 53 : ℚ) ≤ 4 * mantissa - Decimal.lowerGap mantissa exponent := by
    have hcast : (mantissa : ℚ) = 2 ^ 52 := by rw [hpower, Nat.cast_pow, Nat.cast_ofNat]
    linarith
  rw [hpow]
  exact (mul_le_mul_of_nonneg_right hle hunit.le).trans h.lower

/-- The exponent that a quotient is rounded at is the one of the double it is nearest to, or the
one below if it lies below a power of two. -/
theorem Nearest.exponent_cases {mantissa : Nat} {exponent : Int} {v : ℚ}
    (hcanonical : Canonical mantissa exponent) (h : Nearest mantissa exponent v) {target : Int}
    (hle : -1074 ≤ target) (hupper : v < 2 ^ (target + 53))
    (hlower : target = -1074 ∨ 2 ^ (target + 52) ≤ v) :
    target = exponent ∨ target = exponent - 1 ∧ mantissa = 2 ^ 52 ∧ -1074 < exponent ∧
      v < 2 ^ (exponent + 52) := by
  have hleast := hcanonical.le_exponent
  have hnot : target ≤ exponent := by
    by_contra hgt
    have hpow : (2 : ℚ) ^ (exponent + 53) ≤ 2 ^ (target + 52) := two_zpow_le (by omega)
    obtain heq | hlower := hlower
    · omega
    · exact absurd (h.lt_zpow hcanonical) (not_lt.2 (hpow.trans hlower))
  by_cases heq : target = exponent
  · exact .inl heq
  have hfull : 2 ^ 52 ≤ mantissa := hcanonical.full_or_least.resolve_right (by omega)
  have hpow : (2 : ℚ) ^ (target + 53) ≤ 2 ^ (exponent + 52) := two_zpow_le (by omega)
  have hbelow : v < 2 ^ (exponent + 52) := hupper.trans_le hpow
  have hpower := h.eq_of_lt_zpow hfull hbelow
  refine .inr ⟨?_, hpower, by omega, hbelow⟩
  by_contra hne
  have hpow' : (2 : ℚ) ^ (target + 53) ≤ 2 ^ (exponent + 51) := two_zpow_le (by omega)
  exact absurd hupper (not_lt.2 (hpow'.trans (h.zpow_le hpower)))

/-- The value of a fraction in units of a power of two. -/
theorem fraction_mul_zpow {num den : Nat} {exponent target : Int} (hle : exponent ≤ target) :
    (num / den : ℚ) * 2 ^ exponent =
      num / (den * 2 ^ (target - exponent).toNat : Nat) * 2 ^ target := by
  have hpow : (2 : ℚ) ^ target = 2 ^ (target - exponent).toNat * 2 ^ exponent :=
    two_zpow_eq (by omega)
  have hne : (2 : ℚ) ^ (target - exponent).toNat ≠ 0 := by positivity
  rw [hpow]
  push_cast
  field_simp

/-- A fraction rounds to a natural number that is at most half a unit away. -/
theorem RoundsTo.of_rat {num den n : Nat} (hden : 0 < den)
    (hlower : 2 * n - 1 ≤ 2 * (num / den : ℚ))
    (hupper : 2 * (num / den : ℚ) ≤ 2 * n + 1)
    (hodd : n % 2 = 1 → 2 * n - 1 < 2 * (num / den : ℚ) ∧ 2 * (num / den : ℚ) < 2 * n + 1) :
    RoundsTo num den n := by
  have hpos : (0 : ℚ) < den := Nat.cast_pos.2 hden
  have hnum : (num / den : ℚ) * den = num := div_mul_cancel₀ _ hpos.ne'
  constructor
  · apply (Nat.cast_le (α := ℚ)).1
    push_cast
    nlinarith
  · apply (Nat.cast_le (α := ℚ)).1
    push_cast
    nlinarith
  · intro hmod
    obtain ⟨hlower, hupper⟩ := hodd hmod
    constructor
    · apply (Nat.cast_lt (α := ℚ)).1
      push_cast
      nlinarith
    · apply (Nat.cast_lt (α := ℚ)).1
      push_cast
      nlinarith

/-- The exponent that a quotient computed with enough bits is rounded at. -/
structure RoundedAt (num den : Nat) (exponent target : Int) : Prop where
  eq_max : max (((num / den).log2 : Int) + exponent - 52) (-1074) = target
  exponent_le : exponent ≤ target
  lt : (num / den : ℚ) * 2 ^ exponent < 2 ^ (target + 53)
  least_or_le : target = -1074 ∨ 2 ^ (target + 52) ≤ (num / den : ℚ) * 2 ^ exponent

/-- At its exponent a quotient has fifty-three bits, unless the exponent is the least one. -/
theorem exists_roundedAt {num den : Nat} {exponent : Int} (hden : 0 < den)
    (hbits : 2 ^ 52 * den ≤ num ∨ exponent ≤ -1074) :
    ∃ target, RoundedAt num den exponent target := by
  have hunit : (0 : ℚ) < 2 ^ exponent := by positivity
  have hpos : (0 : ℚ) < den := Nat.cast_pos.2 hden
  refine ⟨_, rfl, ?_, ?_, ?_⟩
  · obtain hbits | hleast := hbits
    · have hle : 2 ^ 52 ≤ num / den := (Nat.le_div_iff_mul_le hden).2 hbits
      have hlog : 52 ≤ (num / den).log2 := (Nat.le_log2 (by omega)).2 hle
      omega
    · omega
  · have hwhole : (num / den : ℚ) < 2 ^ ((num / den).log2 + 1) := by
      have hlt : num < 2 ^ ((num / den).log2 + 1) * den :=
        (Nat.div_lt_iff_lt_mul hden).1 Nat.lt_log2_self
      rw [div_lt_iff₀ hpos]
      exact_mod_cast hlt
    have hscaled : (num / den : ℚ) * 2 ^ exponent < 2 ^ ((num / den).log2 + 1) * 2 ^ exponent :=
      mul_lt_mul_of_pos_right hwhole hunit
    rw [← two_zpow_eq (a := ((num / den).log2 + 1 : Nat) + exponent) (by omega)] at hscaled
    exact hscaled.trans_le (two_zpow_le (by push_cast; omega))
  · by_cases hleast : max (((num / den).log2 : Int) + exponent - 52) (-1074) = -1074
    · exact .inl hleast
    · right
      have hne : num / den ≠ 0 := by
        intro hzero
        have hlt : num < den := (Nat.div_eq_zero_iff_lt hden).1 hzero
        have hlog : (num / den).log2 = 0 := by rw [hzero]; rfl
        omega
      have hwhole : (2 : ℚ) ^ (num / den).log2 ≤ num / den := by
        have hle : 2 ^ (num / den).log2 * den ≤ num :=
          (Nat.le_div_iff_mul_le hden).1 (Nat.log2_self_le hne)
        rw [le_div_iff₀ hpos]
        exact_mod_cast hle
      have hscaled : 2 ^ (num / den).log2 * 2 ^ exponent ≤ (num / den : ℚ) * 2 ^ exponent :=
        mul_le_mul_of_nonneg_right hwhole hunit.le
      rw [← two_zpow_eq (a := ((num / den).log2 : Nat) + exponent) (by omega)] at hscaled
      exact (two_zpow_le (by omega)).trans hscaled

/-- At the exponent of the double it is nearest to, a fraction rounds to its mantissa. -/
theorem Nearest.roundsTo {num den mantissa : Nat} {exponent : Int} (hden : 0 < den)
    (h : Nearest mantissa exponent ((num / den : ℚ) * 2 ^ exponent)) :
    RoundsTo num den mantissa := by
  have hgap := lowerGap_le mantissa exponent
  have hunit : (0 : ℚ) < 2 ^ (exponent - 2) := by positivity
  have hscale : (num / den : ℚ) * 2 ^ exponent = 4 * (num / den) * 2 ^ (exponent - 2) := by
    rw [two_zpow_eq_quarters]
    ring
  obtain ⟨hlower, hupper, hodd⟩ := h
  rw [hscale] at hlower hupper hodd
  have hlow := le_of_mul_le_mul_right hlower hunit
  have hhigh := le_of_mul_le_mul_right hupper hunit
  refine .of_rat hden (by linarith) (by linarith) fun hmod => ?_
  obtain ⟨hlower, hupper⟩ := hodd hmod
  have hlow := lt_of_mul_lt_mul_right hlower hunit.le
  have hhigh := lt_of_mul_lt_mul_right hupper hunit.le
  exact ⟨by linarith, by linarith⟩

/-- A fraction that lies below the power of two it is nearest to is rounded up to it at the
exponent below. -/
theorem Nearest.roundsTo_carry {num den : Nat} {exponent : Int} (hden : 0 < den)
    (hleast : -1074 < exponent)
    (h : Nearest (2 ^ 52) exponent ((num / den : ℚ) * 2 ^ (exponent - 1)))
    (hbelow : (num / den : ℚ) * 2 ^ (exponent - 1) < 2 ^ (exponent + 52)) :
    RoundsTo num den (2 ^ 53) := by
  have hunit : (0 : ℚ) < 2 ^ (exponent - 2) := by positivity
  have hscale : (num / den : ℚ) * 2 ^ (exponent - 1) = 2 * (num / den) * 2 ^ (exponent - 2) := by
    have hpow : (2 : ℚ) ^ (exponent - 1) = 2 ^ 1 * 2 ^ (exponent - 2) := two_zpow_eq (by omega)
    rw [hpow]
    ring
  have hpow : (2 : ℚ) ^ (exponent + 52) = 2 ^ 54 * 2 ^ (exponent - 2) := two_zpow_eq (by omega)
  have hgap : Decimal.lowerGap (2 ^ 52) exponent = 1 := by
    rw [Decimal.lowerGap]
    exact if_pos ⟨rfl, hleast⟩
  have hlower := h.lower
  rw [hscale, hgap] at hlower
  rw [hscale, hpow] at hbelow
  have hlow := le_of_mul_le_mul_right hlower hunit
  have hhigh := lt_of_mul_lt_mul_right hbelow hunit.le
  push_cast at hlow
  refine .of_rat hden ?_ ?_ fun hmod => absurd hmod (by decide)
  · push_cast
    linarith
  · push_cast
    linarith

/-- A quotient that is computed with enough bits is rounded to the double that it is nearest to. -/
theorem roundWithAccuracy_eq {num den mantissa : Nat} {exponent exponent' : Int} {sign : Sign}
    (hden : 0 < den) (hbits : 2 ^ 52 * den ≤ num ∨ exponent' ≤ -1074)
    (hcanonical : Canonical mantissa exponent)
    (h : Nearest mantissa exponent ((num / den : ℚ) * 2 ^ exponent')) :
    roundWithAccuracy .binary64 sign (num / den) exponent' (accuracyOfFraction (num % den) den) =
      .finite sign mantissa exponent hcanonical.pos := by
  obtain ⟨target, hmax, hle, hlt, hleast⟩ := exists_roundedAt hden hbits
  have hshifted : 0 < den * 2 ^ (target - exponent').toNat := by positivity
  have hshift : shiftToTargetExponent .binary64 (num / den) exponent'
      (accuracyOfFraction (num % den) den) =
        (ofFraction num (den * 2 ^ (target - exponent').toNat), target) := by
    have hsum : exponent' + ((target - exponent').toNat : Int) = target := by omega
    rw [UnpackedFloat.shiftToTargetExponent, targetExponent_eq, hmax, shiftToExponent,
      ofMantissaAndAccuracy_fraction hden, shiftRight_ofFraction hden, hsum]
  have hvalue := @fraction_mul_zpow num den _ _ hle
  have hleast' : -1074 ≤ target := by omega
  have hcases := h.exponent_cases hcanonical hleast' hlt hleast
  rw [hvalue] at h hcases
  rw [roundWithAccuracy, hshift]
  generalize hD : den * 2 ^ (target - exponent').toNat = scaled at *
  obtain rfl | ⟨rfl, rfl, hgt, hbelow⟩ := hcases
  · have hrounds : RoundsTo num scaled mantissa := h.roundsTo hshifted
    simp only [roundedMantissa_ofFraction hshifted hrounds, hcanonical.shiftToTargetExponent]
    exact dif_neg hcanonical.pos.ne'
  · have hrounds : RoundsTo num scaled (2 ^ 53) := h.roundsTo_carry hshifted hgt hbelow
    simp only [roundedMantissa_ofFraction hshifted hrounds, shiftToTargetExponent_carry hleast',
      Int.sub_add_cancel]
    exact dif_neg hcanonical.pos.ne'

/-- A number that is given with enough bits is rounded to the double that it is nearest to. -/
theorem roundWithAccuracy_exact {n mantissa : Nat} {exponent exponent' : Int} {sign : Sign}
    (hbits : 2 ^ 52 ≤ n ∨ exponent' ≤ -1074) (hcanonical : Canonical mantissa exponent)
    (h : Nearest mantissa exponent ((n : ℚ) * 2 ^ exponent')) :
    roundWithAccuracy .binary64 sign n exponent' .exact =
      .finite sign mantissa exponent hcanonical.pos := by
  have hvalue : (n / (1 : Nat) : ℚ) = n := by rw [Nat.cast_one, div_one]
  have hround := @roundWithAccuracy_eq n 1 mantissa exponent exponent' sign Nat.one_pos
    (by rwa [Nat.mul_one]) hcanonical (by rwa [hvalue])
  rwa [Nat.div_one, Nat.mod_one] at hround

/-- A number of any length is rounded to the double that it is nearest to. -/
theorem round_eq {n mantissa : Nat} {exponent exponent' : Int} {sign : Sign} (hn : n ≠ 0)
    (hcanonical : Canonical mantissa exponent)
    (h : Nearest mantissa exponent ((n : ℚ) * 2 ^ exponent')) :
    UnpackedFloat.round .binary64 sign n exponent' =
      .finite sign mantissa exponent hcanonical.pos := by
  simp only [UnpackedFloat.round, decreaseExponent, targetExponent_eq]
  rw [Nat.shiftLeft_eq]
  generalize hplaces :
    (exponent' - max ((n.log2 : Int) + exponent' - 52) (-1074)).toNat = places
  have hvalue : ((n * 2 ^ places : Nat) : ℚ) * 2 ^ (exponent' - places) = n * 2 ^ exponent' := by
    have hpow : (2 : ℚ) ^ exponent' = 2 ^ places * 2 ^ (exponent' - places) :=
      two_zpow_eq (by omega)
    rw [hpow]
    push_cast
    rw [mul_assoc]
  have hbits : 2 ^ 52 ≤ n * 2 ^ places ∨ exponent' - places ≤ -1074 := by
    by_cases hleast : exponent' - places ≤ -1074
    · exact .inr hleast
    · left
      calc 2 ^ 52 ≤ 2 ^ (n.log2 + places) := Nat.pow_le_pow_right (by decide) (by omega)
        _ = 2 ^ n.log2 * 2 ^ places := Nat.pow_add _ _ _
        _ ≤ n * 2 ^ places := Nat.mul_le_mul_right _ (Nat.log2_self_le hn)
  exact roundWithAccuracy_exact hbits hcanonical (hvalue.symm ▸ h)

/-- A number is nearest to its own double. -/
theorem nearest_self (mantissa : Nat) (exponent : Int) :
    Nearest mantissa exponent ((mantissa : ℚ) * 2 ^ exponent) := by
  have hunit : (0 : ℚ) < 2 ^ (exponent - 2) := by positivity
  have hbelow := mul_pos (lowerGap_pos mantissa exponent) hunit
  rw [two_zpow_eq_quarters]
  constructor
  · linarith
  · linarith
  · intro
    constructor <;> linarith

/-- The quotient of two numbers is rounded to the double that it is nearest to. -/
theorem div_eq {m m' mantissa : Nat} {e e' exponent : Int} {hm : 0 < m} {hm' : 0 < m'}
    (hcanonical : Canonical mantissa exponent)
    (h : Nearest mantissa exponent ((m * 2 ^ e) / (m' * 2 ^ e') : ℚ)) :
    UnpackedFloat.div .binary64 (.finite .positive m e hm) (.finite .positive m' e' hm') =
      .finite .positive mantissa exponent hcanonical.pos := by
  have hleast : Format.binary64.minExponent = -1074 := rfl
  rw [UnpackedFloat.div]
  simp only [divCore, Format.targetExponent, Float.Model.totalExponent, mantissaBits_binary64,
    hleast]
  generalize ht : min (e - e') (max ((m.log2 + 1 + e) - (m'.log2 + 1 + e') - (53 : Nat)) (-1074)) =
    target
  rw [Nat.shiftLeft_eq]
  have hvalue : ((m * 2 ^ (e - e' - target).toNat : Nat) / m' : ℚ) * 2 ^ target =
      (m * 2 ^ e) / (m' * 2 ^ e') := by
    have hpow : (2 : ℚ) ^ e = 2 ^ (e - e' - target).toNat * 2 ^ (e' + target) :=
      two_zpow_eq (by omega)
    rw [hpow, zpow_add₀ (by norm_num)]
    push_cast
    field_simp
  have hbits : 2 ^ 52 * m' ≤ m * 2 ^ (e - e' - target).toNat ∨ target ≤ -1074 := by
    by_cases hle : target ≤ -1074
    · exact .inr hle
    · left
      have hshift : m'.log2 + 53 ≤ m.log2 + (e - e' - target).toNat := by omega
      calc 2 ^ 52 * m' ≤ 2 ^ 52 * 2 ^ (m'.log2 + 1) :=
            Nat.mul_le_mul_left _ (Nat.le_of_lt Nat.lt_log2_self)
        _ = 2 ^ (m'.log2 + 53) := by rw [← Nat.pow_add]; congr 1; omega
        _ ≤ 2 ^ (m.log2 + (e - e' - target).toNat) := Nat.pow_le_pow_right (by decide) hshift
        _ = 2 ^ m.log2 * 2 ^ (e - e' - target).toNat := Nat.pow_add _ _ _
        _ ≤ m * 2 ^ (e - e' - target).toNat :=
            Nat.mul_le_mul_right _ (Nat.log2_self_le hm.ne')
  exact roundWithAccuracy_eq hm' hbits hcanonical (hvalue ▸ h)

end Calculator.Binary64
