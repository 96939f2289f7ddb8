import Calculator.Proofs.Binary64.Sign
import Calculator.Proofs.Decimal.Rounding

/-!
# Decimals that are zero or more

A decimal without a sign is read as a double that is zero or more. It may be too large for a finite
double, and is infinite then, but it is never undefined.
-/

namespace Calculator

open Float.Model (UnpackedFloat Format)
open Float.Model.UnpackedFloat

namespace Binary64

/-- A double that is defined and has no minus sign is zero or more. -/
theorem zero_le_of_isNegative {x : Float} (hsign : isNegative x = false)
    (hdefined : x.isNaN = false) : 0 ≤ x := by
  have hunsigned := isNegative_eq_false_iff.1 hsign
  have hunpack : x.toModel.unpack.isNaN = false := hdefined
  have hzero : (0 : Float).toModel.unpack = .zero .positive := rfl
  have hle : (UnpackedFloat.zero .positive).le x.toModel.unpack = true := by
    cases hx : x.toModel.unpack with
    | notANumber =>
      rw [hx] at hunpack
      cases hunpack
    | infinity sign | zero sign | finite sign =>
      rw [hx] at hunsigned
      obtain rfl : sign = .positive := hunsigned
      rfl
  rw [← hzero] at hle
  exact decide_eq_true hle

/-- Packing a number that is defined gives a double that is defined. -/
theorem isNaN_pack {u : UnpackedFloat} (h : u.isNaN = false) :
    (Float.ofModel (.pack u)).isNaN = false := by
  have hparts (sign : Sign) {exponent : BitVec 11} {mantissa : BitVec 52}
      (h : exponent ≠ -1#11 ∨ mantissa = 0#52) :
      (UnpackedFloat.unpack .binary64
        (packComponents .binary64 sign exponent mantissa)).isNaN = false := by
    rw [unpack_packComponents, ofParts]
    split
    · next hmax =>
      rw [if_pos (h.resolve_left fun hne => hne hmax)]
      rfl
    · split
      · split <;> rfl
      · rfl
  change (UnpackedFloat.unpack .binary64 (UnpackedFloat.pack .binary64 u)).isNaN = false
  cases u with
  | notANumber => cases h
  | infinity sign => exact hparts sign (.inr rfl)
  | zero sign => exact hparts sign (.inr rfl)
  | finite sign mantissa exponent hpos =>
    rw [UnpackedFloat.pack]
    simp only
    split
    · exact hparts sign (.inr rfl)
    · next hroom =>
      split
      · refine hparts sign (.inl fun hmax => ?_)
        have hlt := Nat.lt_of_not_le hroom
        have hbiased := congrArg BitVec.toNat hmax
        change _ < 2 ^ 11 at hlt
        rw [BitVec.toNat_ofNat, Nat.mod_eq_of_lt (Nat.lt_of_succ_lt hlt)] at hbiased
        exact absurd hlt (hbiased ▸ by decide)
      · exact hparts sign (.inl (by decide))

/-- Rounding gives a number that is defined. -/
theorem isNaN_roundWithAccuracy (sign : Sign) (mantissa : Nat) (exponent : Int)
    (accuracy : Accuracy) :
    (roundWithAccuracy .binary64 sign mantissa exponent accuracy).isNaN = false := by
  unfold roundWithAccuracy
  simp only
  split <;> rfl

/-- A product of two finite numbers is defined. -/
theorem isNaN_mul_finite {s s' : Sign} {m m' : Nat} {e e' : Int} (hm : 0 < m) (hm' : 0 < m') :
    (UnpackedFloat.mul .binary64 (.finite s m e hm) (.finite s' m' e' hm')).isNaN = false :=
  isNaN_roundWithAccuracy _ _ _ _

/-- A quotient of two finite numbers is defined, the divisor not being zero. -/
theorem isNaN_div_finite {s s' : Sign} {m m' : Nat} {e e' : Int} (hm : 0 < m) (hm' : 0 < m') :
    (UnpackedFloat.div .binary64 (.finite s m e hm) (.finite s' m' e' hm')).isNaN = false :=
  isNaN_roundWithAccuracy _ _ _ _

/-- A decimal in scientific notation is rounded to a number that is defined. -/
theorem isNaN_ofScientific (n : Nat) (e : Int) :
    (UnpackedFloat.ofScientific .binary64 n e).isNaN = false := by
  unfold UnpackedFloat.ofScientific
  split
  · rfl
  · split
    · rfl
    · split
      · rfl
      · split
        · exact isNaN_mul_finite _ _
        · exact isNaN_div_finite _ _

end Binary64

namespace Decimal

/-- Zero multiplied with or divided by a tabulated power of ten is defined. -/
theorem isNaN_zero_powersOfTen : ∀ power ∈ Float.exactlyRepresentablePowersOfTen,
    ((0 : Nat).toUInt64.toFloat / power).isNaN = false ∧
      ((0 : Nat).toUInt64.toFloat * power).isNaN = false := by
  decide +kernel

/-- A decimal in scientific notation is read as a double that is defined. -/
theorem isNaN_ofScientific (n : Nat) (sign : Bool) (places : Nat) :
    (Float.ofScientific n sign places).isNaN = false := by
  rw [Float.ofScientific]
  split
  · next hfast =>
    obtain ⟨hlt, hplaces⟩ := hfast
    have hentry : places < Float.exactlyRepresentablePowersOfTen.size := Nat.lt_succ_of_le hplaces
    obtain rfl | hn := eq_or_ne n 0
    · obtain ⟨hdiv, hmul⟩ := isNaN_zero_powersOfTen _ (Array.getElem_mem hentry)
      simp only
      split
      · exact hdiv
      · exact hmul
    · obtain ⟨m, e, hm, hnatural, -⟩ := exists_unpack_toFloat hn hlt
      obtain ⟨m', e', hm', hpower, -⟩ := exists_unpack_powerOfTen hentry
      have hdiv (x y : Float) : x / y =
          .ofModel (.pack (UnpackedFloat.div .binary64 x.toModel.unpack y.toModel.unpack)) := rfl
      have hmul (x y : Float) : x * y =
          .ofModel (.pack (UnpackedFloat.mul .binary64 x.toModel.unpack y.toModel.unpack)) := rfl
      simp only [hdiv, hmul, hnatural, hpower]
      split
      · exact Binary64.isNaN_pack (Binary64.isNaN_div_finite hm hm')
      · exact Binary64.isNaN_pack (Binary64.isNaN_mul_finite hm hm')
  · exact Binary64.isNaN_pack (Binary64.isNaN_ofScientific _ _)

/-- A decimal without a sign is read as a double that is zero or more. -/
theorem zero_le_toFloat {d : Decimal} (h : d.negative = false) : 0 ≤ d.toFloat := by
  rw [toFloat, h]
  exact Binary64.zero_le_of_isNegative (Binary64.isNegative_ofScientific _ _ _)
    (isNaN_ofScientific _ _ _)

end Decimal

end Calculator
