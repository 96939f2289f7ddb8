import Mathlib.Algebra.Order.Floor.Ring
import Mathlib.Data.Rat.Floor
import Calculator.Proofs.Binary64.Nearest

/-!
# Remainders of doubles

The remainder of two doubles is exact: in units of which both are multiples it is that of whole
numbers, and it fits into the mantissa of one of them. The difference of two doubles is not, but it
is rounded to the double that it is nearest to.
-/

namespace Calculator.Binary64

open Float.Model (UnpackedFloat Format)
open Float.Model.UnpackedFloat

/-- The number that a finite double is. -/
def value (x : Float) : ℚ :=
  match x.toModel.unpack with
  | .finite sign mantissa exponent _ => sign.apply mantissa * 2 ^ exponent
  | _ => 0

/-- What is left of a number above the last multiple of the modulus. -/
def residue (x y : ℚ) : ℚ :=
  x - |y| * ⌊x / |y|⌋

section Residue

variable {x y : ℚ}

/-- A residue is a fraction of the modulus. -/
theorem residue_eq_mul_fract (hy : y ≠ 0) : residue x y = |y| * Int.fract (x / |y|) := by
  have hpos : |y| ≠ 0 := abs_ne_zero.2 hy
  rw [residue, Int.fract, mul_sub, mul_div_cancel₀ _ hpos]

/-- A residue lies below the modulus. -/
theorem residue_lt (hy : y ≠ 0) : residue x y < |y| := by
  rw [residue_eq_mul_fract hy]
  exact mul_lt_of_lt_one_right (abs_pos.2 hy) (Int.fract_lt_one _)

/-- A number below the modulus is its own residue. -/
theorem residue_eq_self (hx : 0 ≤ x) (hlt : x < |y|) : residue x y = x := by
  have hpos : 0 < |y| := hx.trans_lt hlt
  have hfloor : ⌊x / |y|⌋ = 0 :=
    Int.floor_eq_zero_iff.2 ⟨div_nonneg hx hpos.le, (div_lt_one hpos).2 hlt⟩
  rw [residue, hfloor, Int.cast_zero, mul_zero, sub_zero]

/-- The residue of the modulus is zero. -/
theorem residue_self (hy : y ≠ 0) : residue |y| y = 0 := by
  rw [residue, div_self (abs_ne_zero.2 hy), Int.floor_one, Int.cast_one, mul_one, sub_self]

/-- The negation of a multiple of the modulus is one. -/
theorem residue_neg_of_eq_zero (hy : y ≠ 0) (h : residue x y = 0) : residue (-x) y = 0 := by
  rw [residue_eq_mul_fract hy, mul_eq_zero, or_iff_right (abs_ne_zero.2 hy)] at h ⊢
  rwa [neg_div, Int.fract_neg_eq_zero]

/-- The residue of the negation makes up the modulus with that of the number. -/
theorem residue_neg_of_ne_zero (hy : y ≠ 0) (h : residue x y ≠ 0) :
    residue (-x) y = |y| - residue x y := by
  rw [residue_eq_mul_fract hy] at h ⊢
  rw [residue_eq_mul_fract hy, neg_div, Int.fract_neg (right_ne_zero_of_mul h), mul_sub, mul_one]

/-- In units of which both are multiples a residue is that of whole numbers. -/
theorem residue_scaled {a b : Nat} {unit : Int} (hx : x = a * 2 ^ unit)
    (hy : |y| = b * 2 ^ unit) : residue x y = (a % b : Nat) * 2 ^ unit := by
  have hunit : (2 : ℚ) ^ unit ≠ 0 := by positivity
  have hfloor : ⌊(a / b : ℚ)⌋ = (a / b : Nat) := Rat.floor_intCast_div_natCast a b
  have hsplit : (a : ℚ) = b * (a / b : Nat) + (a % b : Nat) := by
    exact_mod_cast (Nat.div_add_mod a b).symm
  rw [residue, hx, hy, mul_div_mul_right _ _ hunit, hfloor, Int.cast_natCast]
  linear_combination 2 ^ unit * hsplit

end Residue

section Remainder

variable {m m' : Nat} {e e' : Int} {x y : Float}

/-- The magnitude of a finite double. -/
theorem abs_value {sign : Sign} {hm : 0 < m} (h : x.toModel.unpack = .finite sign m e hm) :
    |value x| = m * 2 ^ e := by
  have hpos : (0 : ℚ) ≤ m * 2 ^ e := by positivity
  unfold value
  rw [h]
  cases sign with
  | positive => exact abs_of_nonneg hpos
  | negative => simp [Sign.apply, abs_of_nonneg hpos]

/-- A positive double is its magnitude. -/
theorem value_positive {hm : 0 < m} (h : x.toModel.unpack = .finite .positive m e hm) :
    value x = |value x| := by
  rw [abs_value h]
  simp [value, h, Sign.apply]

/-- A negative double is the negation of its magnitude. -/
theorem value_negative {hm : 0 < m} (h : x.toModel.unpack = .finite .negative m e hm) :
    value x = -|value x| := by
  rw [abs_value h]
  simp [value, h, Sign.apply]

/-- A finite double is not zero if its mantissa is not. -/
theorem value_ne_zero {sign : Sign} {hm : 0 < m} (h : x.toModel.unpack = .finite sign m e hm) :
    value x ≠ 0 := by
  rw [← abs_pos, abs_value h]
  positivity

/-- A double keeps its value when its exponent is decreased. -/
theorem shiftLeft_mul_zpow {unit : Int} (h : unit ≤ e) :
    (m * 2 ^ e : ℚ) = (m <<< (e - unit).toNat : Nat) * 2 ^ unit := by
  have hpow : (2 : ℚ) ^ e = 2 ^ (e - unit).toNat * 2 ^ unit := two_zpow_eq (by omega)
  rw [Nat.shiftLeft_eq, hpow]
  push_cast
  ring

/-- A remainder fits into the mantissa of one of the operands. -/
theorem shiftLeft_mod_lt (h : Canonical m e) (h' : Canonical m' e') :
    (m <<< (e - min e e').toNat) % (m' <<< (e' - min e e').toNat) < 2 ^ 53 := by
  obtain hle | hle := Int.le_total e e'
  · have hplaces : (e - min e e').toNat = 0 := by omega
    rw [hplaces, Nat.shiftLeft_zero]
    exact (Nat.mod_le _ _).trans_lt h.lt
  · have hplaces : (e' - min e e').toNat = 0 := by omega
    rw [hplaces, Nat.shiftLeft_zero]
    exact (Nat.mod_lt _ h'.pos).trans h'.lt

/-- The remainder of two doubles is the residue of the magnitudes with the sign of the dividend. -/
theorem unpack_remainder {sign sign' : Sign} {hm : 0 < m} {hm' : 0 < m'}
    (hx : x.toModel.unpack = .finite sign m e hm)
    (hy : y.toModel.unpack = .finite sign' m' e' hm') :
    (residue |value x| (value y) = 0 ∧ (remainder x y).toModel.unpack = .zero sign) ∨
      ∃ n k hn, (remainder x y).toModel.unpack = .finite sign n k hn ∧
        (n * 2 ^ k : ℚ) = residue |value x| (value y) := by
  have h := canonical_of_unpack hx
  have h' := canonical_of_unpack hy
  have hleast : -1074 ≤ min e e' := le_min h.le_exponent h'.le_exponent
  have hgreatest : min e e' ≤ 971 := (min_le_left e e').trans h.exponent_le
  have hlt := shiftLeft_mod_lt h h'
  rw [residue_scaled ((abs_value hx).trans (shiftLeft_mul_zpow (min_le_left e e')))
    ((abs_value hy).trans (shiftLeft_mul_zpow (min_le_right e e')))]
  simp only [remainder, hx, hy]
  generalize (m <<< (e - min e e').toNat) % (m' <<< (e' - min e e').toNat) = rest at hlt
  generalize min e e' = unit at hleast hgreatest
  obtain rfl | hrest := Nat.eq_zero_or_pos rest
  · left
    rw [if_pos rfl, Nat.cast_zero, zero_mul]
    cases sign <;> exact ⟨rfl, rfl⟩
  · right
    obtain ⟨n, k, hcanonical, hvalue⟩ := exists_canonical hrest hlt hleast hgreatest
    rw [if_neg hrest.ne', round_eq hrest.ne' hcanonical (hvalue ▸ nearest_self n k)]
    exact ⟨n, k, hcanonical.pos, hcanonical.unpack_pack sign, hvalue⟩

/-- The difference of two positive doubles is rounded to the double that it is nearest to. -/
theorem exists_add_negative {hm : 0 < m} {hm' : 0 < m'} (h : Canonical m e)
    (h' : Canonical m' e') (hlt : (m * 2 ^ e : ℚ) < m' * 2 ^ e') :
    ∃ n k, ∃ hcanonical : Canonical n k,
      UnpackedFloat.add .binary64 (.finite .negative m e hm) (.finite .positive m' e' hm') =
        .finite .positive n k hcanonical.pos ∧ Nearest n k (m' * 2 ^ e' - m * 2 ^ e) := by
  have hleast : -1074 ≤ min e e' := le_min h.le_exponent h'.le_exponent
  have hx := @shiftLeft_mul_zpow m e _ (min_le_left e e')
  have hy := @shiftLeft_mul_zpow m' e' _ (min_le_right e e')
  rw [UnpackedFloat.add]
  simp only [decreaseExponent, Sign.apply]
  generalize m <<< (e - min e e').toNat = a at hx
  generalize m' <<< (e' - min e e').toNat = b at hy
  generalize min e e' = unit at hleast hx hy
  have hunit : (0 : ℚ) < 2 ^ unit := by positivity
  have hab : a < b := by
    rw [hx, hy] at hlt
    exact Nat.cast_lt.1 (lt_of_mul_lt_mul_right hlt hunit.le)
  have hcompare : compare (-(a : Int) + b) 0 = .gt := Int.compare_eq_gt.2 (by omega)
  have hsum : (-(a : Int) + b).toNat = b - a := by omega
  have hvalue : (m' * 2 ^ e' - m * 2 ^ e : ℚ) = (b - a : Nat) * 2 ^ unit := by
    rw [hx, hy, Nat.cast_sub hab.le]
    ring
  have hone : (1 : ℚ) ≤ (b - a : Nat) := Nat.one_le_cast.2 (Nat.sub_pos_of_lt hab)
  have hpos : (0 : ℚ) ≤ m * 2 ^ e := by positivity
  have hlow : (2 : ℚ) ^ (-1074 : Int) ≤ m' * 2 ^ e' - m * 2 ^ e := by
    rw [hvalue]
    exact (two_zpow_le hleast).trans (le_mul_of_one_le_left hunit.le hone)
  obtain ⟨n, k, hcanonical, hnearest⟩ :=
    exists_nearest hlow ((sub_le_self _ hpos).trans h'.le_greatest)
  refine ⟨n, k, hcanonical, ?_, hnearest⟩
  rw [UnpackedFloat.normalize, hcompare]
  simp only [hsum]
  exact round_eq (by omega) hcanonical (hvalue ▸ hnearest)

end Remainder

end Calculator.Binary64
