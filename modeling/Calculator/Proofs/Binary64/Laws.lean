import Mathlib.Tactic.Linarith
import Calculator.Binary64.Scalar
import Calculator.Proofs.Binary64.Rounding

/-!
# Laws of arithmetic on doubles

The few laws of exact arithmetic that survive rounding: one is neutral, every power of one is one,
negating twice changes nothing, and doubles that compare equal are the same unless they are zero.
-/

namespace Calculator.Binary64

open Float.Model (UnpackedFloat Format)
open Float.Model.UnpackedFloat

/-- A number that is given with more bits than its double needs is not rounded. -/
theorem roundWithAccuracy_padded {mantissa : Nat} {exponent : Int} (sign : Sign)
    (h : Canonical mantissa exponent) :
    roundWithAccuracy .binary64 sign (mantissa * 2 ^ 52) (exponent - 52) .exact =
      .finite sign mantissa exponent h.pos := by
  have hvalue : ((mantissa * 2 ^ 52 : Nat) : ℚ) * 2 ^ (exponent - 52) =
      mantissa * 2 ^ exponent := by
    have hpow : (2 : ℚ) ^ exponent = 2 ^ 52 * 2 ^ (exponent - 52) := two_zpow_eq (by omega)
    rw [hpow]
    push_cast
    ring
  have hbits : 2 ^ 52 ≤ mantissa * 2 ^ 52 := Nat.le_mul_of_pos_left _ h.pos
  exact roundWithAccuracy_exact (.inl hbits) h (hvalue ▸ nearest_self mantissa exponent)

/-- A positive sign is neutral. -/
theorem positive_mul (sign : Sign) : .positive * sign = sign := by
  cases sign <;> rfl

/-- A positive sign is neutral on the right as well. -/
theorem mul_positive (sign : Sign) : sign * .positive = sign := by
  cases sign <;> rfl

/-- The product of a number with one is the number. -/
theorem one_mul (x : Float) : 1 * x = x := by
  have hproduct : 1 * x = .ofModel (.pack (UnpackedFloat.mul .binary64
      (.finite .positive (2 ^ 52) (-52) (by decide)) x.toModel.unpack)) := rfl
  refine hproduct.trans (Eq.trans ?_ (pack_unpack x))
  congr 2
  generalize hx : x.toModel.unpack = u
  cases u with
  | notANumber => rfl
  | infinity sign => rw [UnpackedFloat.mul, positive_mul]
  | zero sign => rw [UnpackedFloat.mul, positive_mul]
  | finite sign mantissa exponent hpos =>
    have hexponent : (-52 : Int) + exponent = exponent - 52 := by omega
    rw [UnpackedFloat.mul, positive_mul, Nat.mul_comm, hexponent]
    exact roundWithAccuracy_padded sign (canonical_of_unpack hx)

/-- The product of one with a number is the number. -/
theorem mul_one (x : Float) : x * 1 = x := by
  have hproduct : x * 1 = .ofModel (.pack (UnpackedFloat.mul .binary64 x.toModel.unpack
      (.finite .positive (2 ^ 52) (-52) (by decide)))) := rfl
  refine hproduct.trans (Eq.trans ?_ (pack_unpack x))
  congr 2
  generalize hx : x.toModel.unpack = u
  cases u with
  | notANumber => rfl
  | infinity sign => rw [UnpackedFloat.mul, mul_positive]
  | zero sign => rw [UnpackedFloat.mul, mul_positive]
  | finite sign mantissa exponent hpos =>
    rw [UnpackedFloat.mul, mul_positive]
    exact roundWithAccuracy_padded sign (canonical_of_unpack hx)

/-- Every power of one by repeated squaring is one. -/
theorem powerOnto_one (n : Nat) : powerOnto (1 : Float) 1 n = 1 := by
  induction n using Nat.strongRecOn with
  | ind n ih =>
    rw [powerOnto]
    simp only [one_mul, ite_self]
    split
    · rfl
    · next hne => exact ih (n / 2) (by omega)

/-- One is every power of itself. -/
theorem one_pow (exponent : Float) : pow 1 exponent = 1 := by
  have hfractional : pow.fractional 1 exponent = 1 := if_pos rfl
  have hpower (n : Int) : power (1 : Float) n = 1 := by
    have hinverse : (1 : Float) / 1 = 1 := rfl
    rw [power, powerOnto_one, hinverse, ite_self]
  rw [pow]
  split
  · rw [hpower, hfractional, ite_self]
  · exact hfractional

/-- Negating a double twice changes nothing. -/
theorem neg_neg (x : Float) : - -x = x := by
  have hsign (sign : Sign) : - -sign = sign := by cases sign <;> rfl
  apply eq_of_unpack_eq
  rw [unpack_neg, unpack_neg]
  cases x.toModel.unpack <;> simp only [UnpackedFloat.neg, hsign]

/-- A double that compares equal to another one that is not zero is that other one. -/
theorem eq_of_beq_of_ne {x y : Float} (h : (x == y) = true) (hne : (y == 0) = false) :
    x = y := by
  have hzero : ((0 : Float) == 0) = true := by decide +kernel
  have hminus : ((-0 : Float) == 0) = true := by decide +kernel
  obtain ⟨-, -, heq | ⟨-, rfl⟩ | ⟨-, rfl⟩⟩ := Float.beq_iff_ne_nan_and_eq.1 h
  · exact heq
  · rw [hminus] at hne
    cases hne
  · rw [hzero] at hne
    cases hne

/-- A double that compares equal to one is one. -/
theorem eq_one_of_beq {x : Float} (h : (x == 1) = true) : x = 1 :=
  eq_of_beq_of_ne h (by decide +kernel)

/-- A double that compares equal to minus one is minus one. -/
theorem eq_neg_one_of_beq {x : Float} (h : (x == -1) = true) : x = -1 :=
  eq_of_beq_of_ne h (by decide +kernel)

/-- The doubles that equal zero are the two zeros. -/
theorem beq_zero_iff {x : Float} : (x == 0) = true ↔ ∃ sign, x.toModel.unpack = .zero sign := by
  have hbeq : (x == 0) = (x.toModel.unpack.compare (.zero .positive) == some .eq) := rfl
  rw [hbeq]
  cases x.toModel.unpack with
  | notANumber => exact ⟨nofun, nofun⟩
  | infinity sign => cases sign <;> exact ⟨nofun, nofun⟩
  | zero sign => exact ⟨fun _ => ⟨sign, rfl⟩, fun _ => rfl⟩
  | finite sign => cases sign <;> exact ⟨nofun, nofun⟩

/-- A double and its negation both equal zero or both do not. -/
theorem neg_bne_zero (x : Float) : (-x != 0) = (x != 0) := by
  have hiff : (-x == 0) = true ↔ (x == 0) = true := by
    rw [beq_zero_iff, beq_zero_iff, unpack_neg]
    cases x.toModel.unpack <;> simp [UnpackedFloat.neg]
  rw [bne, bne, Bool.eq_iff_iff.2 hiff]

/-- The negation of a finite double is finite. -/
theorem isFinite_neg (x : Float) : (-x).isFinite = x.isFinite := by
  change (-x).toModel.unpack.isFinite = x.toModel.unpack.isFinite
  rw [unpack_neg]
  cases x.toModel.unpack <;> rfl

/-- The negation of a negative double is not negative. -/
theorem isNegative_neg {x : Float} (h : isNegative x = true) : isNegative (-x) = false := by
  have hsign (sign : Sign) (h : (sign == .negative) = true) : (-sign == .negative) = false := by
    cases sign with
    | negative => rfl
    | positive => cases h
  unfold isNegative at h ⊢
  rw [unpack_neg]
  generalize x.toModel.unpack = u at h
  cases u with
  | notANumber => cases h
  | infinity sign => exact hsign sign h
  | zero sign => exact hsign sign h
  | finite sign => exact hsign sign h

end Calculator.Binary64
