import Calculator.Evaluation.Assignment
import Calculator.Proofs.Binary64.Zero
import Calculator.Proofs.Polynomial.Packed

/-!
# Constant polynomials of doubles

A constant has one monomial, or none if it equals zero. Arithmetic on constants is arithmetic on
doubles up to the sign of a zero, with two exceptions: the product with the zero polynomial is zero
whatever the other factor is, and a quotient is the product with a reciprocal.
-/

namespace Calculator

open Binary64 (Agree bne_zero_of_beq bne_zero_of_beq_eq_false)

namespace Polynomial

variable {x y : Float}

/-- A double is finite if the monomials of its constant have finite coefficients. -/
theorem isFinite_of_constant_eq {x : Float} {p : Polynomial Float Float} (h : constant x = p)
    (hp : ∀ m ∈ p.monomials, m.coefficient.isFinite = true) : x.isFinite = true := by
  cases hne : x != 0 with
  | true =>
    rw [constant_of_ne_zero hne] at h
    exact hp (.constant x) (by rw [← h]; exact List.mem_singleton_self _)
  | false =>
    obtain ⟨sign, hx⟩ := Binary64.beq_zero_iff.1 (by simpa [bne] using hne)
    change x.toModel.unpack.isFinite = true
    rw [hx]
    rfl

/-- An unknown has itself as its only monomial. -/
theorem unknown_eq (c : Char) : (unknown c : Polynomial Float Float) = ⟨[.unknown c]⟩ := by
  have hne : ((Monomial.unknown c : Monomial Float Float).coefficient != 0) = true := by
    change ((1 : Float) != 0) = true
    decide +kernel
  rw [unknown, ofMonomials_singleton, hne]
  rfl

/-- A packed polynomial without unknowns is a constant. -/
theorem PackedIn.exists_constant {unknowns : List Char} {p : Polynomial Float Float}
    (h : p.PackedIn unknowns) (hnone : p.unknowns = []) : ∃ x, p = constant x := by
  have hpowers (m) (hm : m ∈ p.monomials) : m.powers = [] := by
    have hsymbols := List.flatMap_eq_nil_iff.1 hnone m hm
    exact List.map_eq_nil_iff.1 hsymbols
  obtain ⟨ms⟩ := p
  cases ms with
  | nil => exact ⟨0, (constant_of_zero (by decide +kernel)).symm⟩
  | cons m ms =>
    have hm : m = .constant m.coefficient := by
      rw [Monomial.constant, ← hpowers m List.mem_cons_self]
    cases ms with
    | nil =>
      refine ⟨m.coefficient, ?_⟩
      rw [constant_of_ne_zero (h.nonzero m List.mem_cons_self), ← hm]
    | cons n ns =>
      have hdistinct := (List.pairwise_cons.1 h.distinct).1 n List.mem_cons_self
      rw [Monomial.sameUnknowns, hpowers m (by simp), hpowers n (by simp)] at hdistinct
      cases hdistinct

/-- Every constant is that of a double that is no negative zero. -/
theorem exists_constant_eq (x : Float) :
    ∃ y : Float, y ≠ -0 ∧ (constant x : Polynomial Float Float) = constant y ∧ Agree x y := by
  by_cases hx : (x == 0) = true
  · refine ⟨0, by decide +kernel, ?_, .of_zeros hx (by decide +kernel)⟩
    rw [constant_of_zero (bne_zero_of_beq hx), constant_of_zero (by decide +kernel)]
  · refine ⟨x, ?_, rfl, .refl x⟩
    rintro rfl
    exact hx (by decide +kernel)

/-- Constants that are the same are constants of doubles that agree. -/
theorem agree_of_constant_eq (h : (constant x : Polynomial Float Float) = constant y) :
    Agree x y := by
  by_cases hx : (x != 0) = true
  · by_cases hy : (y != 0) = true
    · rw [constant_of_ne_zero hx, constant_of_ne_zero hy] at h
      simp only [Polynomial.mk.injEq, List.cons.injEq, Monomial.constant, Monomial.mk.injEq] at h
      exact h.1.1 ▸ .refl x
    · rw [constant_of_ne_zero hx, constant_of_zero (eq_false_of_ne_true hy)] at h
      cases h
  · by_cases hy : (y != 0) = true
    · rw [constant_of_zero (eq_false_of_ne_true hx), constant_of_ne_zero hy] at h
      cases h
    · exact .of_zeros (by simpa [bne] using hx) (by simpa [bne] using hy)

section Arithmetic

/-- A constant has its double as value. -/
theorem evaluate_constant (hx : x ≠ -0) (b : Assignment Float) :
    (constant x).evaluate b = .ok x := by
  by_cases hzero : (x == 0) = true
  · obtain rfl := (Binary64.eq_zero_or_eq_neg_zero hzero).resolve_right hx
    rw [constant_of_zero (by decide +kernel)]
    rfl
  · have hne := eq_false_of_ne_true hzero
    have hsum : (0 : Float) + x = x := Binary64.zero_add (by decide +kernel) hne
    rw [constant_of_ne_zero (bne_zero_of_beq_eq_false hne)]
    exact congrArg Except.ok hsum

/-- A constant is read as its double. -/
theorem constant?_constant (hx : x ≠ -0) :
    (constant x : Polynomial Float Float).constant? = some x := by
  by_cases hzero : (x == 0) = true
  · obtain rfl := (Binary64.eq_zero_or_eq_neg_zero hzero).resolve_right hx
    rw [constant_of_zero (by decide +kernel)]
    rfl
  · rw [constant_of_ne_zero (bne_zero_of_beq_eq_false (eq_false_of_ne_true hzero))]
    rfl

/-- A sum of constants is the constant of the sum. -/
theorem add_constant (x y : Float) :
    (constant x : Polynomial Float Float).add (constant y) = constant (x + y) := by
  cases hx : x == 0 with
  | true =>
    rw [constant_of_zero (bne_zero_of_beq hx)]
    cases hy : y == 0 with
    | true =>
      have hsum := Binary64.zero_add_zero hx hy
      rw [constant_of_zero (bne_zero_of_beq hy), constant_of_zero (bne_zero_of_beq hsum)]
      simp [add, zero, ofMonomials]
    | false =>
      rw [Binary64.zero_add hx hy, constant_of_ne_zero (bne_zero_of_beq_eq_false hy)]
      exact constant_of_ne_zero (bne_zero_of_beq_eq_false hy)
  | false =>
    rw [constant_of_ne_zero (bne_zero_of_beq_eq_false hx)]
    cases hy : y == 0 with
    | true =>
      rw [Binary64.add_zero hx hy, constant_of_zero (bne_zero_of_beq hy)]
      rfl
    | false =>
      rw [constant_of_ne_zero (bne_zero_of_beq_eq_false hy)]
      rfl

/-- A difference of constants is the constant of the difference. -/
theorem sub_constant (x y : Float) :
    (constant x : Polynomial Float Float).sub (constant y) = constant (x - y) := by
  have hnegate : (constant y : Polynomial Float Float).monomials.map Monomial.negate =
      (constant (-y) : Polynomial Float Float).monomials := by
    have hneg := Binary64.neg_bne_zero y
    cases hy : y != 0 with
    | true =>
      rw [constant_of_ne_zero hy, constant_of_ne_zero (hneg.trans hy)]
      rfl
    | false =>
      rw [constant_of_zero hy, constant_of_zero (hneg.trans hy)]
      rfl
  rw [Binary64.sub_eq_add_neg, ← add_constant, sub, hnegate]
  rfl

/-- A product of constants is the constant of the product, if a zero factor makes that zero. -/
theorem mul_constant (h : (x == 0 || y == 0) = true → (x * y == 0) = true) :
    (constant x : Polynomial Float Float).mul (constant y) = constant (x * y) := by
  cases hx : x == 0 with
  | true =>
    have hproduct := h (by simp [hx])
    rw [constant_of_zero (bne_zero_of_beq hx), constant_of_zero (bne_zero_of_beq hproduct)]
    simp [mul, zero, ofMonomials]
  | false =>
    rw [constant_of_ne_zero (bne_zero_of_beq_eq_false hx)]
    cases hy : y == 0 with
    | true =>
      have hproduct := h (by simp [hy])
      rw [constant_of_zero (bne_zero_of_beq hy), constant_of_zero (bne_zero_of_beq hproduct)]
      simp [mul, zero, ofMonomials]
    | false =>
      rw [constant_of_ne_zero (bne_zero_of_beq_eq_false hy)]
      simp [mul, constant, Monomial.mul, Monomial.constant, Monomial.ofPowers,
        Monomial.packPowers]

/-- Nothing is divided by the zero polynomial. -/
theorem div_constant_zero (p : Polynomial Float Float) (hy : (y == 0) = true) :
    p.div (constant y) = none := by
  rw [constant_of_zero (bne_zero_of_beq hy)]
  rfl

/-- A quotient of constants other than zero is the product with the reciprocal of the divisor. -/
theorem div_constant_of_ne (hx : (x == 0) = false) (hy : (y == 0) = false) :
    (constant x : Polynomial Float Float).div (constant y) = some (constant (x * (1 / y))) := by
  rw [constant_of_ne_zero (bne_zero_of_beq_eq_false hx),
    constant_of_ne_zero (bne_zero_of_beq_eq_false hy)]
  simp [div, mul, constant, Monomial.mul, Monomial.reciprocal, Monomial.constant,
    Monomial.ofPowers, Monomial.packPowers]

/-- A quotient of constants is the constant of the quotient, if that is zero for a zero dividend,
and is the product with the reciprocal otherwise. -/
theorem div_constant (hy : (y == 0) = false)
    (h : if x == 0 then (x / y == 0) = true else x / y = x * (1 / y)) :
    (constant x : Polynomial Float Float).div (constant y) = some (constant (x / y)) := by
  cases hx : x == 0 with
  | true =>
    have hquotient : (x / y == 0) = true := by simpa [hx] using h
    rw [constant_of_zero (bne_zero_of_beq hx), constant_of_zero (bne_zero_of_beq hquotient),
      constant_of_ne_zero (bne_zero_of_beq_eq_false hy)]
    simp [div, mul, zero, ofMonomials]
  | false =>
    have hquotient : x / y = x * (1 / y) := by simpa [hx] using h
    rw [hquotient, div_constant_of_ne hx hy]

/-- A power of constants is the constant of the power. -/
theorem pow_constant (hx : x ≠ -0) (hy : y ≠ -0) :
    (constant x : Polynomial Float Float).pow (constant y) =
      some (constant (Primitives.pow x y)) := by
  rw [pow, constant?_constant hy]
  cases hzero : x == 0 with
  | true =>
    obtain rfl := (Binary64.eq_zero_or_eq_neg_zero hzero).resolve_right hx
    rw [constant_of_zero (bne_zero_of_beq hzero)]
    simp [zero, constant]
  | false =>
    rw [constant_of_ne_zero (bne_zero_of_beq_eq_false hzero)]
    simp [constant]

end Arithmetic

end Polynomial

end Calculator
