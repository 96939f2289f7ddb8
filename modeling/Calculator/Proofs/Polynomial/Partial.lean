import Calculator.Polynomial.Power

/-!
# Quotients and powers that are polynomials

A quotient of polynomials is a polynomial for one of two reasons, and so is a power by a constant:
its base is zero or a single monomial. What holds of quotients and powers follows from these cases.
-/

namespace Calculator

/-- A power of a constant is a constant. -/
@[simp] theorem Monomial.pow_constant {K : Type} [Scalar K] (c k : K) :
    (Monomial.constant c : Monomial K K).pow k = .constant (Primitives.pow c k) := by
  simp [Monomial.pow, Monomial.constant, Monomial.ofPowers, Monomial.packPowers]

namespace Polynomial

/-- A polynomial is zero exactly if it has no monomials. -/
theorem isZero_iff {R E : Type} {p : Polynomial R E} : p.isZero = true ↔ p = zero := by
  obtain ⟨ms⟩ := p
  rw [isZero, List.isEmpty_iff, zero, mk.injEq]

/-- A quotient is the product with the reciprocal of a single monomial, or the common ratio to
another divisor of as many monomials, but never that to zero. -/
theorem div_eq_some_iff {R E : Type} [Add R] [Mul R] [Div R] [Zero R] [One R] [BEq R] [Add E]
    [Neg E] [Zero E] [BEq E] [Ord E] {p q r : Polynomial R E} :
    p.div q = some r ↔
      (∃ single, q.monomials = [single] ∧ r = p.mul ⟨[single.reciprocal]⟩) ∨
        (q.size ≠ 1 ∧ q ≠ zero ∧ q.size = p.size ∧
          ∃ k, commonRatio? p none q.monomials = some k ∧ r = constant k) := by
  rw [div]
  split
  · next single hsingle =>
    have hsize : q.size = 1 := congrArg List.length hsingle
    simp [hsize, hsingle, eq_comm]
  · next hnot =>
    have hsingle (single : Monomial R E) : q.monomials ≠ [single] := hnot single
    have hsize : q.size ≠ 1 := fun hsize => (List.length_eq_one_iff.1 hsize).elim hsingle
    have hrefused : ¬(q.isZero || q.size != p.size) = true ↔ q ≠ zero ∧ q.size = p.size := by
      rw [Bool.or_eq_true, isZero_iff, bne_iff_ne, not_or, Decidable.not_not]
    rw [Option.ite_none_left_eq_some, hrefused, Option.map_eq_some_iff, and_assoc]
    simp [hsingle, hsize, eq_comm]

/-- A power by a constant is that of zero or of a single monomial. -/
theorem pow_eq_some_iff {K : Type} [Scalar K] {p q r : Polynomial K K} :
    p.pow q = some r ↔ ∃ k, q.constant? = some k ∧
      ((p.monomials = [] ∧ r = constant (Primitives.pow 0 k)) ∨
        ∃ m, p.monomials = [m] ∧ r = ofMonomials [m.pow k]) := by
  obtain ⟨ms⟩ := p
  rw [pow]
  cases q.constant? with
  | none => simp
  | some k =>
    match ms with
    | [] => simp [constant, eq_comm]
    | [m] => simp [eq_comm]
    | _ :: _ :: _ => simp

end Polynomial

end Calculator
