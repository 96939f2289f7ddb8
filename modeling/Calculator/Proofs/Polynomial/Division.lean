import Calculator.Proofs.Polynomial.Partial
import Calculator.Proofs.Polynomial.Ratio
import Calculator.Proofs.Polynomial.Ring

/-!
# Quotients of packed polynomials

With coefficients in a field and exponents in a group, dividing packed polynomials by a single
monomial, or by a polynomial that the dividend is a constant multiple of, has a quotient, and only
that. The quotient times the divisor is the dividend, monomial by monomial.
-/

namespace Calculator.Polynomial

section Field

variable {R E : Type} [Field R] [AddCommGroup E]

/-- Negating the exponents negates the function of a list of powers. -/
theorem listed_map_neg (powers : List (Char × E)) :
    listed (powers.map fun p => (p.1, -p.2)) = -listed powers := by
  induction powers with
  | nil => simp
  | cons p ps ih =>
    rw [List.map_cons, listed_cons, ih, listed_cons, Finsupp.single_neg, neg_add]

/-- A monomial times its reciprocal is one. -/
theorem single_reciprocal_mul_single {m : Monomial R E} (hm : m.coefficient ≠ 0) :
    (AddMonoidAlgebra.single (listed m.reciprocal.powers) m.reciprocal.coefficient *
      .single (listed m.powers) m.coefficient : AddMonoidAlgebra R (Char →₀ E)) = 1 := by
  rw [AddMonoidAlgebra.single_mul_single, AddMonoidAlgebra.one_def, Monomial.reciprocal,
    listed_map_neg, neg_add_cancel, one_div_mul_cancel hm]

/-- Scaling the coefficients multiplies the element by a constant. -/
theorem algebraOf_map_scale (k : R) (ms : List (Monomial R E)) :
    algebraOf (ms.map fun m => m.withCoefficient (k * m.coefficient)) =
      .single 0 k * algebraOf ms := by
  induction ms with
  | nil => simp
  | cons m ms ih =>
    rw [List.map_cons, algebraOf_cons, ih, algebraOf_cons, mul_add,
      AddMonoidAlgebra.single_mul_single, zero_add, Monomial.withCoefficient]

variable [LinearOrder E] {p q r : Polynomial R E}

/-- Scaling by a constant that is not zero keeps a polynomial packed. -/
theorem Packed.scale (hq : q.Packed) {k : R} (hk : k ≠ 0) :
    Packed ⟨q.monomials.map fun n => n.withCoefficient (k * n.coefficient)⟩ where
  powers := List.forall_mem_map.2 hq.powers
  nonzero := List.forall_mem_map.2 fun n hn => mul_ne_zero hk (hq.nonzero n hn)
  ordered := List.pairwise_map.2 hq.ordered

/-- No two monomials of a packed polynomial have the same unknowns. -/
theorem Packed.distinct (hp : p.Packed) : Distinct p.monomials := by
  refine hp.ordered.imp fun {m n} hlt => ?_
  rw [Monomial.sameUnknowns, beq_eq_false_iff_ne]
  intro hpowers
  rw [Monomial.canonicalOrder_eq_iff.2 hpowers] at hlt
  cases hlt

variable [DecidableEq R]

/-- A packed polynomial that is a multiple of another one has the multiples of its monomials. -/
theorem Packed.eq_map_of_eq_mul (hp : p.Packed) (hq : q.Packed) {k : R} (hk : k ≠ 0)
    (h : p = (constant k).mul q) :
    p = ⟨q.monomials.map fun n => n.withCoefficient (k * n.coefficient)⟩ := by
  refine hp.ext (hq.scale hk) ?_
  rw [h, toAlgebra_mul, toAlgebra_constant, toAlgebra, toAlgebra, algebraOf_map_scale]

/-- The quotient by a single monomial times the monomial is the dividend. -/
theorem Packed.mul_reciprocal_mul (hp : p.Packed) (hq : q.Packed) {single : Monomial R E}
    (hsingle : q.monomials = [single]) : (p.mul ⟨[single.reciprocal]⟩).mul q = p := by
  have hne : single.coefficient ≠ 0 := hq.nonzero single (by simp [hsingle])
  have hq' : q.toAlgebra = .single (listed single.powers) single.coefficient := by
    rw [toAlgebra, hsingle, algebraOf_cons, algebraOf_nil, add_zero]
  have hreciprocal : (⟨[single.reciprocal]⟩ : Polynomial R E).toAlgebra =
      .single (listed single.reciprocal.powers) single.reciprocal.coefficient := by
    rw [toAlgebra, algebraOf_cons, algebraOf_nil, add_zero]
  refine (packed_mul _ q).ext hp ?_
  rw [toAlgebra_mul, toAlgebra_mul, mul_assoc, hq', hreciprocal, single_reciprocal_mul_single hne,
    mul_one]

/-- A common ratio times the divisor is the dividend. -/
theorem Packed.constant_mul_of_commonRatio? (hp : p.Packed) (hq : q.Packed)
    (hsize : q.size = p.size) {k : R} (h : commonRatio? p none q.monomials = some k) :
    (constant k).mul q = p := by
  have hperm := perm_of_commonRatio? hq.distinct hq.nonzero hsize h
  refine (packed_mul _ q).ext hp ?_
  rw [toAlgebra_mul, toAlgebra_constant, toAlgebra, ← algebraOf_map_scale, toAlgebra, algebraOf,
    (hperm.map _).sum_eq, algebraOf]

/-- A quotient times the divisor is the dividend. -/
theorem Packed.mul_of_div (hp : p.Packed) (hq : q.Packed) (h : p.div q = some r) :
    r.mul q = p := by
  obtain ⟨single, hsingle, rfl⟩ | ⟨-, -, hsize, k, hk, rfl⟩ := div_eq_some_iff.1 h
  · exact hp.mul_reciprocal_mul hq hsingle
  · exact hp.constant_mul_of_commonRatio? hq hsize hk

/-- The divisor of a quotient is not zero, and it is a single monomial or has a constant multiple
that is the dividend. -/
theorem Packed.of_div (hp : p.Packed) (hq : q.Packed) (h : p.div q = some r) :
    q ≠ zero ∧ (q.size = 1 ∨ ∃ k ≠ 0, p = (constant k).mul q) := by
  obtain ⟨single, hsingle, rfl⟩ | ⟨-, hne, hsize, k, hk, rfl⟩ := div_eq_some_iff.1 h
  · refine ⟨?_, .inl (congrArg List.length hsingle)⟩
    rintro rfl
    cases hsingle
  · have hmonomials : q.monomials ≠ [] := fun hnil => hne (congrArg Polynomial.mk hnil)
    obtain ⟨n, hn⟩ := List.exists_mem_of_ne_nil _ hmonomials
    obtain ⟨m, hm, -, hratio⟩ := exists_of_commonRatio? hk hn
    refine ⟨hne, .inr ⟨k, ?_, (hp.constant_mul_of_commonRatio? hq hsize hk).symm⟩⟩
    rw [← hratio]
    exact div_ne_zero (hp.nonzero m hm) (hq.nonzero n hn)

/-- A multiple of a polynomial has a common ratio to it. -/
theorem Packed.commonRatio?_of_eq_mul (hp : p.Packed) (hq : q.Packed) (hne : q ≠ zero) {k : R}
    (hk : k ≠ 0) (h : p = (constant k).mul q) :
    q.size = p.size ∧ commonRatio? p none q.monomials = some k := by
  have hscaled := hp.eq_map_of_eq_mul hq hk h
  refine ⟨by rw [hscaled, size, size, List.length_map], ?_⟩
  refine commonRatio?_eq_some_iff.2
    ⟨fun _ h => absurd h (Option.not_mem_none _),
      fun _ hnil => hne (congrArg Polynomial.mk hnil), fun n hn => ?_⟩
  refine ⟨n.withCoefficient (k * n.coefficient), hp.distinct.find?_eq_some ?_ rfl, ?_⟩
  · rw [hscaled]
    exact List.mem_map_of_mem hn
  · rw [Monomial.withCoefficient, mul_div_cancel_right₀ _ (hq.nonzero n hn)]

/-- Packed polynomials have a quotient exactly if the divisor is not zero and is a single monomial,
or the dividend is a constant multiple of it that is not zero; and a quotient times the divisor is
the dividend, as the lists of monomials that are stored. -/
theorem Packed.exists_div_iff (hp : p.Packed) (hq : q.Packed) :
    ((∃ r, p.div q = some r) ↔
      q ≠ zero ∧ (q.size = 1 ∨ ∃ k ≠ 0, p = (constant k).mul q)) ∧
    ∀ r, p.div q = some r → r.mul q = p := by
  refine ⟨⟨fun ⟨r, h⟩ => hp.of_div hq h, ?_⟩, fun r => hp.mul_of_div hq⟩
  rintro ⟨hne, hcases⟩
  by_cases hone : q.size = 1
  · obtain ⟨single, hsingle⟩ := List.length_eq_one_iff.1 hone
    exact ⟨_, div_eq_some_iff.2 (.inl ⟨single, hsingle, rfl⟩)⟩
  · obtain ⟨k, hk, h⟩ := hcases.resolve_left hone
    obtain ⟨hsize, hratio⟩ := hp.commonRatio?_of_eq_mul hq hne hk h
    exact ⟨_, div_eq_some_iff.2 (.inr ⟨hone, hne, hsize, k, hratio, rfl⟩)⟩

end Field

/-- Twice the sum of two unknowns has a quotient by the sum, which is no single monomial, and the
quotient times the sum is twice the sum. -/
theorem exists_div_twice_sum :
    let sum : Polynomial ℚ ℤ := ⟨[⟨1, [('x', 1)]⟩, ⟨1, [('y', 1)]⟩]⟩
    sum.size = 2 ∧ ∃ r, ((constant 2).mul sum).div sum = some r ∧
      r.mul sum = (constant 2).mul sum := by
  intro sum
  have hsum : sum.Packed := by
    refine ⟨fun m hm => ⟨?_, ?_⟩, ?_, ?_⟩
    · revert m
      decide +kernel
    · revert m
      decide +kernel
    · decide +kernel
    · decide +kernel
  obtain ⟨hdiv, hmul⟩ := Packed.exists_div_iff (packed_mul (constant 2) sum) hsum
  obtain ⟨r, hr⟩ := hdiv.2 ⟨by decide +kernel, .inr ⟨2, two_ne_zero, rfl⟩⟩
  exact ⟨rfl, r, hr, hmul r hr⟩

end Calculator.Polynomial
