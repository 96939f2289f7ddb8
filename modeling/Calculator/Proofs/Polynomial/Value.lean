import Mathlib.Algebra.BigOperators.Ring.List
import Mathlib.Algebra.Field.Rat
import Mathlib.Tactic.Ring
import Calculator.Evaluation.Assignment
import Calculator.Proofs.Expression.Induction
import Calculator.Proofs.Polynomial.Packing

/-!
# Exact values of polynomials

Over a field, arithmetic is exact. The value of a polynomial is then a sum of products, whatever
the order of the monomials and of the powers, and packing does not change it.
-/

namespace Calculator

variable {K : Type} [Field K]

/-- Every exponent is an integer. -/
def IntegralPowers (powers : List (Char × K)) : Prop :=
  ∀ p ∈ powers, ∃ n : ℤ, p.2 = n

/-- Multiplying by an integer power leaves the exponents integers. -/
theorem IntegralPowers.addPower {powers : List (Char × K)} {power : Char × K}
    (h : IntegralPowers powers) (hpower : ∃ n : ℤ, power.2 = n) :
    IntegralPowers (Monomial.addPower powers power) := by
  induction powers with
  | nil => simpa [Monomial.addPower, IntegralPowers] using hpower
  | cons p ps ih =>
    obtain ⟨hp, hps⟩ := List.forall_mem_cons.1 h
    rw [Monomial.addPower]
    split
    · obtain ⟨n, hn⟩ := hp
      obtain ⟨k, hk⟩ := hpower
      exact List.forall_mem_cons.2 ⟨⟨n + k, by rw [hn, hk, Int.cast_add]⟩, hps⟩
    · exact List.forall_mem_cons.2 ⟨hp, ih hps⟩

variable [Primitives K]

/-- The elements of a field as scalars. -/
instance (priority := low) exactScalar [DecidableEq K] [Ord K] : Scalar K where

/-- A power with an integer as exponent is the power of the field. At zero, which has no negative
powers, nothing is asked. -/
def ExactPowers (K : Type) [Field K] [Primitives K] : Prop :=
  ∀ (x : K) (n : ℤ), x ≠ 0 → Primitives.pow x (n : K) = x ^ n

/-- The product of powers of the values of unknowns. -/
def powersAt (values : Char → K) (powers : List (Char × K)) : K :=
  (powers.map fun p => Primitives.pow (values p.1) p.2).prod

/-- The value of a monomial where every unknown has a value. -/
def Monomial.valueAt (values : Char → K) (m : Monomial K K) : K :=
  m.coefficient * powersAt values m.powers

/-- The sum of the values of monomials where every unknown has a value. -/
def sumAt (values : Char → K) (monomials : List (Monomial K K)) : K :=
  (monomials.map (·.valueAt values)).sum

variable {values : Char → K}

@[simp] theorem powersAt_nil : powersAt values [] = 1 := rfl

@[simp] theorem powersAt_cons (p : Char × K) (ps : List (Char × K)) :
    powersAt values (p :: ps) = Primitives.pow (values p.1) p.2 * powersAt values ps := by
  simp [powersAt]

@[simp] theorem powersAt_append (ps qs : List (Char × K)) :
    powersAt values (ps ++ qs) = powersAt values ps * powersAt values qs := by
  simp [powersAt]

@[simp] theorem sumAt_nil : sumAt values [] = 0 := rfl

@[simp] theorem sumAt_cons (m : Monomial K K) (ms : List (Monomial K K)) :
    sumAt values (m :: ms) = m.valueAt values + sumAt values ms := by
  simp [sumAt]

@[simp] theorem sumAt_append (ms ns : List (Monomial K K)) :
    sumAt values (ms ++ ns) = sumAt values ms + sumAt values ns := by
  simp [sumAt]

/-- The value of a list of powers in another order. -/
theorem powersAt_perm {ps qs : List (Char × K)} (h : ps.Perm qs) :
    powersAt values ps = powersAt values qs :=
  (h.map _).prod_eq

/-- The value of a list of monomials in another order. -/
theorem sumAt_perm {ms ns : List (Monomial K K)} (h : ms.Perm ns) :
    sumAt values ms = sumAt values ns :=
  (h.map _).sum_eq

section Powers

variable (hpow : ExactPowers K) (hvalues : ∀ c, values c ≠ 0)

include hpow hvalues

/-- A product of integer powers is not zero. -/
theorem powersAt_ne_zero {powers : List (Char × K)} (h : IntegralPowers powers) :
    powersAt values powers ≠ 0 := by
  induction powers with
  | nil => exact one_ne_zero
  | cons p ps ih =>
    obtain ⟨⟨n, hn⟩, hps⟩ := List.forall_mem_cons.1 h
    rw [powersAt_cons, hn, hpow _ n (hvalues p.1)]
    exact mul_ne_zero (zpow_ne_zero n (hvalues p.1)) (ih hps)

/-- Multiplying by an integer power multiplies the value. -/
theorem powersAt_addPower {powers : List (Char × K)} {power : Char × K}
    (h : IntegralPowers powers) (hpower : ∃ n : ℤ, power.2 = n) :
    powersAt values (Monomial.addPower powers power) =
      powersAt values powers * Primitives.pow (values power.1) power.2 := by
  induction powers with
  | nil => simp [Monomial.addPower]
  | cons p ps ih =>
    obtain ⟨hp, hps⟩ := List.forall_mem_cons.1 h
    rw [Monomial.addPower]
    split
    · next heq =>
      obtain ⟨n, hn⟩ := hp
      obtain ⟨k, hk⟩ := hpower
      have hsum : Primitives.pow (values p.1) (p.2 + power.2) =
          Primitives.pow (values p.1) p.2 * Primitives.pow (values power.1) power.2 := by
        rw [← heq, hn, hk, ← Int.cast_add, hpow _ _ (hvalues p.1), hpow _ _ (hvalues p.1),
          hpow _ _ (hvalues p.1), zpow_add₀ (hvalues p.1)]
      rw [powersAt_cons, hsum, powersAt_cons]
      ring
    · rw [powersAt_cons, ih hps, powersAt_cons, mul_assoc]

/-- The product of a list of integer powers has the product of their values. -/
theorem powersAt_foldl_addPower (before : List (Char × K)) {powers : List (Char × K)}
    (hbefore : IntegralPowers before) (h : IntegralPowers powers) :
    IntegralPowers (powers.foldl Monomial.addPower before) ∧
      powersAt values (powers.foldl Monomial.addPower before) =
        powersAt values before * powersAt values powers := by
  induction powers generalizing before with
  | nil => exact ⟨hbefore, by simp⟩
  | cons p ps ih =>
    obtain ⟨hp, hps⟩ := List.forall_mem_cons.1 h
    obtain ⟨hintegral, hvalue⟩ := ih _ (hbefore.addPower hp) hps
    refine ⟨hintegral, ?_⟩
    rw [List.foldl_cons, hvalue, powersAt_addPower hpow hvalues hbefore hp, powersAt_cons,
      mul_assoc]

variable [DecidableEq K]

/-- An exponent of zero leaves the value as it is. -/
theorem powersAt_filter (powers : List (Char × K)) :
    powersAt values (powers.filter fun p => p.2 != 0) = powersAt values powers := by
  induction powers with
  | nil => rfl
  | cons p ps ih =>
    by_cases hp : p.2 = 0
    · have hone : Primitives.pow (values p.1) p.2 = 1 := by
        rw [hp, ← Int.cast_zero, hpow _ 0 (hvalues p.1), zpow_zero]
      rw [List.filter_cons_of_neg (by simp [hp]), ih, powersAt_cons, hone, one_mul]
    · simp [hp, ih]

/-- Packing integer powers keeps their value, and leaves them integers. -/
theorem powersAt_packPowers {powers : List (Char × K)} (h : IntegralPowers powers) :
    IntegralPowers (Monomial.packPowers powers) ∧
      powersAt values (Monomial.packPowers powers) = powersAt values powers := by
  obtain ⟨hintegral, hvalue⟩ :=
    powersAt_foldl_addPower hpow hvalues [] (by simp [IntegralPowers]) h
  constructor
  · intro p hp
    exact hintegral p (List.mem_filter.1 (List.mem_mergeSort.1 hp)).1
  · rw [Monomial.packPowers, powersAt_perm (List.mergeSort_perm _ _),
      powersAt_filter hpow hvalues, hvalue, powersAt_nil, one_mul]

end Powers

/-- The value of a monomial is additive in the coefficient. -/
theorem Monomial.additive_valueAt : Additive (R := K) (E := K) (valueAt values) where
  merge m n hpowers := by
    rw [valueAt, withCoefficient, add_mul, valueAt, valueAt, hpowers]
  drop m hm := by rw [valueAt, hm, zero_mul]

/-- Packing a list of monomials keeps its value. -/
theorem sumAt_ofMonomials [DecidableEq K] [Ord K] (ms : List (Monomial K K)) :
    sumAt values (Polynomial.ofMonomials ms).monomials = sumAt values ms :=
  Monomial.additive_valueAt.sum_ofMonomials ms

section Evaluation

/-- The values of all unknowns, where one without a value has the value one. -/
def Assignment.total (b : Assignment K) (c : Char) : K :=
  (b c).getD 1

/-- Every unknown of the monomials has a value. -/
def Assignment.Binds (b : Assignment K) (monomials : List (Monomial K K)) : Prop :=
  ∀ m ∈ monomials, ∀ p ∈ m.powers, (b p.1).isSome = true

variable [DecidableEq K] [Ord K] {b : Assignment K}

/-- A monomial has a value if its unknowns have one, and this value is a product. -/
theorem Monomial.evaluate_eq_ok_iff {m : Monomial K K} {x : K} :
    m.evaluate b = .ok x ↔
      (∀ p ∈ m.powers, (b p.1).isSome = true) ∧ x = m.valueAt b.total := by
  rw [Monomial.evaluate, Monomial.valueAt]
  generalize m.coefficient = product
  induction m.powers generalizing product with
  | nil =>
    rw [List.foldlM_nil, powersAt_nil, mul_one]
    exact ⟨fun h => ⟨nofun, (Except.ok.inj h).symm⟩, fun h => congrArg Except.ok h.2.symm⟩
  | cons p ps ih =>
    rw [List.foldlM_cons, Except.bind_eq_ok_iff, List.forall_mem_cons, powersAt_cons]
    cases hp : b p.1 with
    | none => simp
    | some y =>
      have htotal : b.total p.1 = y := by simp [Assignment.total, hp]
      simp [ih, htotal, mul_assoc]

/-- A polynomial has a value if its unknowns have one, and this value is a sum of products. -/
theorem Polynomial.evaluate_eq_ok_iff {p : Polynomial K K} {x : K} :
    p.evaluate b = .ok x ↔ b.Binds p.monomials ∧ x = sumAt b.total p.monomials := by
  have hzero : sumAt b.total p.monomials = 0 + sumAt b.total p.monomials := (zero_add _).symm
  rw [Polynomial.evaluate, hzero]
  generalize (0 : K) = sum
  induction p.monomials generalizing sum with
  | nil =>
    rw [List.foldlM_nil, sumAt_nil, add_zero]
    exact ⟨fun h => ⟨nofun, (Except.ok.inj h).symm⟩, fun h => congrArg Except.ok h.2.symm⟩
  | cons m ms ih =>
    rw [List.foldlM_cons, Except.bind_eq_ok_iff, Assignment.Binds, List.forall_mem_cons,
      sumAt_cons]
    simp only [Except.bind_eq_ok_iff, Monomial.evaluate_eq_ok_iff]
    constructor
    · rintro ⟨sum', ⟨y, ⟨hm, rfl⟩, hsum⟩, hrest⟩
      obtain rfl := Except.ok.inj hsum
      obtain ⟨hms, hx⟩ := (ih _).1 hrest
      exact ⟨⟨hm, hms⟩, by rw [hx, add_assoc]⟩
    · rintro ⟨⟨hm, hms⟩, hx⟩
      exact ⟨_, ⟨_, ⟨hm, rfl⟩, rfl⟩, (ih _).2 ⟨hms, by rw [hx, add_assoc]⟩⟩

end Evaluation

end Calculator
