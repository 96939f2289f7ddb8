import Mathlib.Tactic.FieldSimp
import Calculator.Proofs.Polynomial.Order
import Calculator.Proofs.Polynomial.Partial
import Calculator.Proofs.Polynomial.Ratio
import Calculator.Proofs.Polynomial.Value

/-!
# Arithmetic of polynomials over a field

The operations on polynomials compute what the field computes on their values. Quotients are found
only where they are polynomials, and powers only of at most one monomial.
-/

namespace Calculator

variable {K : Type} [Field K] [Primitives K]

namespace Monomial

variable {values : Char → K} (hpow : ExactPowers K) (hvalues : ∀ c, values c ≠ 0)
  {m n : Monomial K K}

include hpow hvalues

/-- The reciprocal of a monomial has the inverse of its value. -/
theorem valueAt_reciprocal (hm : IntegralPowers m.powers) :
    IntegralPowers m.reciprocal.powers ∧
      m.reciprocal.valueAt values = (m.valueAt values)⁻¹ := by
  have hpowers {powers : List (Char × K)} (h : IntegralPowers powers) :
      IntegralPowers (powers.map fun p => (p.1, -p.2)) ∧
        powersAt values (powers.map fun p => (p.1, -p.2)) = (powersAt values powers)⁻¹ := by
    induction powers with
    | nil => simp [IntegralPowers]
    | cons p ps ih =>
      obtain ⟨⟨k, hk⟩, hps⟩ := List.forall_mem_cons.1 h
      obtain ⟨hintegral, hvalue⟩ := ih hps
      have hneg : -p.2 = ((-k : ℤ) : K) := by rw [hk, Int.cast_neg]
      refine ⟨List.forall_mem_cons.2 ⟨⟨-k, hneg⟩, hintegral⟩, ?_⟩
      rw [List.map_cons, powersAt_cons, hvalue, powersAt_cons, hneg, hk, hpow _ _ (hvalues p.1),
        hpow _ _ (hvalues p.1), zpow_neg, mul_inv]
  obtain ⟨hintegral, hvalue⟩ := hpowers hm
  refine ⟨hintegral, ?_⟩
  rw [reciprocal, valueAt, hvalue, valueAt, one_div, mul_inv]

variable [DecidableEq K]

/-- The product of two monomials has the product of their values. -/
theorem valueAt_mul (hm : IntegralPowers m.powers) (hn : IntegralPowers n.powers) :
    IntegralPowers (m.mul n).powers ∧
      (m.mul n).valueAt values = m.valueAt values * n.valueAt values := by
  obtain ⟨hintegral, hvalue⟩ :=
    powersAt_packPowers hpow hvalues (List.forall_mem_append.2 ⟨hm, hn⟩)
  refine ⟨hintegral, ?_⟩
  rw [powersAt_append] at hvalue
  rw [mul, ofPowers, valueAt, hvalue, valueAt, valueAt]
  ring

/-- An integer power of a monomial has the power of its value. -/
theorem valueAt_pow [Ord K] (hm : IntegralPowers m.powers) (hne : m.coefficient ≠ 0) (k : ℤ) :
    IntegralPowers (m.pow (k : K)).powers ∧
      (m.pow (k : K)).valueAt values = m.valueAt values ^ k := by
  have hpowers {powers : List (Char × K)} (h : IntegralPowers powers) :
      IntegralPowers (powers.map fun p => (p.1, p.2 * (k : K))) ∧
        powersAt values (powers.map fun p => (p.1, p.2 * (k : K))) =
          powersAt values powers ^ k := by
    induction powers with
    | nil => simp [IntegralPowers]
    | cons p ps ih =>
      obtain ⟨⟨l, hl⟩, hps⟩ := List.forall_mem_cons.1 h
      obtain ⟨hintegral, hvalue⟩ := ih hps
      have hprod : p.2 * (k : K) = ((l * k : ℤ) : K) := by rw [hl, Int.cast_mul]
      refine ⟨List.forall_mem_cons.2 ⟨⟨l * k, hprod⟩, hintegral⟩, ?_⟩
      rw [List.map_cons, powersAt_cons, hvalue, powersAt_cons, hprod, hl, hpow _ _ (hvalues p.1),
        hpow _ _ (hvalues p.1), zpow_mul, mul_zpow]
  obtain ⟨hmapped, hmappedValue⟩ := hpowers hm
  obtain ⟨hintegral, hvalue⟩ := powersAt_packPowers hpow hvalues hmapped
  refine ⟨hintegral, ?_⟩
  rw [pow, ofPowers, valueAt, hvalue, hmappedValue, hpow _ _ hne, valueAt, mul_zpow]

end Monomial

variable [DecidableEq K] [Ord K]

namespace Polynomial

/-- No two monomials have the same unknowns, and no coefficient is zero. -/
structure Reduced (p : Polynomial K K) : Prop where
  distinct : Distinct p.monomials
  nonzero : ∀ m ∈ p.monomials, m.coefficient ≠ 0

/-- Every exponent is an integer. -/
def Integral (p : Polynomial K K) : Prop :=
  ∀ m ∈ p.monomials, IntegralPowers m.powers

/-- A reduced polynomial with integer exponents that has a value under an assignment. -/
structure HasValue (b : Assignment K) (p : Polynomial K K) (x : K) : Prop where
  reduced : p.Reduced
  integral : p.Integral
  binds : b.Binds p.monomials
  value : sumAt b.total p.monomials = x

variable {b : Assignment K} {p q r : Polynomial K K} {x y : K}

/-- A polynomial that has a value is evaluated to it. -/
theorem HasValue.evaluate_eq (h : HasValue b p x) : p.evaluate b = .ok x :=
  evaluate_eq_ok_iff.2 ⟨h.binds, h.value.symm⟩

/-- What a polynomial is evaluated to is its value. -/
theorem hasValue_of_evaluate (hreduced : p.Reduced) (hintegral : p.Integral)
    (h : p.evaluate b = .ok x) : HasValue b p x := by
  obtain ⟨hbinds, hx⟩ := evaluate_eq_ok_iff.1 h
  exact ⟨hreduced, hintegral, hbinds, hx.symm⟩

/-- A packed sum is reduced. -/
theorem reduced_ofMonomials (ms : List (Monomial K K)) : (ofMonomials ms).Reduced where
  distinct := distinct_ofMonomials ms
  nonzero := by
    intro m hm
    have hne := coefficient_ne_of_mem_ofMonomials hm
    simpa using hne

/-- A packed sum has the sum of the values. -/
theorem hasValue_ofMonomials (ms : List (Monomial K K))
    (hintegral : ∀ m ∈ ms, IntegralPowers m.powers) (hbinds : b.Binds ms) :
    HasValue b (ofMonomials ms) (sumAt b.total ms) where
  reduced := reduced_ofMonomials ms
  integral := by
    intro m hm
    obtain ⟨n, hn, heq⟩ := mem_ofMonomials hm
    rw [heq]
    exact hintegral n hn
  binds := by
    intro m hm
    obtain ⟨n, hn, heq⟩ := mem_ofMonomials hm
    rw [heq]
    exact hbinds n hn
  value := sumAt_ofMonomials ms

/-- The polynomial of a scalar has that value. -/
theorem hasValue_constant (b : Assignment K) (x : K) : HasValue b (constant x) x := by
  have h := hasValue_ofMonomials (b := b) [.constant x]
    (by simp [Monomial.constant, IntegralPowers]) (by simp [Monomial.constant, Assignment.Binds])
  have hvalue : sumAt b.total [.constant x] = x := by simp [Monomial.constant, Monomial.valueAt]
  rwa [hvalue] at h

/-- A polynomial without unknowns has its constant as value. -/
theorem HasValue.eq_of_constant? (h : HasValue b p x) {k : K} (hk : p.constant? = some k) :
    x = k := by
  have hvalue := h.value
  rw [constant?] at hk
  split at hk
  · next hnil =>
    rw [hnil] at hvalue
    obtain rfl := Option.some.inj hk
    exact hvalue.symm
  · next m hsingle =>
    split at hk
    · next hconstant =>
      rw [hsingle] at hvalue
      have hpowers : m.powers = [] := List.isEmpty_iff.1 hconstant
      obtain rfl := Option.some.inj hk
      simpa [Monomial.valueAt, hpowers, eq_comm] using hvalue
    · cases hk
  · cases hk

/-- The sum has the sum of the values. -/
theorem HasValue.add (hp : HasValue b p x) (hq : HasValue b q y) :
    HasValue b (p.add q) (x + y) := by
  have h := hasValue_ofMonomials (b := b) (p.monomials ++ q.monomials)
    (List.forall_mem_append.2 ⟨hp.integral, hq.integral⟩)
    (List.forall_mem_append.2 ⟨hp.binds, hq.binds⟩)
  rwa [sumAt_append, hp.value, hq.value] at h

/-- The difference has the difference of the values. -/
theorem HasValue.sub (hp : HasValue b p x) (hq : HasValue b q y) :
    HasValue b (p.sub q) (x - y) := by
  have hnegate (ms : List (Monomial K K)) :
      sumAt b.total (ms.map .negate) = -sumAt b.total ms := by
    induction ms with
    | nil => simp
    | cons m ms ih =>
      rw [List.map_cons, sumAt_cons, ih, sumAt_cons, Monomial.valueAt, Monomial.negate,
        Monomial.withCoefficient, Monomial.valueAt]
      ring
  have hintegral : ∀ m ∈ q.monomials.map Monomial.negate, IntegralPowers m.powers :=
    List.forall_mem_map.2 fun m hm => hq.integral m hm
  have hbinds : b.Binds (q.monomials.map Monomial.negate) :=
    List.forall_mem_map.2 fun m hm => hq.binds m hm
  have h := hasValue_ofMonomials (b := b) (p.monomials ++ q.monomials.map .negate)
    (List.forall_mem_append.2 ⟨hp.integral, hintegral⟩)
    (fun m hm => (List.mem_append.1 hm).elim (hp.binds m) (hbinds m))
  rwa [sumAt_append, hnegate, hp.value, hq.value, ← sub_eq_add_neg] at h

/-- The products of all pairs of monomials add up to the product of the sums. -/
theorem sumAt_products (hpow : ExactPowers K) {values : Char → K} (hvalues : ∀ c, values c ≠ 0)
    {ms ns : List (Monomial K K)} (hms : ∀ m ∈ ms, IntegralPowers m.powers)
    (hns : ∀ n ∈ ns, IntegralPowers n.powers) :
    sumAt values (ms.flatMap fun m => ns.map fun n => m.mul n) =
      sumAt values ms * sumAt values ns := by
  have hrow {m : Monomial K K} (hm : IntegralPowers m.powers) :
      sumAt values (ns.map fun n => m.mul n) = m.valueAt values * sumAt values ns := by
    induction ns with
    | nil => simp
    | cons n ns ih =>
      obtain ⟨hn, hns⟩ := List.forall_mem_cons.1 hns
      obtain ⟨-, hvalue⟩ := Monomial.valueAt_mul hpow hvalues hm hn
      rw [List.map_cons, sumAt_cons, hvalue, ih hns, sumAt_cons, mul_add]
  induction ms with
  | nil => simp
  | cons m ms ih =>
    obtain ⟨hm, hms⟩ := List.forall_mem_cons.1 hms
    rw [List.flatMap_cons, sumAt_append, hrow hm, ih hms, sumAt_cons, add_mul]

/-- The product has the product of the values. -/
theorem HasValue.mul (hpow : ExactPowers K) (hb : ∀ c, b.total c ≠ 0) (hp : HasValue b p x)
    (hq : HasValue b q y) : HasValue b (p.mul q) (x * y) := by
  let products := p.monomials.flatMap fun m => q.monomials.map fun n => m.mul n
  have hintegral : ∀ m ∈ products, IntegralPowers m.powers := by
    intro product hproduct
    obtain ⟨m, hm, hrow⟩ := List.mem_flatMap.1 hproduct
    obtain ⟨n, hn, rfl⟩ := List.mem_map.1 hrow
    exact (Monomial.valueAt_mul hpow hb (hp.integral m hm) (hq.integral n hn)).1
  have hbinds : b.Binds products := by
    intro product hproduct power hpower
    obtain ⟨m, hm, hrow⟩ := List.mem_flatMap.1 hproduct
    obtain ⟨n, hn, rfl⟩ := List.mem_map.1 hrow
    obtain ⟨factor, hfactor, heq⟩ := Monomial.mem_packPowers hpower
    rw [heq]
    rcases List.mem_append.1 hfactor with hfactor | hfactor
    · exact hp.binds m hm factor hfactor
    · exact hq.binds n hn factor hfactor
  have h := hasValue_ofMonomials products hintegral hbinds
  rwa [sumAt_products hpow hb hp.integral hq.integral, hp.value, hq.value] at h

/-- The reciprocal of a single monomial has the inverse value. -/
theorem HasValue.reciprocal (hpow : ExactPowers K) (hb : ∀ c, b.total c ≠ 0) {m : Monomial K K}
    (h : HasValue b ⟨[m]⟩ x) : HasValue b ⟨[m.reciprocal]⟩ x⁻¹ := by
  have hm : IntegralPowers m.powers := h.integral m List.mem_cons_self
  have hne : m.coefficient ≠ 0 := h.reduced.nonzero m List.mem_cons_self
  have hx : m.valueAt b.total = x := by simpa using h.value
  obtain ⟨hintegral, hvalue⟩ := Monomial.valueAt_reciprocal hpow hb hm
  constructor
  · exact ⟨List.pairwise_singleton _ _, by simpa [Monomial.reciprocal] using hne⟩
  · simpa [Integral] using hintegral
  · have hbinds := h.binds m List.mem_cons_self
    simpa [Assignment.Binds, Monomial.reciprocal] using hbinds
  · simpa [hx] using hvalue

/-- A polynomial with a constant ratio to a divisor of as many monomials is that multiple of it. -/
theorem HasValue.eq_mul_of_commonRatio? (hq : HasValue b q y)
    (hsize : q.size = p.size) {k : K} (h : commonRatio? p none q.monomials = some k) :
    sumAt b.total p.monomials = k * y := by
  have hscaled (ns : List (Monomial K K)) :
      sumAt b.total (ns.map fun n => n.withCoefficient (k * n.coefficient)) =
        k * sumAt b.total ns := by
    induction ns with
    | nil => simp
    | cons n ns ih =>
      rw [List.map_cons, sumAt_cons, ih, sumAt_cons, Monomial.valueAt, Monomial.valueAt,
        Monomial.withCoefficient]
      ring
  have hperm := perm_of_commonRatio? hq.reduced.distinct hq.reduced.nonzero hsize h
  rw [← sumAt_perm hperm, hscaled, hq.value]

/-- A quotient that is a polynomial has the quotient of the values. -/
theorem HasValue.div (hpow : ExactPowers K) (hb : ∀ c, b.total c ≠ 0) (hp : HasValue b p x)
    (hq : HasValue b q y) (hy : y ≠ 0) (h : p.div q = some r) : HasValue b r (x / y) := by
  obtain ⟨single, hsingle, rfl⟩ | ⟨-, -, hsize, k, hk, rfl⟩ := div_eq_some_iff.1 h
  · have hq' : HasValue b ⟨[single]⟩ y := by rwa [← hsingle]
    rw [div_eq_mul_inv]
    exact hp.mul hpow hb (hq'.reciprocal hpow hb)
  · have hx := hq.eq_mul_of_commonRatio? hsize hk
    rw [hp.value] at hx
    rw [hx, mul_div_cancel_right₀ _ hy]
    exact hasValue_constant b k

/-- A power with an integer as exponent has the power of the value. -/
theorem HasValue.pow (hpow : ExactPowers K) (hb : ∀ c, b.total c ≠ 0) (hp : HasValue b p x)
    (hq : HasValue b q y) (hinteger : ∀ k, q.constant? = some k → ∃ n : ℤ, k = n)
    (h : p.pow q = some r) : HasValue b r (Primitives.pow x y) := by
  obtain ⟨k, hk, hcases⟩ := pow_eq_some_iff.1 h
  obtain rfl := hq.eq_of_constant? hk
  obtain ⟨hnil, rfl⟩ | ⟨m, hsingle, rfl⟩ := hcases
  · have hx : x = 0 := by simpa [hnil] using hp.value.symm
    rw [hx]
    exact hasValue_constant b _
  · obtain ⟨n, rfl⟩ := hinteger _ hk
    have hm : m ∈ p.monomials := by simp [hsingle]
    have hne := hp.reduced.nonzero m hm
    have hx : m.valueAt b.total = x := by simpa [hsingle] using hp.value
    have hxne : x ≠ 0 := hx ▸ mul_ne_zero hne (powersAt_ne_zero hpow hb (hp.integral m hm))
    obtain ⟨hintegral, hvalue⟩ := Monomial.valueAt_pow hpow hb (hp.integral m hm) hne n
    have hbinds : b.Binds [m.pow (n : K)] := by
      intro m' hm' power hpower
      obtain rfl := List.mem_singleton.1 hm'
      obtain ⟨factor, hfactor, heq⟩ := Monomial.mem_packPowers hpower
      obtain ⟨power', hpower', rfl⟩ := List.mem_map.1 hfactor
      rw [heq]
      exact hp.binds m hm power' hpower'
    have h := hasValue_ofMonomials [m.pow (n : K)] (by simpa using hintegral) hbinds
    rwa [sumAt_cons, sumAt_nil, add_zero, hvalue, hx, ← hpow x n hxne] at h

end Polynomial

end Calculator
