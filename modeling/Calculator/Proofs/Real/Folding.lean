import Calculator.Proofs.Expression.Induction
import Calculator.Proofs.Polynomial.Constant
import Calculator.Proofs.Real.Scalar
import Calculator.Simplification.Expression

/-!
# Folded powers of real numbers

The power of a monomial by a constant is folded by raising its coefficient and multiplying its
exponents. In exact real arithmetic this gives the power of the value for every integer exponent.
For another exponent it does so only with a positive coefficient, with integers as the new exponents
of unknowns with negative values, and where an even number of these is odd or the value is zero.
-/

namespace Calculator

open PartialReal (real)

variable {b : Assignment PartialReal} {c k v w : ℝ}

/-- Unknowns and exponents of factors that are raised. -/
theorem Factor.map_power_raise (k : ℝ) (ts : List Factor) :
    (ts.map Factor.power).map (fun p => (p.1, p.2 * real k)) =
      (ts.map (Factor.raise k)).map Factor.power := by
  rw [List.map_map, List.map_map]
  rfl

namespace Monomial

/-- The power of a monomial of factors is the product of the raised factors, where the coefficient
has that power and all of these are defined. -/
theorem evaluate_pow_iff {ts : List Factor} (hts : ∀ t ∈ ts, b.Gives t)
    (hincreasing : (ts.map Factor.power).Pairwise fun p q => p.1 < q.1) :
    (Monomial.pow ⟨real c, ts.map Factor.power⟩ (real k)).evaluate b = .ok (real w) ↔
      HasPower c k ∧ (∀ t ∈ ts, (t.raise k).IsDefined) ∧
        w = c ^ k * Factor.product (ts.map (Factor.raise k)) := by
  let keep : Factor → Bool := fun t => real t.exponent != 0
  have hkeep : ∀ t ∈ ts.map (Factor.raise k), keep t = false → t.exponent = 0 := by
    intro t _ hfalse
    by_contra hne
    exact absurd (PartialReal.real_bne_zero.2 hne) (Bool.eq_false_iff.1 hfalse)
  obtain ⟨hdefined, hproduct⟩ := Factor.isDefined_and_product_filter hkeep
  have hraised : ∀ t ∈ (ts.map (Factor.raise k)).filter keep, b.Gives t := by
    intro t ht
    obtain ⟨s, hs, rfl⟩ := List.mem_map.1 (List.mem_filter.1 ht).1
    exact hts s hs
  have hpowers : packPowers ((ts.map Factor.power).map fun p => (p.1, p.2 * real k)) =
      ((ts.map (Factor.raise k)).filter keep).map Factor.power := by
    have hmapped : ((ts.map Factor.power).map fun p => (p.1, p.2 * real k)).Pairwise
        fun p q => p.1 < q.1 := List.pairwise_map.2 hincreasing
    rw [packPowers_eq_filter hmapped, Factor.map_power_raise, List.filter_map]
    rfl
  rw [pow, ofPowers, hpowers, evaluate_factors_iff hraised, hdefined, hproduct,
    List.forall_mem_map]
  constructor
  · rintro ⟨u, hu, hdefined, rfl⟩
    obtain ⟨_, _, hbase, hexponent, hpower, rfl⟩ := PartialReal.pow_eq_real_iff.1 hu
    obtain rfl := PartialReal.real.inj hbase
    obtain rfl := PartialReal.real.inj hexponent
    exact ⟨hpower, hdefined, rfl⟩
  · rintro ⟨hpower, hdefined, rfl⟩
    exact ⟨c ^ k, if_pos hpower, hdefined, rfl⟩

end Monomial

/-- The unknown has a negative value. -/
def Assignment.IsNegative (b : Assignment PartialReal) (symbol : Char) : Prop :=
  ∃ x < 0, b symbol = some (real x)

open scoped Classical in
/-- What the power of a monomial with the value `v` asks for if its exponent is no integer: a
positive coefficient, and integers as the exponents of unknowns with negative values, an even number
of them odd unless the value is zero. -/
structure Monomial.KeepsPower (b : Assignment PartialReal) (k v : ℝ)
    (m : Monomial PartialReal PartialReal) : Prop where
  coefficient : ∃ c, 0 < c ∧ m.coefficient = real c
  integers : ∀ p ∈ m.powers, b.IsNegative p.1 → ∃ n : ℤ, p.2 * real k = real n
  signs : v = 0 ∨ Even (m.powers.countP fun p =>
    b.IsNegative p.1 ∧ ∃ n : ℤ, Odd n ∧ p.2 * real k = real n)

/-- A factor with a negative base is one of an unknown with a negative value. -/
theorem Assignment.Gives.isNegative_iff {t : Factor} (h : b.Gives t) :
    b.IsNegative t.power.1 ↔ t.base < 0 := by
  constructor
  · rintro ⟨x, hx, heq⟩
    obtain rfl := PartialReal.real.inj (Option.some.inj (h.symm.trans heq))
    exact hx
  · exact fun hneg => ⟨t.base, hneg, h⟩

open scoped Classical in
/-- What the power of a monomial of factors asks for. -/
theorem Monomial.keepsPower_iff {ts : List Factor} (hts : ∀ t ∈ ts, b.Gives t) :
    Monomial.KeepsPower b k v ⟨real c, ts.map Factor.power⟩ ↔
      0 < c ∧ (∀ t ∈ ts, t.base < 0 → ∃ n : ℤ, t.exponent * k = n) ∧
        (v = 0 ∨ Even ((ts.map (Factor.raise k)).countP fun t => t.IsNegative)) := by
  have hexponent (t : Factor) (n : ℤ) :
      t.power.2 * real k = real n ↔ t.exponent * k = n := by
    rw [Factor.power, PartialReal.real_mul_real, PartialReal.real.injEq]
  have hcount : ((ts.map Factor.power).countP fun p =>
      b.IsNegative p.1 ∧ ∃ n : ℤ, Odd n ∧ p.2 * real k = real n) =
        (ts.map (Factor.raise k)).countP fun t => t.IsNegative := by
    rw [List.countP_map, List.countP_map]
    refine List.countP_congr fun t ht => ?_
    simp only [Function.comp_apply, decide_eq_true_eq, (hts t ht).isNegative_iff, hexponent]
    rfl
  constructor
  · rintro ⟨⟨_, hc, heq⟩, hintegers, hsigns⟩
    obtain rfl := PartialReal.real.inj heq
    refine ⟨hc, fun t ht hneg => ?_, hcount ▸ hsigns⟩
    obtain ⟨n, hn⟩ :=
      hintegers t.power (List.mem_map_of_mem ht) ((hts t ht).isNegative_iff.2 hneg)
    exact ⟨n, (hexponent t n).1 hn⟩
  · rintro ⟨hc, hintegers, hsigns⟩
    refine ⟨⟨c, hc, rfl⟩, List.forall_mem_map.2 fun t ht hneg => ?_, hcount.symm ▸ hsigns⟩
    obtain ⟨n, hn⟩ := hintegers t ht ((hts t ht).isNegative_iff.1 hneg)
    exact ⟨n, (hexponent t n).2 hn⟩

namespace Polynomial

/-- A polynomial of at most one monomial, as packing makes it. -/
structure PackedTerm (p : Polynomial PartialReal PartialReal) : Prop where
  size : p.size ≤ 1
  powers : ∀ m ∈ p.monomials, Monomial.PackedPowers m.powers
  nonzero : ∀ m ∈ p.monomials, (m.coefficient != 0) = true

/-- A real number as a polynomial is read as that number, and has it as its value. -/
theorem constant_real (b : Assignment PartialReal) (x : ℝ) :
    (constant (real x) : Polynomial PartialReal PartialReal).constant? = some (real x) ∧
      (constant (real x)).evaluate b = .ok (real x) := by
  by_cases hx : x = 0
  · have hzero : (real x != 0) = false :=
      Bool.eq_false_iff.2 fun hne => PartialReal.real_bne_zero.1 hne hx
    rw [constant_of_zero hzero, hx]
    exact ⟨rfl, rfl⟩
  · rw [constant_of_ne_zero (PartialReal.real_bne_zero.2 hx), evaluate_singleton]
    exact ⟨rfl, rfl⟩

/-- A power of a number other than zero does not equal zero, also where it is undefined. -/
theorem pow_bne_zero (hc : c ≠ 0) : (Primitives.pow (real c) (real k) != 0) = true := by
  by_cases hpower : HasPower c k
  · have hvalue : Primitives.pow (real c) (real k) = real (c ^ k) := if_pos hpower
    rw [hvalue, PartialReal.real_bne_zero]
    exact hpower.rpow_ne_zero hc
  · have hvalue : Primitives.pow (real c) (real k) = .undefined := if_neg hpower
    rw [hvalue]
    rfl

/-- The folded power of a monomial has the power of its value for an integer exponent, and for
another one if the monomial keeps it. -/
theorem evaluate_pow_singleton_iff {m : Monomial PartialReal PartialReal}
    (hm : Monomial.PackedPowers m.powers) (hne : (m.coefficient != 0) = true)
    (hv : m.evaluate b = .ok (real v)) (hw : Primitives.pow (real v) (real k) = real w) :
    (ofMonomials [m.pow (real k)]).evaluate b = .ok (real w) ↔
      (∃ n : ℤ, k = n) ∨ m.KeepsPower b k v := by
  obtain ⟨coefficient, powers⟩ := m
  obtain ⟨ts, rfl, hts⟩ := Monomial.exists_factors hv
  obtain ⟨c, rfl, hdefined, rfl⟩ := (Monomial.evaluate_factors_iff hts).1 hv
  have hc : c ≠ 0 := PartialReal.real_bne_zero.1 hne
  have hexponents : ∀ t ∈ ts, t.exponent ≠ 0 := fun t ht =>
    PartialReal.real_bne_zero.1 (hm.nonzero t.power (List.mem_map_of_mem ht))
  obtain ⟨_, _, hbase, hexponent, hpower, rfl⟩ := PartialReal.pow_eq_real_iff.1 hw
  obtain rfl := PartialReal.real.inj hbase
  obtain rfl := PartialReal.real.inj hexponent
  have hkept : ((Monomial.pow ⟨real c, ts.map Factor.power⟩ (real k)).coefficient != 0) = true :=
    pow_bne_zero hc
  rw [ofMonomials_singleton, if_pos hkept, evaluate_singleton,
    Monomial.evaluate_pow_iff hts hm.increasing, Monomial.keepsPower_iff hts,
    ← Factor.raise_iff hexponents hdefined hpower hc, eq_comm]

/-- The power of a packed polynomial of at most one monomial by a constant is folded. -/
theorem PackedTerm.exists_pow_iff {p : Polynomial PartialReal PartialReal} (hp : p.PackedTerm)
    (hv : p.evaluate b = .ok (real v)) (hw : Primitives.pow (real v) (real k) = real w) :
    ∃ q, p.pow (constant (real k)) = some q ∧
      (q.evaluate b = .ok (real w) ↔
        (∃ n : ℤ, k = n) ∨ ∀ m ∈ p.monomials, m.KeepsPower b k v) := by
  obtain ⟨hk, -⟩ := constant_real b k
  obtain ⟨ms⟩ := p
  rw [pow, hk]
  cases ms with
  | nil =>
    obtain rfl : (0 : ℝ) = v := PartialReal.real.inj (Except.ok.inj hv)
    refine ⟨constant (real w), ?_, iff_of_true (constant_real b w).2 (.inr ?_)⟩
    · rw [constant, ← hw, ← PartialReal.zero_eq, ← Monomial.pow_constant]
    · exact List.forall_mem_nil _
  | cons m ms =>
    cases ms with
    | nil =>
      rw [evaluate_singleton] at hv
      refine ⟨_, rfl, ?_⟩
      rw [evaluate_pow_singleton_iff (hp.powers m (by simp)) (hp.nonzero m (by simp)) hv hw]
      simp
    | cons n ms =>
      have hsize := hp.size
      simp [Polynomial.size] at hsize

end Polynomial

/-- A power node whose operands simplify to a packed polynomial of at most one monomial and to a
constant, with their values kept, is folded into a polynomial. In exact real arithmetic that has the
power of the values as its value exactly if the exponent is an integer or the monomial keeps it. -/
theorem Polynomial.PackedTerm.exists_folded_power_iff {p : Polynomial PartialReal PartialReal}
    (hp : p.PackedTerm) (hv : p.evaluate b = .ok (real v))
    (hw : Primitives.pow (real v) (real k) = real w) :
    ∃ q, p.pow (constant (real k)) = some q ∧
      (q.evaluate b = .ok (real w) ↔
        (∃ n : ℤ, k = n) ∨ ∀ m ∈ p.monomials, m.KeepsPower b k v) ∧
      ∀ left right : Expression PartialReal,
        left.simplifyAt 1 = .ok (.value p) → left.evaluateAt b 1 = .ok (real v) →
        right.simplifyAt 1 = .ok (.constant (real k)) → right.evaluateAt b 1 = .ok (real k) →
        (Expression.operation .pow (some left) (some right)).evaluate b = .ok (real w) ∧
          (Expression.operation .pow (some left) (some right)).simplify = .ok (.value q) := by
  obtain ⟨q, hq, hiff⟩ := hp.exists_pow_iff hv hw
  refine ⟨q, hq, hiff, fun left right hleft hleftValue hright hrightValue => ⟨?_, ?_⟩⟩
  · refine (Expression.evaluateAt_operation_eq_ok_iff (Nat.zero_le _)).2
      ⟨real v, hleftValue, real k, hrightValue, ?_⟩
    rw [Operator.apply, hw]
  · refine (Expression.simplifyAt_operation_eq_ok_iff (Nat.zero_le _)).2
      ⟨_, Expression.simplifyOperand_some_eq_ok_iff.2 ⟨_, hleft, rfl⟩,
        _, Expression.simplifyOperand_some_eq_ok_iff.2 ⟨_, hright, rfl⟩, ?_⟩
    have hfold : Operator.pow.fold? p (constant (real k)) = some q := hq
    simp only [Operator.combine, Operator.operandPolynomial?, Expression.polynomial?,
      Expression.constant, hfold]

/-- The power of an unknown. -/
def unknownPower (e : ℝ) : Polynomial PartialReal PartialReal :=
  ⟨[⟨real 1, [('x', real e)]⟩]⟩

/-- The unknown has the value minus two. -/
noncomputable def minusTwo : Assignment PartialReal :=
  Assignment.empty.bind 'x' (real (-2))

/-- The power of the unknown is one of minus two. -/
theorem minusTwo_gives (e : ℝ) : ∀ t ∈ [(⟨'x', -2, e⟩ : Factor)], minusTwo.Gives t :=
  List.forall_mem_singleton.2 rfl

/-- A power of an unknown is packed, unless its exponent is zero. -/
theorem packedTerm_unknownPower {e : ℝ} (he : e ≠ 0) : (unknownPower e).PackedTerm where
  size := le_rfl
  powers := List.forall_mem_singleton.2 ⟨List.pairwise_singleton _ _,
    List.forall_mem_singleton.2 (PartialReal.real_bne_zero.2 he)⟩
  nonzero := List.forall_mem_singleton.2 (PartialReal.real_bne_zero.2 one_ne_zero)

/-- An even power of the unknown has the value of the power of two. -/
theorem evaluate_unknownPower {e : ℝ} {n : ℕ} (he : e = n) (hn : Even n) :
    (unknownPower e).evaluate minusTwo = .ok (real (2 ^ n)) := by
  rw [unknownPower, Polynomial.evaluate_singleton]
  refine (Monomial.evaluate_factors_iff (minusTwo_gives e)).2
    ⟨1, rfl, List.forall_mem_singleton.2 ?_, ?_⟩
  · exact .inr (.inr ⟨by norm_num, n, by simp [he]⟩)
  · simp [Factor.value, he, hn.neg_pow]

/-- The square root of the square of a positive number. -/
theorem pow_half {u : ℝ} (hu : 0 < u) :
    Primitives.pow (real (u ^ 2)) (real (1 / 2)) = real u := by
  refine PartialReal.pow_eq_real_iff.2 ⟨_, _, rfl, rfl, .inl (pow_pos hu 2), ?_⟩
  rw [← Real.sqrt_eq_rpow, Real.sqrt_sq hu.le]

/-- A power of the unknown keeps a further one at minus two if that makes its exponent even. -/
theorem keepsPower_unknownPower {e k v : ℝ} {n : ℤ} (hn : e * k = n) (hv : v ≠ 0) :
    Monomial.KeepsPower minusTwo k v ⟨real 1, [('x', real e)]⟩ ↔ Even n := by
  classical
  have hnegative : Factor.IsNegative (Factor.raise k ⟨'x', -2, e⟩) ↔ Odd n := by
    constructor
    · rintro ⟨-, m, hm, heq⟩
      obtain rfl : n = m := Int.cast_injective (hn.symm.trans heq)
      exact hm
    · exact fun hodd => ⟨by norm_num [Factor.raise], n, hodd, hn⟩
  have hinteger : ∀ t ∈ [(⟨'x', -2, e⟩ : Factor)], t.base < 0 → ∃ n : ℤ, t.exponent * k = n :=
    List.forall_mem_singleton.2 fun _ => ⟨n, hn⟩
  refine (Monomial.keepsPower_iff (minusTwo_gives e)).trans ?_
  rw [and_iff_right one_pos, and_iff_right hinteger, or_iff_right hv, List.map_singleton,
    List.countP_singleton]
  by_cases hodd : Odd n
  · simp [hnegative, hodd, Int.not_even_iff_odd.2 hodd]
  · simp [hnegative, hodd, Int.not_odd_iff_even.1 hodd]

/-- The square root of the fourth power of an unknown folds into its square, which has the value of
the root also at minus two. -/
theorem exists_folded_root :
    let root : Expression PartialReal :=
      .operation .pow (some (.value (unknownPower 4))) (some (.constant (real (1 / 2))))
    ∃ q, (unknownPower 4).pow (.constant (real (1 / 2))) = some q ∧
      q.evaluate minusTwo = .ok (real 4) ∧
      root.evaluate minusTwo = .ok (real 4) ∧ root.simplify = .ok (.value q) := by
  intro root
  have hv : (unknownPower 4).evaluate minusTwo = .ok (real (4 ^ 2)) := by
    rw [evaluate_unknownPower (n := 4) (by norm_num) (by decide)]
    norm_num
  have hkeeps : ∀ m ∈ (unknownPower 4).monomials, m.KeepsPower minusTwo (1 / 2) (4 ^ 2) :=
    List.forall_mem_singleton.2
      ((keepsPower_unknownPower (n := 2) (by norm_num) (by norm_num)).2 even_two)
  obtain ⟨q, hq, hiff, hnode⟩ := Polynomial.PackedTerm.exists_folded_power_iff
    (packedTerm_unknownPower (by norm_num)) hv (pow_half (by norm_num))
  have hhalf : (Polynomial.constant (real (1 / 2))).evaluate minusTwo = .ok (real (1 / 2)) :=
    (Polynomial.constant_real minusTwo (1 / 2)).2
  have hroot := hnode (.value (unknownPower 4)) (.constant (real (1 / 2))) rfl hv rfl hhalf
  exact ⟨q, hq, hiff.2 (.inr hkeeps), hroot⟩

/-- The square of a double times an unknown folds into the zero polynomial where the square of the
double is too small for one, whatever the value is. -/
theorem exists_folded_square_zero :
    ∃ (p q : Polynomial Float Float) (b : Assignment Float) (v k : Float),
      p.PackedIn ['x'] ∧ p.size ≤ 1 ∧ p.evaluate b = .ok v ∧
        (Primitives.pow v k).isFinite = true ∧ Primitives.pow v k > 0.5 ∧
        p.pow (.constant k) = some q ∧ q.evaluate b = .ok 0 := by
  let m : Monomial Float Float := ⟨1e-200, [('x', 1)]⟩
  have hm : m.PackedIn ['x'] :=
    ⟨⟨List.pairwise_singleton _ _, List.forall_mem_singleton.2 (by decide +kernel)⟩,
      List.forall_mem_singleton.2 List.mem_cons_self⟩
  have hpow : ((m.pow 2).coefficient != 0) = false := by decide +kernel
  refine ⟨⟨[m]⟩, .zero, Assignment.empty.bind 'x' 1e200,
    0 + 1e-200 * Primitives.pow 1e200 1, 2, ?_, le_rfl, by with_unfolding_all rfl,
    by decide +kernel, by decide +kernel, ?_, rfl⟩
  · exact ⟨List.forall_mem_singleton.2 hm, List.forall_mem_singleton.2 (by decide +kernel),
      List.pairwise_singleton _ _, List.pairwise_singleton _ _⟩
  · rw [Polynomial.pow, Polynomial.constant?_constant (by decide +kernel)]
    simp only [Polynomial.ofMonomials_singleton, hpow]
    rfl

/-- Folding a power does not always keep its value: the square root of the square of an unknown
folds into the unknown, which has another sign at minus two, and in doubles the square of a small
number times an unknown folds into zero. -/
theorem not_forall_evaluate_pow_eq :
    (¬∀ (p q : Polynomial PartialReal PartialReal) (b : Assignment PartialReal) (k v w : ℝ),
      p.PackedTerm → p.evaluate b = .ok (real v) →
        Primitives.pow (real v) (real k) = real w → p.pow (.constant (real k)) = some q →
          q.evaluate b = .ok (real w)) ∧
    ∃ (p q : Polynomial Float Float) (b : Assignment Float) (v k : Float),
      p.PackedIn ['x'] ∧ p.size ≤ 1 ∧ p.evaluate b = .ok v ∧
        (Primitives.pow v k).isFinite = true ∧ Primitives.pow v k > 0.5 ∧
        p.pow (.constant k) = some q ∧ q.evaluate b = .ok 0 := by
  refine ⟨fun h => ?_, exists_folded_square_zero⟩
  have hp : (unknownPower 2).PackedTerm := packedTerm_unknownPower two_ne_zero
  have hv : (unknownPower 2).evaluate minusTwo = .ok (real (2 ^ 2)) :=
    evaluate_unknownPower (by norm_num) even_two
  have hw := pow_half (u := 2) two_pos
  obtain ⟨q, hq, hiff⟩ := hp.exists_pow_iff hv hw
  obtain ⟨n, hn⟩ | hkeeps := hiff.1 (h _ q _ _ _ _ hp hv hw hq)
  · have htwice : 2 * (n : ℝ) = 1 := by rw [← hn]; norm_num
    have htwice : 2 * n = 1 := by exact_mod_cast htwice
    omega
  · have heven : Even (1 : ℤ) :=
      (keepsPower_unknownPower (by norm_num) (by norm_num)).1 (hkeeps _ List.mem_cons_self)
    exact absurd heven (by decide)

end Calculator
