import Mathlib.Analysis.SpecialFunctions.Pow.Real

/-!
# Powers of products of real numbers

A product of powers of real numbers is raised to a power factor by factor. With an integer as
exponent that gives the power of the product. With any other exponent it does so only where every
factor has that power, and where the signs that the factors lost with it do not come back: an even
number of the new factors is negative, or one of them is zero.
-/

namespace Calculator

/-- Whether a real number has a power that is one. -/
def HasPower (x k : ℝ) : Prop :=
  0 < x ∨ (x = 0 ∧ 0 ≤ k) ∨ (x < 0 ∧ ∃ n : ℤ, k = n)

/-- The absolute value of a power is the power of the absolute value. -/
theorem HasPower.abs_rpow {x k : ℝ} (h : HasPower x k) : |x ^ k| = |x| ^ k := by
  rcases h with hx | ⟨rfl, -⟩ | ⟨-, n, rfl⟩
  · rw [abs_of_pos (Real.rpow_pos_of_pos hx k), abs_of_pos hx]
  · rw [abs_zero, abs_of_nonneg (Real.rpow_nonneg le_rfl k)]
  · rw [Real.rpow_intCast, Real.rpow_intCast, abs_zpow]

/-- A number with a power that is no integer is not negative. -/
theorem HasPower.nonneg {x k : ℝ} (h : HasPower x k) (hk : ¬∃ n : ℤ, k = n) : 0 ≤ x := by
  rcases h with hx | ⟨rfl, -⟩ | ⟨-, hn⟩
  · exact hx.le
  · exact le_rfl
  · exact absurd hn hk

/-- Every number has the power zero. -/
theorem hasPower_zero (x : ℝ) : HasPower x 0 := by
  rcases lt_trichotomy x 0 with hx | hx | hx
  · exact .inr (.inr ⟨hx, 0, Int.cast_zero.symm⟩)
  · exact .inr (.inl ⟨hx, le_rfl⟩)
  · exact .inl hx

/-- A power of a number other than zero is not zero. -/
theorem HasPower.rpow_ne_zero {x k : ℝ} (h : HasPower x k) (hx : x ≠ 0) : x ^ k ≠ 0 := by
  rw [← abs_ne_zero, h.abs_rpow]
  exact (Real.rpow_pos_of_pos (abs_pos.2 hx) k).ne'

/-- A power of an unknown that has a value. -/
structure Factor where
  symbol : Char
  base : ℝ
  exponent : ℝ

namespace Factor

/-- Whether the power is a real number. -/
def IsDefined (t : Factor) : Prop :=
  HasPower t.base t.exponent

/-- The value of the power. -/
noncomputable def value (t : Factor) : ℝ :=
  t.base ^ t.exponent

/-- The factor to a further power, which multiplies its exponent. -/
noncomputable def raise (k : ℝ) (t : Factor) : Factor :=
  { t with exponent := t.exponent * k }

/-- Whether the factor is an odd power of a negative number. -/
def IsNegative (t : Factor) : Prop :=
  t.base < 0 ∧ ∃ n : ℤ, Odd n ∧ t.exponent = n

variable {t : Factor} {k : ℝ}

/-- A factor has the powers of the absolute value of its own. -/
theorem abs_value_raise (h : t.IsDefined) (hraise : (t.raise k).IsDefined) :
    |(t.raise k).value| = |t.value| ^ k := by
  have habs : |(t.raise k).value| = |t.base| ^ (t.exponent * k) := HasPower.abs_rpow hraise
  rw [habs, value, HasPower.abs_rpow h, Real.rpow_mul (abs_nonneg _)]

/-- A factor to an integer power has the power of its value. -/
theorem value_raise_intCast (h : t.IsDefined) (n : ℤ) : (t.raise n).value = t.value ^ n := by
  change t.base ^ (t.exponent * n) = (t.base ^ t.exponent) ^ n
  rcases h with hbase | ⟨hbase, -⟩ | ⟨-, m, hm⟩
  · rw [Real.rpow_mul hbase.le, Real.rpow_intCast]
  · rw [Real.rpow_mul hbase.ge, Real.rpow_intCast]
  · rw [hm, ← Int.cast_mul, Real.rpow_intCast, Real.rpow_intCast, zpow_mul]

/-- Only an odd power of a negative number is negative. -/
theorem value_neg_iff (h : t.IsDefined) : t.value < 0 ↔ t.IsNegative := by
  rw [value, IsNegative]
  rcases h with hbase | ⟨hbase, -⟩ | ⟨hbase, n, hn⟩
  · simp [(Real.rpow_pos_of_pos hbase t.exponent).not_gt, hbase.not_gt]
  · simp [hbase, (Real.rpow_nonneg le_rfl t.exponent).not_gt]
  · rw [hn, Real.rpow_intCast]
    constructor
    · intro hneg
      refine ⟨hbase, n, Int.not_even_iff_odd.1 fun heven => ?_, rfl⟩
      exact (heven.zpow_nonneg t.base).not_gt hneg
    · rintro ⟨-, m, hodd, hm⟩
      obtain rfl : n = m := Int.cast_injective hm
      exact hodd.zpow_neg hbase

/-- The product of the values of factors. -/
noncomputable def product (ts : List Factor) : ℝ :=
  (ts.map value).prod

@[simp] theorem product_nil : product [] = 1 := rfl

@[simp] theorem product_cons (t : Factor) (ts : List Factor) :
    product (t :: ts) = t.value * product ts := by
  simp [product]

/-- Factors with the exponent zero are defined, and may be left out of a product. -/
theorem isDefined_and_product_filter {keep : Factor → Bool} {ts : List Factor}
    (h : ∀ t ∈ ts, keep t = false → t.exponent = 0) :
    ((∀ t ∈ ts.filter keep, t.IsDefined) ↔ ∀ t ∈ ts, t.IsDefined) ∧
      product (ts.filter keep) = product ts := by
  induction ts with
  | nil => simp
  | cons t ts ih =>
    obtain ⟨ht, hts⟩ := List.forall_mem_cons.1 h
    obtain ⟨hdefined, hproduct⟩ := ih hts
    cases hkeep : keep t with
    | true =>
      rw [List.filter_cons_of_pos hkeep, List.forall_mem_cons, List.forall_mem_cons, hdefined,
        product_cons, product_cons, hproduct]
      exact ⟨Iff.rfl, rfl⟩
    | false =>
      have hzero : t.IsDefined ∧ t.value = 1 := by
        rw [IsDefined, value, ht hkeep]
        exact ⟨hasPower_zero _, Real.rpow_zero _⟩
      rw [List.filter_cons_of_neg (by simp [hkeep]), List.forall_mem_cons, hdefined, hproduct,
        product_cons, hzero.2, one_mul]
      exact ⟨(and_iff_right hzero.1).symm, rfl⟩

/-- The absolute value of a product that is raised factor by factor. -/
theorem abs_product_raise {ts : List Factor} (h : ∀ t ∈ ts, t.IsDefined)
    (hraise : ∀ t ∈ ts, (t.raise k).IsDefined) :
    |product (ts.map (raise k))| = |product ts| ^ k := by
  induction ts with
  | nil => simp
  | cons t ts ih =>
    obtain ⟨ht, hts⟩ := List.forall_mem_cons.1 h
    obtain ⟨htk, htsk⟩ := List.forall_mem_cons.1 hraise
    rw [List.map_cons, product_cons, abs_mul, abs_value_raise ht htk, ih hts htsk, product_cons,
      abs_mul, Real.mul_rpow (abs_nonneg _) (abs_nonneg _)]

/-- A product that is raised factor by factor to an integer power. -/
theorem product_raise_intCast {ts : List Factor} (h : ∀ t ∈ ts, t.IsDefined) (n : ℤ) :
    product (ts.map (raise n)) = product ts ^ n := by
  induction ts with
  | nil => simp
  | cons t ts ih =>
    obtain ⟨ht, hts⟩ := List.forall_mem_cons.1 h
    rw [List.map_cons, product_cons, value_raise_intCast ht, ih hts, product_cons, mul_zpow]

open scoped Classical in
/-- A product that is not zero is positive exactly if an even number of its factors is negative. -/
theorem product_pos_iff {ts : List Factor} (h : ∀ t ∈ ts, t.IsDefined) (hne : product ts ≠ 0) :
    0 < product ts ↔ Even (ts.countP fun t => t.IsNegative) := by
  induction ts with
  | nil => simp
  | cons t ts ih =>
    obtain ⟨ht, hts⟩ := List.forall_mem_cons.1 h
    rw [product_cons] at hne ⊢
    obtain ⟨hvalue, hproduct⟩ := ne_zero_and_ne_zero_of_mul hne
    rw [List.countP_cons]
    by_cases hneg : t.IsNegative
    · have hlt : t.value < 0 := (value_neg_iff ht).2 hneg
      have hflip : 0 < t.value * product ts ↔ ¬0 < product ts := by
        rw [mul_pos_iff, not_lt, le_iff_lt_or_eq, or_iff_left hproduct]
        simp [hlt, hlt.not_gt]
      rw [hflip, ih hts hproduct, if_pos (decide_eq_true hneg), Nat.even_add_one]
    · have hlt : 0 < t.value :=
        lt_of_le_of_ne (not_lt.1 fun hlt => hneg ((value_neg_iff ht).1 hlt)) hvalue.symm
      rw [mul_pos_iff_of_pos_left hlt, ih hts hproduct, if_neg (by simpa using hneg), add_zero]

open scoped Classical in
/-- A product with a positive coefficient that is raised factor by factor gives the power of its
value exactly if it is zero or keeps its sign. -/
theorem raise_eq_iff {c : ℝ} {ts : List Factor} (hc : 0 < c) (hk : k ≠ 0)
    (hdefined : ∀ t ∈ ts, t.IsDefined) (hraise : ∀ t ∈ ts, (t.raise k).IsDefined)
    (hnonneg : 0 ≤ c * product ts) :
    c ^ k * product (ts.map (raise k)) = (c * product ts) ^ k ↔
      c * product ts = 0 ∨ Even ((ts.map (raise k)).countP fun t => t.IsNegative) := by
  have hproduct : 0 ≤ product ts := nonneg_of_mul_nonneg_right hnonneg hc
  have habs : |product (ts.map (raise k))| = product ts ^ k := by
    rw [abs_product_raise hdefined hraise, abs_of_nonneg hproduct]
  have hsign : c ^ k * product (ts.map (raise k)) = (c * product ts) ^ k ↔
      0 ≤ product (ts.map (raise k)) := by
    rw [Real.mul_rpow hc.le hproduct, mul_right_inj' (Real.rpow_pos_of_pos hc k).ne', ← habs,
      eq_comm, abs_eq_self]
  rw [hsign, mul_eq_zero, or_iff_right hc.ne']
  by_cases hzero : product ts = 0
  · rw [hzero, Real.zero_rpow hk] at habs
    exact iff_of_true (abs_eq_zero.1 habs).ge (.inl hzero)
  · have hne : product (ts.map (raise k)) ≠ 0 :=
      abs_pos.1 (habs ▸ Real.rpow_pos_of_pos (lt_of_le_of_ne hproduct (Ne.symm hzero)) k)
    rw [or_iff_right hzero, ← product_pos_iff (List.forall_mem_map.2 hraise) hne]
    exact ⟨fun hle => lt_of_le_of_ne hle hne.symm, le_of_lt⟩

section Raise

variable {c : ℝ} {ts : List Factor} (hexponents : ∀ t ∈ ts, t.exponent ≠ 0)
  (hdefined : ∀ t ∈ ts, t.IsDefined) (hpower : HasPower (c * product ts) k)

include hexponents hdefined hpower

/-- Where a product has a power, every factor has it, or is a negative one that has not. -/
theorem isDefined_raise {t : Factor} (ht : t ∈ ts)
    (hneg : t.base < 0 → ∃ n : ℤ, t.exponent * k = n) : (t.raise k).IsDefined := by
  rcases hdefined t ht with hbase | ⟨hbase, hexponent⟩ | ⟨hbase, -⟩
  · exact .inl hbase
  · -- A factor of zero makes the product zero, which has only powers that are not negative.
    have hvalue : t.value = 0 := by
      rw [value, hbase, Real.zero_rpow (hexponents t ht)]
    have hzero : c * product ts = 0 := by
      rw [product, List.prod_eq_zero (List.mem_map.2 ⟨t, ht, hvalue⟩), mul_zero]
    rw [hzero] at hpower
    have hk : 0 ≤ k := by simpa [HasPower] using hpower
    exact .inr (.inl ⟨hbase, mul_nonneg hexponent hk⟩)
  · exact .inr (.inr ⟨hbase, hneg hbase⟩)

variable (hc : c ≠ 0)

include hc

/-- A product is raised factor by factor to every integer power. -/
theorem raise_of_integer {n : ℤ} (hk : k = n) :
    HasPower c k ∧ (∀ t ∈ ts, (t.raise k).IsDefined) ∧
      c ^ k * product (ts.map (raise k)) = (c * product ts) ^ k := by
  refine ⟨?_, fun t ht => isDefined_raise hexponents hdefined hpower ht fun hneg => ?_, ?_⟩
  · rcases hc.lt_or_gt with hlt | hlt
    · exact .inr (.inr ⟨hlt, n, hk⟩)
    · exact .inl hlt
  · rcases hdefined t ht with hbase | ⟨hbase, -⟩ | ⟨-, m, hm⟩
    · exact absurd hbase hneg.not_gt
    · exact absurd hbase hneg.ne
    · exact ⟨m * n, by rw [hm, hk, Int.cast_mul]⟩
  · rw [hk, product_raise_intCast hdefined, Real.rpow_intCast, Real.rpow_intCast, mul_zpow]

open scoped Classical in
/-- A product with a positive coefficient is raised factor by factor to another power exactly if
its negative factors have that power and the product is zero or keeps its sign. -/
theorem raise_iff_of_not_integer (hk : ¬∃ n : ℤ, k = n) :
    (HasPower c k ∧ (∀ t ∈ ts, (t.raise k).IsDefined) ∧
        c ^ k * product (ts.map (raise k)) = (c * product ts) ^ k) ↔
      0 < c ∧ (∀ t ∈ ts, t.base < 0 → ∃ n : ℤ, t.exponent * k = n) ∧
        (c * product ts = 0 ∨ Even ((ts.map (raise k)).countP fun t => t.IsNegative)) := by
  have hnonneg : 0 ≤ c * product ts := hpower.nonneg hk
  have hkne : k ≠ 0 := fun hzero => hk ⟨0, by rw [hzero, Int.cast_zero]⟩
  constructor
  · rintro ⟨hcoefficient, hraise, heq⟩
    have hpositive : 0 < c := lt_of_le_of_ne (hcoefficient.nonneg hk) hc.symm
    refine ⟨hpositive, fun t ht hneg => ?_,
      (raise_eq_iff hpositive hkne hdefined hraise hnonneg).1 heq⟩
    rcases hraise t ht with hbase | ⟨hbase, -⟩ | ⟨-, hn⟩
    · exact absurd hbase hneg.not_gt
    · exact absurd hbase hneg.ne
    · exact hn
  · rintro ⟨hpositive, hneg, heven⟩
    have hraise : ∀ t ∈ ts, (t.raise k).IsDefined := fun t ht =>
      isDefined_raise hexponents hdefined hpower ht (hneg t ht)
    exact ⟨.inl hpositive, hraise,
      (raise_eq_iff hpositive hkne hdefined hraise hnonneg).2 heven⟩

open scoped Classical in
/-- A product is raised factor by factor to its power exactly if the exponent is an integer, or if
the coefficient is positive, the negative factors have that power, and the product is zero or keeps
its sign. -/
theorem raise_iff :
    (HasPower c k ∧ (∀ t ∈ ts, (t.raise k).IsDefined) ∧
        c ^ k * product (ts.map (raise k)) = (c * product ts) ^ k) ↔
      (∃ n : ℤ, k = n) ∨ (0 < c ∧ (∀ t ∈ ts, t.base < 0 → ∃ n : ℤ, t.exponent * k = n) ∧
        (c * product ts = 0 ∨ Even ((ts.map (raise k)).countP fun t => t.IsNegative))) := by
  by_cases hk : ∃ n : ℤ, k = n
  · obtain ⟨n, hn⟩ := hk
    exact iff_of_true (raise_of_integer hexponents hdefined hpower hc hn) (.inl ⟨n, hn⟩)
  · rw [or_iff_right hk]
    exact raise_iff_of_not_integer hexponents hdefined hpower hc hk

end Raise

end Factor

end Calculator
