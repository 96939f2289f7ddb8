import Mathlib.Analysis.SpecialFunctions.Log.Basic
import Mathlib.Analysis.SpecialFunctions.Trigonometric.Basic
import Mathlib.Data.Nat.Factorial.Basic
import Calculator.Evaluation.Assignment
import Calculator.Proofs.Polynomial.Packing
import Calculator.Proofs.Real.Power

/-!
# Exact real arithmetic

Real numbers as scalars, with one more for what is undefined, such as the square root of a negative
number; an operation on that is undefined again. A monomial with a value that is a real number is a
real number times powers of real numbers, all of which are defined.
-/

namespace Calculator

/-- What exact arithmetic on real numbers results in. -/
inductive PartialReal
  | undefined
  | real (x : ℝ)

namespace PartialReal

/-- A function of a real number, undefined where its argument is. -/
def lift (f : ℝ → PartialReal) : PartialReal → PartialReal
  | undefined => undefined
  | real x => f x

/-- A function of two real numbers, undefined where one of its arguments is. -/
def lift₂ (f : ℝ → ℝ → PartialReal) : PartialReal → PartialReal → PartialReal
  | real x, real y => f x y
  | _, _ => undefined

/-- Whether a property of real numbers holds, which it does not of what is undefined. -/
noncomputable def satisfies (P : ℝ → Prop) : PartialReal → Bool
  | undefined => false
  | real x => open scoped Classical in decide (P x)

open scoped Classical in
/-- Real numbers as scalars. What is undefined equals nothing and is below every real number. -/
noncomputable instance : Scalar PartialReal where
  add := lift₂ fun x y => real (x + y)
  sub := lift₂ fun x y => real (x - y)
  mul := lift₂ fun x y => real (x * y)
  div := lift₂ fun x y => if y = 0 then undefined else real (x / y)
  neg := lift fun x => real (-x)
  zero := real 0
  one := real 1
  beq
    | real x, real y => decide (x = y)
    | _, _ => false
  compare
    | undefined, undefined => .eq
    | undefined, real _ => .lt
    | real _, undefined => .gt
    | real x, real y => compare x y
  pow := lift₂ fun x k => if HasPower x k then real (x ^ k) else undefined
  modulo := lift₂ fun x y => if y = 0 then undefined else real (x - |y| * ⌊x / |y|⌋)
  isNatural := satisfies fun x => ∃ n : ℕ, x = n
  factorial := lift fun x => real (⌊x⌋₊.factorial : ℕ)
  isNonpositive := satisfies fun x => x ≤ 0
  sin := lift fun x => real (Real.sin x)
  cos := lift fun x => real (Real.cos x)
  ln := lift fun x => if 0 < x then real (Real.log x) else undefined

variable {x y : PartialReal} {u v w k : ℝ}

/-- Zero is the real number. -/
theorem zero_eq : (0 : PartialReal) = real 0 := rfl

/-- Real numbers are multiplied as such. -/
@[simp] theorem real_mul_real (u v : ℝ) : real u * real v = real (u * v) := rfl

/-- Adding zero changes nothing. -/
@[simp] theorem zero_add_eq (x : PartialReal) : 0 + x = x := by
  cases x with
  | undefined => rfl
  | real u => exact congrArg real (zero_add u)

/-- A product is a real number if its factors are. -/
theorem mul_eq_real_iff : x * y = real w ↔ ∃ u v, x = real u ∧ y = real v ∧ w = u * v := by
  constructor
  · intro h
    cases x with
    | undefined => cases h
    | real u =>
      cases y with
      | undefined => cases h
      | real v => exact ⟨u, v, rfl, rfl, (real.inj h).symm⟩
  · rintro ⟨u, v, rfl, rfl, rfl⟩
    rfl

/-- A power is a real number if it is the power of one that has it. -/
theorem pow_eq_real_iff : Primitives.pow x y = real w ↔
    ∃ u k, x = real u ∧ y = real k ∧ HasPower u k ∧ w = u ^ k := by
  constructor
  · intro h
    cases x with
    | undefined => cases h
    | real u =>
      cases y with
      | undefined => cases h
      | real k =>
        by_cases hpower : HasPower u k
        · have hvalue : Primitives.pow (real u) (real k) = real (u ^ k) := if_pos hpower
          exact ⟨u, k, rfl, rfl, hpower, real.inj (h.symm.trans hvalue)⟩
        · have hvalue : Primitives.pow (real u) (real k) = undefined := if_neg hpower
          cases hvalue.symm.trans h
  · rintro ⟨u, k, rfl, rfl, hpower, rfl⟩
    exact if_pos hpower

/-- A real number differs from zero as such. -/
theorem real_bne_zero : (real u != 0) = true ↔ u ≠ 0 := by
  change (!decide (u = 0)) = true ↔ u ≠ 0
  simp

end PartialReal

open PartialReal (real)

/-- The power of an unknown in a monomial. -/
def Factor.power (t : Factor) : Char × PartialReal :=
  (t.symbol, real t.exponent)

variable {b : Assignment PartialReal}

/-- The factor is a power of the value of its unknown. -/
def Assignment.Gives (b : Assignment PartialReal) (t : Factor) : Prop :=
  b t.symbol = some (real t.base)

namespace Monomial

variable {c : PartialReal} {v : ℝ}

/-- The first power is multiplied onto the coefficient. -/
theorem evaluate_cons {x : PartialReal} {p : Char × PartialReal} (hp : b p.1 = some x)
    (c : PartialReal) (ps : List (Char × PartialReal)) :
    Monomial.evaluate b ⟨c, p :: ps⟩ = Monomial.evaluate b ⟨c * Primitives.pow x p.2, ps⟩ := by
  simp only [Monomial.evaluate, List.foldlM_cons, hp]
  rfl

/-- A monomial of given factors has the product as its value, if all of them are defined. -/
theorem evaluate_factors_iff {ts : List Factor} (hts : ∀ t ∈ ts, b.Gives t) :
    Monomial.evaluate b ⟨c, ts.map Factor.power⟩ = .ok (real v) ↔
      ∃ u, c = real u ∧ (∀ t ∈ ts, t.IsDefined) ∧ v = u * Factor.product ts := by
  induction ts generalizing c with
  | nil =>
    constructor
    · intro h
      exact ⟨v, Except.ok.inj h, nofun, by simp⟩
    · rintro ⟨u, rfl, -, rfl⟩
      simp [Monomial.evaluate, pure, Except.pure]
  | cons t ts ih =>
    obtain ⟨ht, hts⟩ := List.forall_mem_cons.1 hts
    rw [List.map_cons, evaluate_cons (p := t.power) ht, ih hts]
    simp only [List.forall_mem_cons, PartialReal.mul_eq_real_iff, PartialReal.pow_eq_real_iff,
      Factor.product_cons]
    constructor
    · rintro ⟨_, ⟨u, _, rfl, ⟨base, exponent, hbase, hexponent, hpower, rfl⟩, rfl⟩, hdefined, rfl⟩
      obtain rfl := PartialReal.real.inj hbase
      obtain rfl := PartialReal.real.inj hexponent
      exact ⟨u, rfl, ⟨hpower, hdefined⟩, mul_assoc ..⟩
    · rintro ⟨u, rfl, ⟨hpower, hdefined⟩, rfl⟩
      exact ⟨_, ⟨u, _, rfl, ⟨_, _, rfl, rfl, hpower, rfl⟩, rfl⟩, hdefined, (mul_assoc ..).symm⟩

/-- The powers of a monomial with a real number as its value are powers of real numbers. -/
theorem exists_factors {ps : List (Char × PartialReal)}
    (h : Monomial.evaluate b ⟨c, ps⟩ = .ok (real v)) :
    ∃ ts : List Factor, ps = ts.map Factor.power ∧ ∀ t ∈ ts, b.Gives t := by
  induction ps generalizing c with
  | nil => exact ⟨[], rfl, nofun⟩
  | cons p ps ih =>
    cases hp : b p.1 with
    | none =>
      simp only [Monomial.evaluate, List.foldlM_cons, hp] at h
      cases h
    | some x =>
      rw [evaluate_cons hp] at h
      obtain ⟨ts, rfl, hts⟩ := ih h
      obtain ⟨_, hproduct, -⟩ := (evaluate_factors_iff hts).1 h
      obtain ⟨-, _, -, hpower, -⟩ := PartialReal.mul_eq_real_iff.1 hproduct
      obtain ⟨base, exponent, rfl, hexponent, -⟩ := PartialReal.pow_eq_real_iff.1 hpower
      exact ⟨⟨p.1, base, exponent⟩ :: ts, by rw [List.map_cons, Factor.power, ← hexponent],
        List.forall_mem_cons.2 ⟨hp, hts⟩⟩

end Monomial

/-- A polynomial of one monomial has its value. -/
theorem Polynomial.evaluate_singleton (m : Monomial PartialReal PartialReal) :
    Polynomial.evaluate b ⟨[m]⟩ = m.evaluate b := by
  simp only [Polynomial.evaluate, List.foldlM_cons, List.foldlM_nil, PartialReal.zero_add_eq]
  cases m.evaluate b <;> rfl

end Calculator
