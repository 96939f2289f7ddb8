import Mathlib.Algebra.BigOperators.Ring.List
import Mathlib.Algebra.MonoidAlgebra.Basic
import Calculator.Proofs.Polynomial.Packing

/-!
# The algebra of polynomials

Over a commutative ring, with exponents in a commutative monoid, the powers of a monomial are a
function from unknowns to exponents, and a polynomial is an element of the algebra of these
functions. Packing changes neither of the two, so the operations compute in the algebra.
-/

namespace Calculator

section Listed

variable {A M : Type} [AddCommMonoid M]

/-- The function that keys and values sum up to, which is zero at other keys. -/
noncomputable def listed (pairs : List (A × M)) : A →₀ M :=
  (pairs.map fun p => Finsupp.single p.1 p.2).sum

@[simp] theorem listed_nil : listed ([] : List (A × M)) = 0 := rfl

@[simp] theorem listed_cons (p : A × M) (ps : List (A × M)) :
    listed (p :: ps) = Finsupp.single p.1 p.2 + listed ps := by
  simp [listed]

@[simp] theorem listed_append (ps qs : List (A × M)) :
    listed (ps ++ qs) = listed ps + listed qs := by
  simp [listed]

/-- The function is zero at a key that is not listed. -/
theorem listed_eq_zero {pairs : List (A × M)} {a : A} (h : ∀ p ∈ pairs, p.1 ≠ a) :
    listed pairs a = 0 := by
  induction pairs with
  | nil => rfl
  | cons p ps ih =>
    obtain ⟨hp, hps⟩ := List.forall_mem_cons.1 h
    rw [listed_cons, Finsupp.add_apply, Finsupp.single_eq_of_ne hp.symm, ih hps, add_zero]

/-- If every key is listed once, the values of the function that are not zero are listed. -/
theorem mem_iff_listed_eq {pairs : List (A × M)} (h : pairs.Pairwise fun p q => p.1 ≠ q.1)
    {a : A} {x : M} (hx : x ≠ 0) : (a, x) ∈ pairs ↔ listed pairs a = x := by
  induction pairs with
  | nil => simp [hx.symm]
  | cons p ps ih =>
    obtain ⟨hp, hps⟩ := List.pairwise_cons.1 h
    rw [List.mem_cons, listed_cons, Finsupp.add_apply]
    by_cases ha : p.1 = a
    · subst ha
      have hrest : listed ps p.1 = 0 := listed_eq_zero fun q hq => (hp q hq).symm
      have hnot : (p.1, x) ∉ ps := fun hmem => hp _ hmem rfl
      rw [hrest, add_zero, Finsupp.single_eq_same, or_iff_left hnot, eq_comm]
      exact ⟨congrArg Prod.snd, fun heq => Prod.ext rfl heq⟩
    · rw [Finsupp.single_eq_of_ne (Ne.symm ha), zero_add, ← ih hps, or_iff_right]
      exact fun heq => ha (congrArg Prod.fst heq).symm

end Listed

section Powers

variable {E : Type} [AddCommMonoid E]

/-- The function of a product of powers, from unknowns to exponents, is the sum of those of its
factors. -/
theorem listed_foldl_addPower (before powers : List (Char × E)) :
    listed (powers.foldl Monomial.addPower before) = listed before + listed powers := by
  have hstep (ps : List (Char × E)) (power : Char × E) :
      listed (Monomial.addPower ps power) = listed ps + Finsupp.single power.1 power.2 := by
    induction ps with
    | nil => simp [Monomial.addPower]
    | cons p ps ih =>
      rw [Monomial.addPower]
      split
      · next heq =>
        rw [listed_cons, listed_cons, Finsupp.single_add, heq, add_right_comm]
      · rw [listed_cons, ih, listed_cons, add_assoc]
  induction powers generalizing before with
  | nil => simp
  | cons p ps ih => rw [List.foldl_cons, ih, hstep, listed_cons, add_assoc]

variable [DecidableEq E]

/-- Packing powers keeps their function. -/
theorem listed_packPowers (powers : List (Char × E)) :
    listed (Monomial.packPowers powers) = listed powers := by
  have hfilter (ps : List (Char × E)) : listed (ps.filter fun p => p.2 != 0) = listed ps := by
    induction ps with
    | nil => rfl
    | cons p ps ih =>
      by_cases hp : p.2 = 0
      · simp [hp, ih]
      · simp [hp, ih]
  have hsort (ps : List (Char × E)) :
      listed (ps.mergeSort fun p q => p.1 ≤ q.1) = listed ps :=
    ((List.mergeSort_perm ps _).map _).sum_eq
  rw [Monomial.packPowers, hsort, hfilter, listed_foldl_addPower, listed_nil, zero_add]

/-- Packed powers are determined by their function. -/
theorem Monomial.PackedPowers.eq_of_listed_eq {ps qs : List (Char × E)} (hps : PackedPowers ps)
    (hqs : PackedPowers qs) (h : listed ps = listed qs) : ps = qs := by
  have hirrefl : Std.Irrefl fun p q : Char × E => p.1 < q.1 := ⟨fun p => Std.lt_irrefl⟩
  have hantisymm : Std.Antisymm fun p q : Char × E => p.1 < q.1 :=
    ⟨fun p q hpq hqp => absurd hqp (Char.lt_asymm hpq)⟩
  have hsubset {ps qs : List (Char × E)} (hps : PackedPowers ps) (hqs : PackedPowers qs)
      (h : listed ps = listed qs) {p : Char × E} (hp : p ∈ ps) : p ∈ qs := by
    have hne : p.2 ≠ 0 := by simpa using hps.nonzero p hp
    have hvalue := (mem_iff_listed_eq (hps.increasing.imp Std.ne_of_lt) hne).1 hp
    exact (mem_iff_listed_eq (hqs.increasing.imp Std.ne_of_lt) hne).2 (h ▸ hvalue)
  exact hps.increasing.eq_of_mem_iff hqs.increasing fun p =>
    ⟨hsubset hps hqs h, hsubset hqs hps h.symm⟩

end Powers

variable {R E : Type} [CommRing R] [AddCommMonoid E]

/-- The element of the algebra that is the sum of the monomials. -/
noncomputable def algebraOf (ms : List (Monomial R E)) : AddMonoidAlgebra R (Char →₀ E) :=
  (ms.map fun m => .single (listed m.powers) m.coefficient).sum

/-- The element of the algebra that a polynomial stands for. -/
noncomputable def Polynomial.toAlgebra (p : Polynomial R E) : AddMonoidAlgebra R (Char →₀ E) :=
  algebraOf p.monomials

@[simp] theorem algebraOf_nil : algebraOf ([] : List (Monomial R E)) = 0 := rfl

@[simp] theorem algebraOf_cons (m : Monomial R E) (ms : List (Monomial R E)) :
    algebraOf (m :: ms) = .single (listed m.powers) m.coefficient + algebraOf ms := by
  simp [algebraOf]

@[simp] theorem algebraOf_append (ms ns : List (Monomial R E)) :
    algebraOf (ms ++ ns) = algebraOf ms + algebraOf ns := by
  simp [algebraOf]

/-- The coefficients of the element are those of the monomials. -/
theorem coeff_algebraOf (ms : List (Monomial R E)) :
    (algebraOf ms).coeff = listed (ms.map fun m => (listed m.powers, m.coefficient)) := by
  induction ms with
  | nil => rfl
  | cons m ms ih =>
    rw [algebraOf_cons, AddMonoidAlgebra.coeff_add, AddMonoidAlgebra.coeff_single, ih,
      List.map_cons, listed_cons]

@[simp] theorem Polynomial.toAlgebra_zero : (zero : Polynomial R E).toAlgebra = 0 := rfl

/-- Negating the monomials negates the element. -/
theorem algebraOf_map_negate (ms : List (Monomial R E)) :
    algebraOf (ms.map .negate) = -algebraOf ms := by
  induction ms with
  | nil => simp
  | cons m ms ih =>
    rw [List.map_cons, algebraOf_cons, ih, algebraOf_cons, Monomial.negate,
      Monomial.withCoefficient, AddMonoidAlgebra.single_neg, neg_add]

variable [DecidableEq E]

/-- The products of all pairs of monomials add up to the product of the elements. -/
theorem algebraOf_products (ms ns : List (Monomial R E)) :
    algebraOf (ms.flatMap fun m => ns.map fun n => m.mul n) = algebraOf ms * algebraOf ns := by
  have hrow (m : Monomial R E) :
      algebraOf (ns.map fun n => m.mul n) =
        .single (listed m.powers) m.coefficient * algebraOf ns := by
    induction ns with
    | nil => simp
    | cons n ns ih =>
      rw [List.map_cons, algebraOf_cons, ih, algebraOf_cons, Monomial.mul, Monomial.ofPowers,
        listed_packPowers, listed_append, mul_add, AddMonoidAlgebra.single_mul_single]
  induction ms with
  | nil => simp
  | cons m ms ih =>
    rw [List.flatMap_cons, algebraOf_append, hrow, ih, algebraOf_cons, add_mul]

namespace Polynomial

variable [DecidableEq R] [Ord E]

/-- Packing does not change the element. -/
theorem algebraOf_ofMonomials (ms : List (Monomial R E)) :
    algebraOf (ofMonomials ms).monomials = algebraOf ms := by
  have hadditive : Monomial.Additive fun m : Monomial R E =>
      AddMonoidAlgebra.single (listed m.powers) m.coefficient :=
    { merge := fun m n hpowers => by
        rw [Monomial.withCoefficient, AddMonoidAlgebra.single_add, hpowers]
      drop := fun m hm => by rw [hm, AddMonoidAlgebra.single_zero] }
  exact hadditive.sum_ofMonomials ms

variable (p q : Polynomial R E)

@[simp] theorem toAlgebra_constant (x : R) :
    (constant x : Polynomial R E).toAlgebra = .single 0 x := by
  rw [toAlgebra, constant, algebraOf_ofMonomials]
  simp [Monomial.constant]

@[simp] theorem toAlgebra_add : (p.add q).toAlgebra = p.toAlgebra + q.toAlgebra := by
  rw [toAlgebra, add, algebraOf_ofMonomials, algebraOf_append, toAlgebra, toAlgebra]

@[simp] theorem toAlgebra_sub : (p.sub q).toAlgebra = p.toAlgebra - q.toAlgebra := by
  rw [toAlgebra, sub, algebraOf_ofMonomials, algebraOf_append, algebraOf_map_negate,
    ← sub_eq_add_neg, toAlgebra, toAlgebra]

@[simp] theorem toAlgebra_mul : (p.mul q).toAlgebra = p.toAlgebra * q.toAlgebra := by
  rw [toAlgebra, mul, algebraOf_ofMonomials, algebraOf_products, toAlgebra, toAlgebra]

end Polynomial

end Calculator
