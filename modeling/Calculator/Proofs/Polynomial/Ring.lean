import Mathlib.Algebra.Field.Rat
import Mathlib.Order.Std
import Mathlib.Tactic.Ring
import Calculator.Proofs.Polynomial.Algebra
import Calculator.Proofs.Polynomial.Order

/-!
# The ring of packed polynomials

A packed polynomial is determined by the element of the algebra that it stands for. So the laws of
the algebra, which is a commutative ring, are equations between the stored lists of monomials.
-/

namespace Calculator.Polynomial

variable {R E : Type} [CommRing R] [AddCommMonoid E] [LinearOrder E]

/-- A polynomial as packing makes it: in every monomial each unknown stands once and in order, with
an exponent that is not zero, no coefficient is zero, and the monomials are in strict order, so that
no two have the same powers. -/
structure Packed (p : Polynomial R E) : Prop where
  powers : ∀ m ∈ p.monomials, Monomial.PackedPowers m.powers
  nonzero : ∀ m ∈ p.monomials, m.coefficient ≠ 0
  ordered : p.monomials.Pairwise fun m n => m.canonicalOrder n = .lt

variable {p q r : Polynomial R E}

/-- The zero polynomial is packed. -/
theorem packed_zero : (zero : Polynomial R E).Packed :=
  ⟨nofun, nofun, .nil⟩

/-- The monomials of a packed polynomial have functions that all differ. -/
theorem Packed.pairwise_listed (hp : p.Packed) :
    (p.monomials.map fun m => (listed m.powers, m.coefficient)).Pairwise
      fun x y => x.1 ≠ y.1 := by
  refine List.pairwise_map.2 (hp.ordered.imp_of_mem fun {m n} hm hn hlt heq => ?_)
  have hpowers := (hp.powers m hm).eq_of_listed_eq (hp.powers n hn) heq
  rw [Monomial.canonicalOrder_eq_iff.2 hpowers] at hlt
  cases hlt

/-- A monomial of a packed polynomial is one of every packed polynomial with the same element. -/
theorem Packed.mem_of_toAlgebra_eq (hp : p.Packed) (hq : q.Packed)
    (h : p.toAlgebra = q.toAlgebra) {m : Monomial R E} (hm : m ∈ p.monomials) :
    m ∈ q.monomials := by
  have hlisted : (listed m.powers, m.coefficient) ∈
      p.monomials.map fun m => (listed m.powers, m.coefficient) :=
    List.mem_map_of_mem hm
  have hcoefficient : q.toAlgebra.coeff (listed m.powers) = m.coefficient := by
    rw [← h, toAlgebra, coeff_algebraOf]
    exact (mem_iff_listed_eq hp.pairwise_listed (hp.nonzero m hm)).1 hlisted
  rw [toAlgebra, coeff_algebraOf,
    ← mem_iff_listed_eq hq.pairwise_listed (hp.nonzero m hm)] at hcoefficient
  obtain ⟨n, hn, heq⟩ := List.mem_map.1 hcoefficient
  obtain ⟨hpowers, hcoefficient⟩ := Prod.mk.inj heq
  have hpowers := (hq.powers n hn).eq_of_listed_eq (hp.powers m hm) hpowers
  have hnm : n = m := by
    obtain ⟨_, _⟩ := n
    obtain ⟨_, _⟩ := m
    exact congrArg₂ Monomial.mk hcoefficient hpowers
  exact hnm ▸ hn

/-- Packed polynomials that stand for the same element of the algebra are the same. -/
theorem Packed.ext (hp : p.Packed) (hq : q.Packed) (h : p.toAlgebra = q.toAlgebra) : p = q :=
  congrArg Polynomial.mk (eq_of_mem_iff hp.ordered hq.ordered fun _ =>
    ⟨hp.mem_of_toAlgebra_eq hq h, hq.mem_of_toAlgebra_eq hp h.symm⟩)

variable [DecidableEq R]

/-- Packing monomials with packed powers packs the polynomial. -/
theorem packed_ofMonomials {ms : List (Monomial R E)}
    (h : ∀ m ∈ ms, Monomial.PackedPowers m.powers) : (ofMonomials ms).Packed where
  powers m hm := by
    obtain ⟨n, hn, heq⟩ := mem_ofMonomials hm
    exact heq ▸ h n hn
  nonzero m hm := by simpa using coefficient_ne_of_mem_ofMonomials hm
  ordered := by
    refine ((ordered_ofMonomials ms).and (distinct_ofMonomials ms)).imp fun {m n} h => ?_
    obtain ⟨hle, hdistinct⟩ := h
    cases hmn : m.canonicalOrder n with
    | lt => rfl
    | gt =>
      rw [hmn] at hle
      cases hle
    | eq =>
      rw [Monomial.sameUnknowns, Monomial.canonicalOrder_eq_iff.1 hmn,
        beq_self_eq_true] at hdistinct
      cases hdistinct

/-- The packed polynomials are the packed sums of monomials with packed powers. -/
theorem packed_iff : p.Packed ↔
    ∃ ms : List (Monomial R E),
      (∀ m ∈ ms, Monomial.PackedPowers m.powers) ∧ p = ofMonomials ms := by
  constructor
  · intro hp
    refine ⟨p.monomials, hp.powers, hp.ext (packed_ofMonomials hp.powers) ?_⟩
    rw [toAlgebra, toAlgebra, algebraOf_ofMonomials]
  · rintro ⟨ms, hms, rfl⟩
    exact packed_ofMonomials hms

/-- A constant is packed. -/
theorem packed_constant (x : R) : (constant x : Polynomial R E).Packed :=
  packed_ofMonomials (List.forall_mem_singleton.2 ⟨.nil, nofun⟩)

/-- An unknown is packed, since its exponent is not zero. -/
theorem packed_unknown [One E] (hone : (1 : E) ≠ 0) (c : Char) :
    (unknown c : Polynomial R E).Packed := by
  refine packed_ofMonomials (List.forall_mem_singleton.2 ⟨List.pairwise_singleton _ _, ?_⟩)
  simpa [Monomial.unknown] using hone

/-- A sum of packed polynomials is packed. -/
theorem Packed.add (hp : p.Packed) (hq : q.Packed) : (p.add q).Packed :=
  packed_ofMonomials (List.forall_mem_append.2 ⟨hp.powers, hq.powers⟩)

/-- A difference of packed polynomials is packed. -/
theorem Packed.sub (hp : p.Packed) (hq : q.Packed) : (p.sub q).Packed :=
  packed_ofMonomials (List.forall_mem_append.2 ⟨hp.powers, List.forall_mem_map.2 hq.powers⟩)

/-- A product is packed, since multiplying two monomials packs their powers. -/
theorem packed_mul (p q : Polynomial R E) : (p.mul q).Packed := by
  refine packed_ofMonomials fun m hm => ?_
  obtain ⟨k, -, hm⟩ := List.mem_flatMap.1 hm
  obtain ⟨n, -, rfl⟩ := List.mem_map.1 hm
  exact Monomial.packedPowers_packPowers _

/-- The operations on packed polynomials obey the laws of a commutative ring. -/
theorem Packed.ring_laws (hp : p.Packed) (hq : q.Packed) (hr : r.Packed) :
    p.add q = q.add p ∧
    (p.add q).add r = p.add (q.add r) ∧
    p.sub q = p.add (zero.sub q) ∧
    p.sub p = zero ∧
    p.add zero = p ∧
    p.mul q = q.mul p ∧
    (p.mul q).mul r = p.mul (q.mul r) ∧
    p.mul (constant 1) = p ∧
    p.mul (q.add r) = (p.mul q).add (p.mul r) := by
  have hone : (constant (1 : R) : Polynomial R E).toAlgebra = 1 := by
    rw [toAlgebra_constant, AddMonoidAlgebra.one_def]
  refine ⟨(hp.add hq).ext (hq.add hp) ?_, ((hp.add hq).add hr).ext (hp.add (hq.add hr)) ?_,
    (hp.sub hq).ext (hp.add (packed_zero.sub hq)) ?_, (hp.sub hp).ext packed_zero ?_,
    (hp.add packed_zero).ext hp ?_, (packed_mul p q).ext (packed_mul q p) ?_,
    (packed_mul _ r).ext (packed_mul p _) ?_, (packed_mul p _).ext hp ?_,
    (packed_mul p _).ext ((packed_mul p q).add (packed_mul p r)) ?_⟩
  -- Packed polynomials are equal if their elements are, and these are in a commutative ring.
  all_goals
    simp only [toAlgebra_add, toAlgebra_sub, toAlgebra_mul, toAlgebra_zero, hone]
    ring

/-- An unknown times a sum, with the sum multiplied out. -/
theorem ring_laws_unknowns :
    let x : Polynomial ℚ ℤ := unknown 'x'
    let y : Polynomial ℚ ℤ := unknown 'y'
    x.mul (y.add (constant 2)) = (x.mul y).add (x.mul (constant 2)) ∧ x.sub x = zero := by
  have hx : (unknown 'x' : Polynomial ℚ ℤ).Packed := packed_unknown one_ne_zero 'x'
  have hy : (unknown 'y' : Polynomial ℚ ℤ).Packed := packed_unknown one_ne_zero 'y'
  obtain ⟨-, -, -, hsub, -, -, -, -, hmul⟩ := Packed.ring_laws hx hy (packed_constant 2)
  exact ⟨hmul, hsub⟩

end Calculator.Polynomial
