import Calculator.Proofs.Binary64.Laws
import Calculator.Proofs.Polynomial.Order
import Calculator.Proofs.Polynomial.Partial

/-!
# Packed polynomials of doubles

Doubles are in a total order, so packing puts any monomials in order, and leaves a packed
polynomial as it is.
-/

namespace Calculator

/-- Doubles are ordered by their keys. -/
instance Binary64.transOrd : Std.TransOrd Float :=
  inferInstanceAs (Std.TransCmp (compareOn Binary64.orderKey))

/-- A monomial with packed powers of unknowns that are all in a list. -/
structure Monomial.PackedIn (unknowns : List Char) (m : Monomial Float Float) : Prop where
  packed : Monomial.PackedPowers m.powers
  symbols : ∀ p ∈ m.powers, p.1 ∈ unknowns

/-- A polynomial as packing makes it, in unknowns that are all in a list: no coefficient equals
zero, no two monomials have the same unknowns, and the monomials are in their order. -/
structure Polynomial.PackedIn (unknowns : List Char) (p : Polynomial Float Float) : Prop where
  monomials : ∀ m ∈ p.monomials, m.PackedIn unknowns
  nonzero : ∀ m ∈ p.monomials, (m.coefficient != 0) = true
  distinct : Distinct p.monomials
  ordered : p.monomials.Pairwise fun m n => (m.canonicalOrder n).isLE = true

variable {unknowns : List Char}

namespace Polynomial

variable {p : Polynomial Float Float}

/-- Packing monomials that are packed packs the polynomial. -/
theorem packedIn_ofMonomials {ms : List (Monomial Float Float)}
    (h : ∀ m ∈ ms, m.PackedIn unknowns) : (ofMonomials ms).PackedIn unknowns where
  monomials := by
    intro m hm
    obtain ⟨n, hn, heq⟩ := mem_ofMonomials hm
    obtain ⟨hpacked, hsymbols⟩ := h n hn
    exact ⟨heq ▸ hpacked, heq ▸ hsymbols⟩
  nonzero _ := coefficient_ne_of_mem_ofMonomials
  distinct := distinct_ofMonomials ms
  ordered := ordered_ofMonomials ms

/-- Packing leaves a packed polynomial as it is. -/
theorem PackedIn.ofMonomials_eq (h : p.PackedIn unknowns) : ofMonomials p.monomials = p := by
  have hfold : p.monomials.foldl addMonomial [] = [] ++ p.monomials :=
    foldl_addMonomial_eq_append h.distinct
  rw [ofMonomials, hfold, List.nil_append, List.filter_eq_self.2 h.nonzero,
    List.mergeSort_of_pairwise h.ordered]

/-- The first monomials of a packed polynomial are a packed polynomial. -/
theorem PackedIn.of_append {before after : List (Monomial Float Float)}
    (h : PackedIn unknowns ⟨before ++ after⟩) : PackedIn unknowns ⟨before⟩ where
  monomials m hm := h.monomials m (List.mem_append_left after hm)
  nonzero m hm := h.nonzero m (List.mem_append_left after hm)
  distinct := (List.pairwise_append.1 h.distinct).1
  ordered := (List.pairwise_append.1 h.ordered).1

end Polynomial

namespace Monomial

variable {m n : Monomial Float Float}

/-- A constant is packed. -/
theorem packedIn_constant (x : Float) : (constant x).PackedIn unknowns where
  packed := ⟨.nil, nofun⟩
  symbols := nofun

/-- An unknown of the list is packed as a monomial. -/
theorem packedIn_unknown {c : Char} (hc : c ∈ unknowns) : (unknown c).PackedIn unknowns where
  packed := by
    have hone : ((1 : Float) != 0) = true := by decide +kernel
    exact ⟨List.pairwise_singleton _ _, List.forall_mem_singleton.2 hone⟩
  symbols := List.forall_mem_singleton.2 hc

/-- Packing powers packs the monomial. -/
theorem packedIn_ofPowers (x : Float) {powers : List (Char × Float)}
    (h : ∀ p ∈ powers, p.1 ∈ unknowns) : (ofPowers x powers).PackedIn unknowns where
  packed := packedPowers_packPowers powers
  symbols p hp := by
    obtain ⟨q, hq, heq⟩ := mem_packPowers hp
    exact heq ▸ h q hq

/-- The negation of a packed monomial is packed. -/
theorem PackedIn.negate (h : m.PackedIn unknowns) : m.negate.PackedIn unknowns :=
  ⟨h.packed, h.symbols⟩

/-- A product of packed monomials is packed. -/
theorem PackedIn.mul (hm : m.PackedIn unknowns) (hn : n.PackedIn unknowns) :
    (m.mul n).PackedIn unknowns :=
  packedIn_ofPowers _ (List.forall_mem_append.2 ⟨hm.symbols, hn.symbols⟩)

/-- One divided by a packed monomial is packed. -/
theorem PackedIn.reciprocal (h : m.PackedIn unknowns) : m.reciprocal.PackedIn unknowns where
  packed := by
    constructor
    · exact List.pairwise_map.2 h.packed.increasing
    · intro p hp
      obtain ⟨q, hq, rfl⟩ := List.mem_map.1 hp
      rw [Binary64.neg_bne_zero]
      exact h.packed.nonzero q hq
  symbols p hp := by
    obtain ⟨q, hq, rfl⟩ := List.mem_map.1 hp
    exact h.symbols q hq

/-- Every power of a packed monomial is packed. -/
theorem PackedIn.pow (h : m.PackedIn unknowns) (exponent : Float) :
    (m.pow exponent).PackedIn unknowns := by
  refine packedIn_ofPowers _ fun p hp => ?_
  obtain ⟨q, hq, rfl⟩ := List.mem_map.1 hp
  exact h.symbols q hq

/-- A packed monomial with a value in place of an unknown is packed. -/
theorem PackedIn.substitute (h : m.PackedIn unknowns) (symbol : Char) (x : Float) :
    (m.substitute symbol x).PackedIn unknowns where
  packed := ⟨h.packed.increasing.filter _, fun p hp => h.packed.nonzero p (List.mem_filter.1 hp).1⟩
  symbols p hp := h.symbols p (List.mem_filter.1 hp).1

end Monomial

namespace Polynomial

variable {p q r : Polynomial Float Float}

/-- A constant is packed. -/
theorem packedIn_constant (x : Float) : (constant x).PackedIn unknowns :=
  packedIn_ofMonomials (List.forall_mem_singleton.2 (Monomial.packedIn_constant x))

/-- The zero polynomial is packed. -/
theorem packedIn_zero : (zero : Polynomial Float Float).PackedIn unknowns :=
  ⟨nofun, nofun, .nil, .nil⟩

/-- An unknown of the list is packed. -/
theorem packedIn_unknown {c : Char} (hc : c ∈ unknowns) : (unknown c).PackedIn unknowns :=
  packedIn_ofMonomials (List.forall_mem_singleton.2 (Monomial.packedIn_unknown hc))

/-- A sum of packed polynomials is packed. -/
theorem PackedIn.add (hp : p.PackedIn unknowns) (hq : q.PackedIn unknowns) :
    (p.add q).PackedIn unknowns :=
  packedIn_ofMonomials (List.forall_mem_append.2 ⟨hp.monomials, hq.monomials⟩)

/-- A difference of packed polynomials is packed. -/
theorem PackedIn.sub (hp : p.PackedIn unknowns) (hq : q.PackedIn unknowns) :
    (p.sub q).PackedIn unknowns := by
  refine packedIn_ofMonomials (List.forall_mem_append.2 ⟨hp.monomials, fun m hm => ?_⟩)
  obtain ⟨n, hn, rfl⟩ := List.mem_map.1 hm
  exact (hq.monomials n hn).negate

/-- A product of polynomials with packed monomials is packed. -/
theorem packedIn_mul (hp : ∀ m ∈ p.monomials, m.PackedIn unknowns)
    (hq : ∀ m ∈ q.monomials, m.PackedIn unknowns) : (p.mul q).PackedIn unknowns := by
  refine packedIn_ofMonomials fun m hm => ?_
  obtain ⟨n, hn, hm⟩ := List.mem_flatMap.1 hm
  obtain ⟨k, hk, rfl⟩ := List.mem_map.1 hm
  exact (hp n hn).mul (hq k hk)

/-- A quotient of packed polynomials that is a polynomial is packed. -/
theorem PackedIn.div (hp : p.PackedIn unknowns) (hq : q.PackedIn unknowns)
    (h : p.div q = some r) : r.PackedIn unknowns := by
  obtain ⟨single, hsingle, rfl⟩ | ⟨-, -, -, ratio, -, rfl⟩ := div_eq_some_iff.1 h
  · have hreciprocal := (hq.monomials single (by simp [hsingle])).reciprocal
    exact packedIn_mul hp.monomials (List.forall_mem_singleton.2 hreciprocal)
  · exact packedIn_constant ratio

/-- A power of a packed polynomial that is a polynomial is packed. -/
theorem PackedIn.pow (hp : p.PackedIn unknowns) (h : p.pow q = some r) :
    r.PackedIn unknowns := by
  obtain ⟨k, -, ⟨-, rfl⟩ | ⟨m, hm, rfl⟩⟩ := pow_eq_some_iff.1 h
  · exact packedIn_constant _
  · have hpow := (hp.monomials m (by simp [hm])).pow k
    exact packedIn_ofMonomials (List.forall_mem_singleton.2 hpow)

/-- A packed polynomial with a value in place of an unknown is packed. -/
theorem PackedIn.substitute (h : p.PackedIn unknowns) (symbol : Char) (x : Float) :
    (p.substitute symbol x).PackedIn unknowns := by
  refine packedIn_ofMonomials fun m hm => ?_
  obtain ⟨n, hn, rfl⟩ := List.mem_map.1 hm
  exact (h.monomials n hn).substitute symbol x

end Polynomial

end Calculator
