import Calculator.Proofs.Polynomial.Packing
import Calculator.Proofs.Polynomial.Partial

/-!
# Unknowns of polynomials

The operations on polynomials bring in no unknowns: what is listed for the result is listed for an
operand. Putting a value in place of an unknown takes it out of the list.
-/

namespace Calculator

variable {c : Char}

/-- Packing powers brings in no unknowns. -/
theorem Monomial.mem_symbols_packPowers {E : Type} [Add E] [Zero E] [BEq E]
    {powers : List (Char × E)} (h : c ∈ (packPowers powers).map (·.1)) :
    c ∈ powers.map (·.1) := by
  obtain ⟨p, hp, rfl⟩ := List.mem_map.1 h
  obtain ⟨q, hq, heq⟩ := mem_packPowers hp
  exact List.mem_map.2 ⟨q, hq, heq.symm⟩

namespace Polynomial

section Packing

variable {R E : Type}

/-- The unknowns of a polynomial are those of its monomials. -/
theorem mem_unknowns_iff {p : Polynomial R E} :
    c ∈ p.unknowns ↔ ∃ m ∈ p.monomials, c ∈ m.powers.map (·.1) :=
  List.mem_flatMap

variable [Add R] [Zero R] [BEq R] [BEq E] [Ord E]

/-- Packing monomials brings in no unknowns. -/
theorem mem_unknowns_ofMonomials {ms : List (Monomial R E)} (h : c ∈ (ofMonomials ms).unknowns) :
    ∃ m ∈ ms, c ∈ m.powers.map (·.1) := by
  obtain ⟨m, hm, hc⟩ := mem_unknowns_iff.1 h
  obtain ⟨n, hn, heq⟩ := mem_ofMonomials hm
  exact ⟨n, hn, heq ▸ hc⟩

/-- A constant has no unknowns. -/
theorem notMem_unknowns_constant (x : R) : c ∉ (constant x : Polynomial R E).unknowns := by
  intro h
  obtain ⟨m, hm, hc⟩ := mem_unknowns_ofMonomials h
  obtain rfl := List.mem_singleton.1 hm
  cases hc

variable {p q : Polynomial R E}

/-- The unknowns of a sum are those of the summands. -/
theorem mem_unknowns_add (h : c ∈ (p.add q).unknowns) : c ∈ p.unknowns ∨ c ∈ q.unknowns := by
  obtain ⟨m, hm, hc⟩ := mem_unknowns_ofMonomials h
  exact (List.mem_append.1 hm).imp (fun hm => mem_unknowns_iff.2 ⟨m, hm, hc⟩)
    fun hm => mem_unknowns_iff.2 ⟨m, hm, hc⟩

/-- The unknowns of a difference are those of its two sides. -/
theorem mem_unknowns_sub [Neg R] (h : c ∈ (p.sub q).unknowns) :
    c ∈ p.unknowns ∨ c ∈ q.unknowns := by
  obtain ⟨m, hm, hc⟩ := mem_unknowns_ofMonomials h
  rcases List.mem_append.1 hm with hm | hm
  · exact .inl (mem_unknowns_iff.2 ⟨m, hm, hc⟩)
  · obtain ⟨n, hn, rfl⟩ := List.mem_map.1 hm
    exact .inr (mem_unknowns_iff.2 ⟨n, hn, hc⟩)

variable [Mul R] [Add E] [Zero E]

/-- The unknowns of a product are those of the factors. -/
theorem mem_unknowns_mul (h : c ∈ (p.mul q).unknowns) : c ∈ p.unknowns ∨ c ∈ q.unknowns := by
  obtain ⟨product, hproduct, hc⟩ := mem_unknowns_ofMonomials h
  obtain ⟨m, hm, hproduct⟩ := List.mem_flatMap.1 hproduct
  obtain ⟨n, hn, rfl⟩ := List.mem_map.1 hproduct
  have hfactors : c ∈ (m.powers ++ n.powers).map (·.1) := Monomial.mem_symbols_packPowers hc
  rw [List.map_append] at hfactors
  exact (List.mem_append.1 hfactors).imp (fun hc => mem_unknowns_iff.2 ⟨m, hm, hc⟩)
    fun hc => mem_unknowns_iff.2 ⟨n, hn, hc⟩

/-- The unknowns of a quotient are those of the dividend and the divisor. -/
theorem mem_unknowns_div [Div R] [One R] [Neg E] {r : Polynomial R E} (hr : p.div q = some r)
    (h : c ∈ r.unknowns) : c ∈ p.unknowns ∨ c ∈ q.unknowns := by
  obtain ⟨single, hsingle, rfl⟩ | ⟨-, -, -, ratio, -, rfl⟩ := div_eq_some_iff.1 hr
  · refine (mem_unknowns_mul h).imp_right fun hc => ?_
    obtain ⟨m, hm, hc⟩ := mem_unknowns_iff.1 hc
    obtain rfl := List.mem_singleton.1 hm
    have hsymbols : single.reciprocal.powers.map (·.1) = single.powers.map (·.1) := by
      simp [Monomial.reciprocal]
    exact mem_unknowns_iff.2 ⟨single, by simp [hsingle], hsymbols ▸ hc⟩
  · exact absurd h (notMem_unknowns_constant ratio)

end Packing

section Scalars

variable {K : Type} [Scalar K] {p q r : Polynomial K K}

/-- The unknowns of a power are those of the base. -/
theorem mem_unknowns_pow (hr : p.pow q = some r) (h : c ∈ r.unknowns) : c ∈ p.unknowns := by
  obtain ⟨k, -, ⟨-, rfl⟩ | ⟨m, hm, rfl⟩⟩ := pow_eq_some_iff.1 hr
  · exact absurd h (notMem_unknowns_constant _)
  · obtain ⟨n, hn, hc⟩ := mem_unknowns_ofMonomials h
    obtain rfl := List.mem_singleton.1 hn
    have hsymbols : c ∈ (m.powers.map fun p => (p.1, p.2 * k)).map (·.1) :=
      Monomial.mem_symbols_packPowers hc
    rw [List.map_map] at hsymbols
    exact mem_unknowns_iff.2 ⟨m, by simp [hm], hsymbols⟩

/-- Putting a value in place of an unknown leaves the other unknowns. -/
theorem mem_unknowns_substitute {symbol : Char} {x : K}
    (h : c ∈ (p.substitute symbol x).unknowns) : c ∈ p.unknowns ∧ c ≠ symbol := by
  obtain ⟨m, hm, hc⟩ := mem_unknowns_ofMonomials h
  obtain ⟨n, hn, rfl⟩ := List.mem_map.1 hm
  obtain ⟨power, hpower, rfl⟩ := List.mem_map.1 hc
  obtain ⟨hmem, hne⟩ := List.mem_filter.1 hpower
  exact ⟨mem_unknowns_iff.2 ⟨n, hn, List.mem_map_of_mem hmem⟩, of_decide_eq_true hne⟩

end Scalars

end Polynomial

end Calculator
