import Mathlib.Data.List.Sort
import Calculator.Proofs.Polynomial.Packing

/-!
# The order of monomials

If exponents are in a total order, so are monomials: by their powers, constants last. Packing puts
the monomials of a polynomial in this order, in which two stand in one place exactly if they have
the same powers.
-/

namespace Calculator

variable {R E : Type} [Ord E]

namespace Monomial

/-- The order of two powers: by the symbol, then with the greater exponent first. -/
def comparePower (p q : Char × E) : Ordering :=
  (compare p.1 q.1).then (compare q.2 p.2)

instance transCmp_comparePower [Std.TransOrd E] : Std.TransCmp (comparePower (E := E)) :=
  inferInstanceAs (Std.TransCmp (compareLex (compareOn Prod.fst) fun p q => compareOn Prod.snd q p))

instance lawfulEqCmp_comparePower [Std.LawfulEqOrd E] :
    Std.LawfulEqCmp (comparePower (E := E)) where
  compare_self {p} := Ordering.then_eq_eq.2 ⟨Std.ReflCmp.compare_self, Std.ReflCmp.compare_self⟩
  eq_of_compare {p q} h := by
    obtain ⟨hsymbol, hexponent⟩ := Ordering.then_eq_eq.1 h
    exact Prod.ext (Std.LawfulEqCmp.eq_of_compare hsymbol)
      (Std.LawfulEqCmp.eq_of_compare hexponent).symm

/-- Lists of powers are in the lexicographic order of their powers. -/
theorem comparePowers_eq_compareLex (ps qs : List (Char × E)) :
    comparePowers ps qs = List.compareLex comparePower ps qs := by
  induction ps generalizing qs with
  | nil => cases qs <;> simp [comparePowers, List.compareLex_nil_nil, List.compareLex_nil_cons]
  | cons p ps ih =>
    cases qs with
    | nil => simp [comparePowers, List.compareLex_cons_nil]
    | cons q qs =>
      rw [comparePowers, List.compareLex_cons_cons, ih]
      rfl

section Total

variable [Std.TransOrd E] {m n k : Monomial R E}

/-- The order of two monomials the other way round is the opposite one. -/
theorem canonicalOrder_swap (m n : Monomial R E) :
    (n.canonicalOrder m).swap = m.canonicalOrder n := by
  unfold canonicalOrder
  cases m.powers with
  | nil => cases n.powers <;> rfl
  | cons p ps =>
    cases n.powers with
    | nil => rfl
    | cons q qs =>
      simp only [comparePowers_eq_compareLex]
      exact Std.OrientedCmp.eq_swap.symm

/-- Of two monomials one may stand before the other. -/
theorem canonicalOrder_total (m n : Monomial R E) :
    ((m.canonicalOrder n).isLE || (n.canonicalOrder m).isLE) = true := by
  rw [← canonicalOrder_swap]
  cases n.canonicalOrder m <;> rfl

/-- What may stand before a monomial may stand before all that it may stand before. -/
theorem canonicalOrder_trans (hmn : (m.canonicalOrder n).isLE = true)
    (hnk : (n.canonicalOrder k).isLE = true) : (m.canonicalOrder k).isLE = true := by
  unfold canonicalOrder at *
  generalize m.powers = ps at *
  generalize n.powers = qs at *
  generalize k.powers = rs at *
  cases ps with
  | nil =>
    cases qs with
    | nil => exact hnk
    | cons => cases hmn
  | cons p ps =>
    cases rs with
    | nil => rfl
    | cons r rs =>
      cases qs with
      | nil => cases hnk
      | cons q qs =>
        simp only [comparePowers_eq_compareLex] at *
        exact Std.TransCmp.isLE_trans hmn hnk

end Total

/-- Two monomials stand in one place of the order exactly if they have the same powers. -/
theorem canonicalOrder_eq_iff [Std.LawfulEqOrd E] {m n : Monomial R E} :
    m.canonicalOrder n = .eq ↔ m.powers = n.powers := by
  unfold canonicalOrder
  cases m.powers with
  | nil => cases n.powers <;> simp
  | cons p ps =>
    cases n.powers with
    | nil => simp
    | cons q qs =>
      simp only [comparePowers_eq_compareLex]
      exact Std.LawfulEqCmp.compare_eq_iff_eq

omit [Ord E] in
/-- Monomials have the same unknowns in either order. -/
theorem sameUnknowns_comm [BEq E] [PartialEquivBEq E] (m n : Monomial R E) :
    m.sameUnknowns n = n.sameUnknowns m := by
  have hpowers (ps qs : List (Char × E)) : (ps == qs) = (qs == ps) := by
    induction ps generalizing qs with
    | nil => cases qs <;> rfl
    | cons p ps ih =>
      cases qs with
      | nil => rfl
      | cons q qs =>
        have hpower (p q : Char × E) : (p == q) = (p.1 == q.1 && p.2 == q.2) := rfl
        rw [List.cons_beq_cons, List.cons_beq_cons, ih, hpower, hpower, @BEq.comm Char,
          @BEq.comm E]
  exact hpowers m.powers n.powers

end Monomial

namespace Polynomial

/-- Lists in strict order with the same monomials are the same. -/
theorem eq_of_mem_iff [Std.TransOrd E] [Std.LawfulEqOrd E] {ms ns : List (Monomial R E)}
    (hms : ms.Pairwise fun m n => m.canonicalOrder n = .lt)
    (hns : ns.Pairwise fun m n => m.canonicalOrder n = .lt) (h : ∀ m, m ∈ ms ↔ m ∈ ns) :
    ms = ns := by
  have hirrefl : Std.Irrefl fun m n : Monomial R E => m.canonicalOrder n = .lt :=
    ⟨fun m hlt => by
      rw [Monomial.canonicalOrder_eq_iff.2 rfl] at hlt
      cases hlt⟩
  have hantisymm : Std.Antisymm fun m n : Monomial R E => m.canonicalOrder n = .lt :=
    ⟨fun m n hmn hnm => by
      rw [← Monomial.canonicalOrder_swap, hnm] at hmn
      cases hmn⟩
  exact hms.eq_of_mem_iff hns h

variable [Add R] [Zero R] [BEq R] [BEq E]

/-- No two monomials of a packed sum have the same unknowns. -/
theorem distinct_ofMonomials [PartialEquivBEq E] (ms : List (Monomial R E)) :
    Distinct (ofMonomials ms).monomials := by
  have hfilter := (distinct_foldl_addMonomial ms).filter fun m => m.coefficient != 0
  refine (List.mergeSort_perm _ _).symm.pairwise hfilter fun {m n} h => ?_
  rw [Monomial.sameUnknowns_comm]
  exact h

/-- The monomials of a packed sum are in their order. -/
theorem ordered_ofMonomials [Std.TransOrd E] (ms : List (Monomial R E)) :
    (ofMonomials ms).monomials.Pairwise fun m n => (m.canonicalOrder n).isLE = true :=
  @List.pairwise_mergeSort (Monomial R E) (fun m n => (m.canonicalOrder n).isLE)
    (fun _ _ _ => Monomial.canonicalOrder_trans) Monomial.canonicalOrder_total _

end Polynomial

end Calculator
