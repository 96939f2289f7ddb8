import Mathlib.Algebra.Field.Basic
import Mathlib.Data.List.Perm.Subperm
import Calculator.Proofs.Polynomial.Packing

/-!
# The common ratio of two polynomials

A common ratio is found exactly if every monomial of the divisor has a partner with its unknowns in
the dividend, with one ratio of the coefficients. If the dividend has as many monomials, these
partners are all of it, so that it is a multiple of the divisor.
-/

namespace Calculator.Polynomial

variable {R E : Type} [BEq E]

section Ratio

variable [Div R] [BEq R] [LawfulBEq R] {p : Polynomial R E}

/-- A ratio is common to monomials if each of them has a partner with that ratio to it, and the
ratio is the one that was given, or some monomial has it. -/
theorem commonRatio?_eq_some_iff {ratio : Option R} {ns : List (Monomial R E)} {k : R} :
    commonRatio? p ratio ns = some k ↔
      (∀ previous ∈ ratio, previous = k) ∧ (ratio = none → ns ≠ []) ∧
        ∀ n ∈ ns, ∃ m, p.find? n = some m ∧ m.coefficient / n.coefficient = k := by
  induction ns generalizing ratio with
  | nil => cases ratio <;> simp [commonRatio?]
  | cons n ns ih =>
    rw [commonRatio?, List.forall_mem_cons]
    cases hfind : p.find? n with
    | none => simp
    | some m =>
      cases ratio with
      | none => simp [ih, eq_comm]
      | some previous =>
        by_cases hprevious : previous = m.coefficient / n.coefficient
        · simp [ih, hprevious]
        · simp only [beq_iff_eq, hprevious, if_false]
          constructor
          · nofun
          · rintro ⟨hgiven, -, ⟨m', hm', hratio⟩, -⟩
            obtain rfl := Option.some.inj hm'
            exact absurd ((hgiven previous rfl).trans hratio.symm) hprevious

variable [LawfulBEq E]

omit [Div R] [BEq R] [LawfulBEq R] in
/-- A monomial is found by its unknowns if no other one has them. -/
theorem Distinct.find?_eq_some {ms : List (Monomial R E)} (h : Distinct ms) {m n : Monomial R E}
    (hm : m ∈ ms) (hpowers : m.powers = n.powers) : find? ⟨ms⟩ n = some m := by
  induction ms with
  | nil => cases hm
  | cons first ms ih =>
    obtain ⟨hfirst, hms⟩ := List.pairwise_cons.1 h
    rcases List.mem_cons.1 hm with rfl | hm
    · exact List.find?_cons_of_pos (beq_iff_eq.2 hpowers)
    · have hother : first.sameUnknowns n = false := by
        rw [Monomial.sameUnknowns, ← hpowers]
        exact hfirst m hm
      exact (List.find?_cons_of_neg (by simp [hother])).trans (ih hms hm)

/-- Every monomial of the divisor has its partner in the dividend, with the common ratio. -/
theorem exists_of_commonRatio? {ratio : Option R} {ns : List (Monomial R E)} {k : R}
    (h : commonRatio? p ratio ns = some k) {n : Monomial R E} (hn : n ∈ ns) :
    ∃ m ∈ p.monomials, m.powers = n.powers ∧ m.coefficient / n.coefficient = k := by
  obtain ⟨-, -, hpartners⟩ := commonRatio?_eq_some_iff.1 h
  obtain ⟨m, hfind, hratio⟩ := hpartners n hn
  obtain ⟨hmem, hsame⟩ := of_find?_eq_some hfind
  exact ⟨m, hmem, eq_of_beq hsame, hratio⟩

end Ratio

variable [Field R] [DecidableEq R] [LawfulBEq E] {p q : Polynomial R E}

/-- A polynomial with a constant ratio to a divisor of as many monomials has the monomials of that
multiple of it. -/
theorem perm_of_commonRatio? (hdistinct : Distinct q.monomials)
    (hnonzero : ∀ n ∈ q.monomials, n.coefficient ≠ 0) (hsize : q.size = p.size) {k : R}
    (h : commonRatio? p none q.monomials = some k) :
    (q.monomials.map fun n => n.withCoefficient (k * n.coefficient)).Perm p.monomials := by
  let scaled := q.monomials.map fun n => n.withCoefficient (k * n.coefficient)
  have hsubset : scaled ⊆ p.monomials := by
    intro m hm
    obtain ⟨n, hn, rfl⟩ := List.mem_map.1 hm
    obtain ⟨m, hm, hpowers, hratio⟩ := exists_of_commonRatio? h hn
    have hcoefficient : k * n.coefficient = m.coefficient := by
      rw [← hratio, div_mul_cancel₀ _ (hnonzero n hn)]
    rwa [Monomial.withCoefficient, hcoefficient, ← hpowers]
  have hnodup : scaled.Nodup := by
    refine List.Pairwise.map _ (fun m n hne heq => ?_) hdistinct
    obtain ⟨-, hpowers⟩ := (Monomial.mk.injEq ..).mp heq
    rw [Monomial.sameUnknowns, hpowers, beq_self_eq_true] at hne
    cases hne
  -- As many different monomials as the dividend has are all of them.
  exact (List.subperm_of_subset hnodup hsubset).perm_of_length_le
    (by simpa [scaled, size] using hsize.ge)

end Calculator.Polynomial
