import Mathlib.Algebra.BigOperators.Group.List.Basic
import Mathlib.Data.List.Nodup
import Calculator.Polynomial.Basic

/-!
# Packed monomials and polynomials

Packing a list of powers leaves every unknown once and in order, without exponents of zero.
Packing a list of monomials leaves no two with the same unknowns and no coefficient of zero, and
brings in no powers that were not there. What is packed stays as it is, and what follows the
coefficients has the same sum before and after.
-/

namespace Calculator

namespace Monomial

variable {R E : Type}

section Symbols

variable [Add E]

/-- Multiplying by a power adds no unknown but its own. -/
theorem mem_addPower {powers : List (Char × E)} {power p : Char × E}
    (h : p ∈ addPower powers power) : p ∈ powers ∨ p.1 = power.1 := by
  induction powers with
  | nil =>
    obtain rfl : p = power := by simpa [addPower] using h
    exact .inr rfl
  | cons q qs ih =>
    rw [addPower] at h
    split at h
    · next heq =>
      rcases List.mem_cons.1 h with rfl | h
      · exact .inr heq
      · exact .inl (List.mem_cons_of_mem q h)
    · rcases List.mem_cons.1 h with rfl | h
      · exact .inl List.mem_cons_self
      · rcases ih h with h | h
        · exact .inl (List.mem_cons_of_mem q h)
        · exact .inr h

/-- Multiplying by a power lists no unknown twice. -/
theorem pairwise_addPower {powers : List (Char × E)}
    (h : powers.Pairwise fun p q => p.1 ≠ q.1) (power : Char × E) :
    (addPower powers power).Pairwise fun p q => p.1 ≠ q.1 := by
  induction powers with
  | nil => simp [addPower]
  | cons q qs ih =>
    obtain ⟨hq, hqs⟩ := List.pairwise_cons.1 h
    rw [addPower]
    split
    · exact List.pairwise_cons.2 ⟨hq, hqs⟩
    · next hne =>
      refine List.pairwise_cons.2 ⟨fun p hp => ?_, ih hqs⟩
      rcases mem_addPower hp with hp | hp
      · exact hq p hp
      · rw [hp]
        exact hne

/-- A power of a new unknown goes to the end. -/
theorem addPower_eq_append {powers : List (Char × E)} {power : Char × E}
    (h : ∀ p ∈ powers, p.1 ≠ power.1) : addPower powers power = powers ++ [power] := by
  induction powers with
  | nil => rfl
  | cons q qs ih =>
    rw [addPower, if_neg (h q List.mem_cons_self), ih fun p hp => h p (List.mem_cons_of_mem q hp)]
    rfl

/-- Multiplying by powers of unknowns that all differ lists them one after the other. -/
theorem foldl_addPower_eq_append {before powers : List (Char × E)}
    (h : (before ++ powers).Pairwise fun p q => p.1 ≠ q.1) :
    powers.foldl addPower before = before ++ powers := by
  induction powers generalizing before with
  | nil => simp
  | cons q qs ih =>
    have hq : ∀ p ∈ before, p.1 ≠ q.1 := fun p hp =>
      (List.pairwise_append.1 h).2.2 p hp q List.mem_cons_self
    rw [List.foldl_cons, addPower_eq_append hq, ih (by simpa using h)]
    simp

/-- No unknown is listed twice by a product of powers. -/
theorem pairwise_foldl_addPower (powers : List (Char × E)) :
    (powers.foldl addPower []).Pairwise fun p q => p.1 ≠ q.1 := by
  have hall (before : List (Char × E)) (h : before.Pairwise fun p q => p.1 ≠ q.1) :
      (powers.foldl addPower before).Pairwise fun p q => p.1 ≠ q.1 := by
    induction powers generalizing before with
    | nil => exact h
    | cons q qs ih => exact ih _ (pairwise_addPower h q)
  exact hall [] .nil

/-- The unknowns of a product of powers are those of the factors. -/
theorem mem_foldl_addPower {before powers : List (Char × E)} {p : Char × E}
    (h : p ∈ powers.foldl addPower before) :
    (∃ q ∈ before, p.1 = q.1) ∨ ∃ q ∈ powers, p.1 = q.1 := by
  induction powers generalizing before with
  | nil => exact .inl ⟨p, h, rfl⟩
  | cons r rs ih =>
    rcases ih h with ⟨q, hq, heq⟩ | ⟨q, hq, heq⟩
    · rcases mem_addPower hq with hq | hq
      · exact .inl ⟨q, hq, heq⟩
      · exact .inr ⟨r, List.mem_cons_self, heq.trans hq⟩
    · exact .inr ⟨q, List.mem_cons_of_mem r hq, heq⟩

end Symbols

/-- Powers as a packed monomial has them: every unknown once and in order, and no exponent that
equals zero. -/
structure PackedPowers [Zero E] [BEq E] (powers : List (Char × E)) : Prop where
  increasing : powers.Pairwise fun p q => p.1 < q.1
  nonzero : ∀ p ∈ powers, (p.2 != 0) = true

variable [Add E] [Zero E] [BEq E]

/-- Packed powers are packed. -/
theorem packedPowers_packPowers (powers : List (Char × E)) : PackedPowers (packPowers powers) where
  increasing := by
    have hle : (packPowers powers).Pairwise fun p q => p.1 ≤ q.1 := by
      have hsorted := @List.pairwise_mergeSort (Char × E) (fun p q => p.1 ≤ q.1)
        (fun p q r hpq hqr => by
          simp only [decide_eq_true_eq] at hpq hqr ⊢
          exact Char.le_trans hpq hqr)
        (fun p q => by simpa using Char.le_total p.1 q.1)
        ((powers.foldl addPower []).filter fun p => p.2 != 0)
      simpa [packPowers] using hsorted
    have hne : (packPowers powers).Pairwise fun p q => p.1 ≠ q.1 :=
      (List.mergeSort_perm _ _).symm.pairwise ((pairwise_foldl_addPower powers).filter _)
        fun h => h.symm
    exact (hle.and hne).imp fun h => Std.lt_of_le_of_ne h.1 h.2
  nonzero := by
    intro p hp
    have hfilter := List.mem_mergeSort.1 hp
    exact (List.mem_filter.1 hfilter).2

/-- From powers of unknowns in order, packing only takes the exponents of zero. -/
theorem packPowers_eq_filter {powers : List (Char × E)}
    (h : powers.Pairwise fun p q => p.1 < q.1) :
    packPowers powers = powers.filter fun p => p.2 != 0 := by
  have hne : powers.Pairwise fun p q => p.1 ≠ q.1 := h.imp Std.ne_of_lt
  have hle : powers.Pairwise fun p q => decide (p.1 ≤ q.1) = true :=
    h.imp fun hlt => decide_eq_true (Std.le_of_lt hlt)
  have hfold : powers.foldl addPower [] = [] ++ powers := foldl_addPower_eq_append hne
  rw [packPowers, hfold, List.nil_append, List.mergeSort_of_pairwise (hle.filter _)]

/-- Packing leaves packed powers as they are. -/
theorem packPowers_eq_self {powers : List (Char × E)} (h : PackedPowers powers) :
    packPowers powers = powers := by
  rw [packPowers_eq_filter h.increasing, List.filter_eq_self.2 h.nonzero]

/-- The unknowns of packed powers are those of the powers. -/
theorem mem_packPowers {powers : List (Char × E)} {p : Char × E} (h : p ∈ packPowers powers) :
    ∃ q ∈ powers, p.1 = q.1 := by
  have hfold := (List.mem_filter.1 (List.mem_mergeSort.1 h)).1
  rcases mem_foldl_addPower hfold with ⟨q, hq, -⟩ | hq
  · cases hq
  · exact hq

end Monomial

namespace Polynomial

variable {R E : Type} [Add R] [BEq E]

/-- Adding a monomial brings in no powers but its own. -/
theorem mem_addMonomial {monomials : List (Monomial R E)} {monomial m : Monomial R E}
    (h : m ∈ addMonomial monomials monomial) :
    ∃ n ∈ monomial :: monomials, m.powers = n.powers := by
  induction monomials with
  | nil =>
    obtain rfl : m = monomial := by simpa [addMonomial] using h
    exact ⟨m, List.mem_cons_self, rfl⟩
  | cons q qs ih =>
    rw [addMonomial] at h
    split at h
    · rcases List.mem_cons.1 h with rfl | h
      · exact ⟨q, by simp, rfl⟩
      · exact ⟨m, by simp [h], rfl⟩
    · rcases List.mem_cons.1 h with rfl | h
      · exact ⟨m, by simp, rfl⟩
      · obtain ⟨n, hn, heq⟩ := ih h
        rcases List.mem_cons.1 hn with rfl | hn
        · exact ⟨n, by simp, heq⟩
        · exact ⟨n, by simp [hn], heq⟩

/-- No monomial of the list has the same unknowns as a later one. -/
def Distinct (monomials : List (Monomial R E)) : Prop :=
  monomials.Pairwise fun m n => m.sameUnknowns n = false

/-- Adding a monomial leaves no two with the same unknowns. -/
theorem Distinct.addMonomial {monomials : List (Monomial R E)} (h : Distinct monomials)
    (monomial : Monomial R E) : Distinct (addMonomial monomials monomial) := by
  induction monomials with
  | nil => simp [Polynomial.addMonomial, Distinct]
  | cons q qs ih =>
    obtain ⟨hq, hqs⟩ := List.pairwise_cons.1 h
    rw [Polynomial.addMonomial]
    split
    · exact List.pairwise_cons.2 ⟨hq, hqs⟩
    · next hne =>
      refine List.pairwise_cons.2 ⟨fun m hm => ?_, ih hqs⟩
      obtain ⟨n, hn, heq⟩ := mem_addMonomial hm
      rw [Monomial.sameUnknowns, heq]
      rcases List.mem_cons.1 hn with rfl | hn
      · exact eq_false_of_ne_true hne
      · exact hq n hn

/-- A sum of monomials has no two with the same unknowns. -/
theorem distinct_foldl_addMonomial (monomials : List (Monomial R E)) :
    Distinct (monomials.foldl addMonomial []) := by
  have hall (before : List (Monomial R E)) (h : Distinct before) :
      Distinct (monomials.foldl addMonomial before) := by
    induction monomials generalizing before with
    | nil => exact h
    | cons m ms ih => exact ih _ (h.addMonomial m)
  exact hall [] .nil

/-- The powers of a sum of monomials are those of the summands. -/
theorem mem_foldl_addMonomial {before monomials : List (Monomial R E)} {m : Monomial R E}
    (h : m ∈ monomials.foldl addMonomial before) :
    ∃ n ∈ before ++ monomials, m.powers = n.powers := by
  induction monomials generalizing before with
  | nil => exact ⟨m, by simpa using h, rfl⟩
  | cons q qs ih =>
    obtain ⟨n, hn, heq⟩ := ih h
    rcases List.mem_append.1 hn with hn | hn
    · obtain ⟨n', hn', heq'⟩ := mem_addMonomial hn
      refine ⟨n', ?_, heq.trans heq'⟩
      rcases List.mem_cons.1 hn' with rfl | hn'
      · simp
      · simp [hn']
    · exact ⟨n, by simp [hn], heq⟩

omit [Add R] in
/-- What is found for a monomial is a monomial with its unknowns. -/
theorem of_find?_eq_some {p : Polynomial R E} {m n : Monomial R E} (h : p.find? m = some n) :
    n ∈ p.monomials ∧ n.sameUnknowns m = true := by
  rw [find?] at h
  exact ⟨List.mem_of_find?_eq_some h, by simpa using List.find?_some h⟩

/-- A monomial with other unknowns goes to the end. -/
theorem addMonomial_eq_append {monomials : List (Monomial R E)} {monomial : Monomial R E}
    (h : ∀ m ∈ monomials, m.sameUnknowns monomial = false) :
    addMonomial monomials monomial = monomials ++ [monomial] := by
  induction monomials with
  | nil => rfl
  | cons q qs ih =>
    rw [addMonomial, h q List.mem_cons_self, ih fun m hm => h m (List.mem_cons_of_mem q hm)]
    rfl

/-- Adding monomials whose unknowns all differ lists them one after the other. -/
theorem foldl_addMonomial_eq_append {before monomials : List (Monomial R E)}
    (h : Distinct (before ++ monomials)) :
    monomials.foldl addMonomial before = before ++ monomials := by
  induction monomials generalizing before with
  | nil => simp
  | cons q qs ih =>
    have hq : ∀ m ∈ before, m.sameUnknowns q = false := fun m hm =>
      (List.pairwise_append.1 h).2.2 m hm q List.mem_cons_self
    rw [List.foldl_cons, addMonomial_eq_append hq, ih (by simpa using h)]
    simp

variable [Zero R] [BEq R] [Ord E]

/-- No coefficient of a packed sum equals zero. -/
theorem coefficient_ne_of_mem_ofMonomials {monomials : List (Monomial R E)} {m : Monomial R E}
    (h : m ∈ (ofMonomials monomials).monomials) : (m.coefficient != 0) = true :=
  (List.mem_filter.1 (List.mem_mergeSort.1 h)).2

/-- The powers of a packed sum are those of the summands. -/
theorem mem_ofMonomials {monomials : List (Monomial R E)} {m : Monomial R E}
    (h : m ∈ (ofMonomials monomials).monomials) : ∃ n ∈ monomials, m.powers = n.powers := by
  have hfold := (List.mem_filter.1 (List.mem_mergeSort.1 h)).1
  simpa using mem_foldl_addMonomial hfold

/-- Packing one monomial keeps it unless its coefficient equals zero. -/
theorem ofMonomials_singleton (m : Monomial R E) :
    ofMonomials [m] = ⟨if m.coefficient != 0 then [m] else []⟩ := by
  rw [ofMonomials, List.foldl_cons, List.foldl_nil, addMonomial, List.filter_cons, List.filter_nil]
  split <;> simp

/-- The constant of what equals zero has no monomials. -/
theorem constant_of_zero {x : R} (h : (x != 0) = false) :
    (constant x : Polynomial R E) = .zero := by
  have hzero : ((Monomial.constant x : Monomial R E).coefficient != 0) = false := h
  rw [constant, ofMonomials_singleton, hzero]
  rfl

/-- The constant of anything else has it as its only monomial. -/
theorem constant_of_ne_zero {x : R} (h : (x != 0) = true) :
    (constant x : Polynomial R E) = ⟨[.constant x]⟩ := by
  have hne : ((Monomial.constant x : Monomial R E).coefficient != 0) = true := h
  rw [constant, ofMonomials_singleton, hne]
  rfl

end Polynomial

section Sums

variable {R E A : Type} [Add R] [Zero R] [AddCommMonoid A]

/-- A quantity of monomials that is additive in the coefficient. -/
structure Monomial.Additive (f : Monomial R E → A) : Prop where
  merge : ∀ m n : Monomial R E, m.powers = n.powers →
    f (m.withCoefficient (m.coefficient + n.coefficient)) = f m + f n
  drop : ∀ m : Monomial R E, m.coefficient = 0 → f m = 0

variable {f : Monomial R E → A} (hf : Monomial.Additive f)

include hf

/-- Adding a monomial adds its quantity. -/
theorem Monomial.Additive.sum_addMonomial [BEq E] [LawfulBEq E] (ms : List (Monomial R E))
    (m : Monomial R E) : ((Polynomial.addMonomial ms m).map f).sum = (ms.map f).sum + f m := by
  induction ms with
  | nil => simp [Polynomial.addMonomial]
  | cons n ns ih =>
    rw [Polynomial.addMonomial]
    split
    · next hsame =>
      have hmerge := hf.merge n m (eq_of_beq hsame)
      rw [List.map_cons, List.sum_cons, hmerge, List.map_cons, List.sum_cons, add_right_comm]
    · rw [List.map_cons, List.sum_cons, ih, List.map_cons, List.sum_cons, add_assoc]

/-- Monomials with a coefficient of zero add nothing. -/
theorem Monomial.Additive.sum_filter [BEq R] [LawfulBEq R] (ms : List (Monomial R E)) :
    ((ms.filter fun m => m.coefficient != 0).map f).sum = (ms.map f).sum := by
  induction ms with
  | nil => rfl
  | cons m ms ih =>
    by_cases hm : m.coefficient = 0
    · simp [hm, ih, hf.drop m hm]
    · simp [hm, ih]

/-- Packing a list of monomials keeps the sum of an additive quantity. -/
theorem Monomial.Additive.sum_ofMonomials [BEq R] [LawfulBEq R] [BEq E] [LawfulBEq E] [Ord E]
    (ms : List (Monomial R E)) :
    ((Polynomial.ofMonomials ms).monomials.map f).sum = (ms.map f).sum := by
  have hfold (before : List (Monomial R E)) :
      ((ms.foldl Polynomial.addMonomial before).map f).sum =
        (before.map f).sum + (ms.map f).sum := by
    induction ms generalizing before with
    | nil => simp
    | cons m ms ih =>
      rw [List.foldl_cons, ih, hf.sum_addMonomial, List.map_cons, List.sum_cons, add_assoc]
  rw [Polynomial.ofMonomials, ((List.mergeSort_perm _ _).map f).sum_eq, hf.sum_filter, hfold,
    List.map_nil, List.sum_nil, zero_add]

end Sums

end Calculator
