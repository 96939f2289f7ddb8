import Calculator.Proofs.Polynomial.Packed

/-!
# Canonical form of polynomials

Every polynomial that the operations make is a packed sum of monomials. If none of its exponents
is undefined, its monomials are in strict order, and the coefficients of a polynomial determine it.
-/

namespace Calculator

/-- Doubles with the same key are the same. -/
theorem Binary64.eq_of_orderKey_eq {x y : Float} (h : orderKey x = orderKey y) : x = y := by
  have hlimit : Nat.pow 2 63 = 9223372036854775808 := rfl
  have hlimit' : Int.pow 2 63 = 9223372036854775808 := rfl
  have hbits : x.toBits.toNat = y.toBits.toNat := by
    simp only [orderKey, hlimit, hlimit'] at h
    split at h <;> split at h <;> omega
  exact Float.toBits_inj.1 (UInt64.toNat_inj.1 hbits)

instance Binary64.lawfulEqOrd : Std.LawfulEqOrd Float where
  eq_of_compare {x y} h := by
    have hkeys : compare (Binary64.orderKey x) (Binary64.orderKey y) = .eq := h
    exact Binary64.eq_of_orderKey_eq (Std.LawfulEqCmp.eq_of_compare hkeys)

namespace Monomial

variable {m n : Monomial Float Float}

/-- Packed monomials with the same unknowns have the same powers. -/
theorem powers_eq_of_sameUnknowns (hn : PackedPowers n.powers) (h : m.sameUnknowns n = true) :
    m.powers = n.powers := by
  have hpowers (ps qs : List (Char × Float)) (hqs : ∀ q ∈ qs, (q.2 != 0) = true)
      (h : (ps == qs) = true) : ps = qs := by
    induction ps generalizing qs with
    | nil =>
      cases qs with
      | nil => rfl
      | cons => cases h
    | cons p ps ih =>
      cases qs with
      | nil => cases h
      | cons q qs =>
        obtain ⟨hq, hqs⟩ := List.forall_mem_cons.1 hqs
        obtain ⟨hpq, hrest⟩ := Bool.and_eq_true_iff.1 h
        obtain ⟨hsymbol, hexponent⟩ := Bool.and_eq_true_iff.1 hpq
        have hpq : p = q := Prod.ext (eq_of_beq hsymbol)
          (Binary64.eq_of_beq_of_ne hexponent ((Bool.not_eq_true' _).mp hq))
        rw [hpq, ih qs hqs hrest]
  exact hpowers m.powers n.powers hn.nonzero h

/-- A monomial has its own unknowns unless an exponent is undefined. -/
theorem sameUnknowns_self (h : ∀ p ∈ m.powers, p.2.isNaN = false) :
    m.sameUnknowns m = true := by
  have hpowers (ps : List (Char × Float)) (h : ∀ p ∈ ps, p.2.isNaN = false) :
      (ps == ps) = true := by
    induction ps with
    | nil => rfl
    | cons p ps ih =>
      obtain ⟨hp, hps⟩ := List.forall_mem_cons.1 h
      have hexponent : (p.2 == p.2) = true := by
        rw [Float.isNaN_eq_decide_eq_nan] at hp
        exact Float.beq_self_iff.2 (of_decide_eq_false hp)
      have hp : (p == p) = true := Bool.and_eq_true_iff.2 ⟨beq_self_eq_true p.1, hexponent⟩
      exact Bool.and_eq_true_iff.2 ⟨hp, ih hps⟩
  exact hpowers m.powers h

/-- The monomials that the operations on monomials make. -/
inductive Made : Monomial Float Float → Prop
  | ofPowers (x : Float) (powers : List (Char × Float)) : Made (.ofPowers x powers)
  | constant (x : Float) : Made (.constant x)
  | unknown (c : Char) : Made (.unknown c)
  | withCoefficient {m : Monomial Float Float} (h : Made m) (x : Float) :
    Made (m.withCoefficient x)
  | negate {m : Monomial Float Float} (h : Made m) : Made m.negate
  | mul {m n : Monomial Float Float} (hm : Made m) (hn : Made n) : Made (m.mul n)
  | reciprocal {m : Monomial Float Float} (h : Made m) : Made m.reciprocal
  | pow {m : Monomial Float Float} (h : Made m) (exponent : Float) : Made (m.pow exponent)
  | substitute {m : Monomial Float Float} (h : Made m) (symbol : Char) (x : Float) :
    Made (m.substitute symbol x)

/-- A monomial with packed powers is packed in its own unknowns. -/
theorem packedIn_symbols (h : PackedPowers m.powers) : m.PackedIn (m.powers.map (·.1)) where
  packed := h
  symbols _ hp := List.mem_map_of_mem hp

/-- The powers of every monomial that is made are packed. -/
theorem Made.packedPowers (h : m.Made) : PackedPowers m.powers := by
  induction h with
  | ofPowers x powers => exact packedPowers_packPowers powers
  | constant x =>
    have hconstant : (Monomial.constant x).PackedIn [] := packedIn_constant x
    exact hconstant.packed
  | unknown c => exact (packedIn_unknown (List.mem_singleton_self c)).packed
  | withCoefficient _ _ ih => exact ih
  | negate _ ih => exact ih
  | mul => exact packedPowers_packPowers _
  | reciprocal _ ih => exact (packedIn_symbols ih).reciprocal.packed
  | pow => exact packedPowers_packPowers _
  | substitute _ symbol x ih => exact ((packedIn_symbols ih).substitute symbol x).packed

end Monomial

namespace Polynomial

variable {p q : Polynomial Float Float} {ms : List (Monomial Float Float)}

/-- The polynomials that the operations on polynomials make of monomials that are made. -/
inductive Made : Polynomial Float Float → Prop
  | ofMonomials {ms : List (Monomial Float Float)} (h : ∀ m ∈ ms, m.Made) : Made (.ofMonomials ms)
  | zero : Made .zero
  | constant (x : Float) : Made (.constant x)
  | unknown (c : Char) : Made (.unknown c)
  | add {p q : Polynomial Float Float} (hp : Made p) (hq : Made q) : Made (p.add q)
  | sub {p q : Polynomial Float Float} (hp : Made p) (hq : Made q) : Made (p.sub q)
  | mul {p q : Polynomial Float Float} (hp : Made p) (hq : Made q) : Made (p.mul q)
  | div {p q r : Polynomial Float Float} (hp : Made p) (hq : Made q) (h : p.div q = some r) : Made r
  | pow {p q r : Polynomial Float Float} (hp : Made p) (hq : Made q) (h : p.pow q = some r) : Made r
  | substitute {p : Polynomial Float Float} (h : Made p) (symbol : Char) (x : Float) :
    Made (p.substitute symbol x)

/-- The monomials of a packed sum of monomials that are made are made as well. -/
theorem made_of_mem_ofMonomials (h : ∀ m ∈ ms, m.Made) :
    ∀ m ∈ (ofMonomials ms).monomials, m.Made := by
  intro m hm
  obtain ⟨n, hn, heq⟩ := mem_ofMonomials hm
  have hm : m = n.withCoefficient m.coefficient := by rw [Monomial.withCoefficient, ← heq]
  exact hm ▸ (h n hn).withCoefficient m.coefficient

/-- Every polynomial that is made is a packed sum of monomials that are made. -/
theorem Made.exists_ofMonomials (h : p.Made) :
    ∃ ms : List (Monomial Float Float), (∀ m ∈ ms, m.Made) ∧ p = Polynomial.ofMonomials ms := by
  have hmembers {p : Polynomial Float Float}
      (h : ∃ ms : List (Monomial Float Float), (∀ m ∈ ms, m.Made) ∧ p = Polynomial.ofMonomials ms) :
      ∀ m ∈ p.monomials, m.Made := by
    obtain ⟨ms, hms, rfl⟩ := h
    exact made_of_mem_ofMonomials hms
  have hproduct {p q : Polynomial Float Float} (hp : ∀ m ∈ p.monomials, m.Made)
      (hq : ∀ m ∈ q.monomials, m.Made) :
      ∃ ms : List (Monomial Float Float),
        (∀ m ∈ ms, m.Made) ∧ p.mul q = Polynomial.ofMonomials ms := by
    refine ⟨_, fun m hm => ?_, rfl⟩
    obtain ⟨k, hk, hm⟩ := List.mem_flatMap.1 hm
    obtain ⟨n, hn, rfl⟩ := List.mem_map.1 hm
    exact (hp k hk).mul (hq n hn)
  induction h with
  | @ofMonomials ms h => exact ⟨ms, h, rfl⟩
  | zero => exact ⟨[], nofun, by simp [Polynomial.zero, Polynomial.ofMonomials]⟩
  | constant x => exact ⟨_, List.forall_mem_singleton.2 (.constant x), rfl⟩
  | unknown c => exact ⟨_, List.forall_mem_singleton.2 (.unknown c), rfl⟩
  | add _ _ ihp ihq =>
    exact ⟨_, List.forall_mem_append.2 ⟨hmembers ihp, hmembers ihq⟩, rfl⟩
  | sub _ _ ihp ihq =>
    refine ⟨_, List.forall_mem_append.2 ⟨hmembers ihp, fun m hm => ?_⟩, rfl⟩
    obtain ⟨n, hn, rfl⟩ := List.mem_map.1 hm
    exact (hmembers ihq n hn).negate
  | mul _ _ ihp ihq => exact hproduct (hmembers ihp) (hmembers ihq)
  | div _ _ h ihp ihq =>
    obtain ⟨single, hsingle, rfl⟩ | ⟨-, -, -, ratio, -, rfl⟩ := Polynomial.div_eq_some_iff.1 h
    · have hreciprocal := (hmembers ihq single (by simp [hsingle])).reciprocal
      exact hproduct (hmembers ihp) (List.forall_mem_singleton.2 hreciprocal)
    · exact ⟨_, List.forall_mem_singleton.2 (.constant ratio), rfl⟩
  | pow _ _ h ihp _ =>
    obtain ⟨k, -, ⟨-, rfl⟩ | ⟨m, hm, rfl⟩⟩ := Polynomial.pow_eq_some_iff.1 h
    · exact ⟨_, List.forall_mem_singleton.2 (.constant _), rfl⟩
    · have hmade := hmembers ihp m (by simp [hm])
      exact ⟨_, List.forall_mem_singleton.2 (hmade.pow k), rfl⟩
  | substitute _ symbol x ih =>
    refine ⟨_, fun m hm => ?_, rfl⟩
    obtain ⟨n, hn, rfl⟩ := List.mem_map.1 hm
    exact (hmembers ih n hn).substitute symbol x

/-- A polynomial in canonical form: in every monomial the unknowns are in strict order and no
exponent equals zero, no coefficient equals zero, no two monomials have the same unknowns, and the
monomials are in strict order, a constant being the last. -/
structure Canonical (p : Polynomial Float Float) : Prop where
  packed : ∀ m ∈ p.monomials, Monomial.PackedPowers m.powers
  nonzero : ∀ m ∈ p.monomials, (m.coefficient != 0) = true
  distinct : Distinct p.monomials
  ordered : p.monomials.Pairwise fun m n => m.canonicalOrder n = .lt
  constantLast : ∀ m ∈ p.monomials.dropLast, m.isConstant = false

/-- No exponent of the polynomial is undefined. -/
def ExponentsDefined (p : Polynomial Float Float) : Prop :=
  ∀ m ∈ p.monomials, ∀ x ∈ m.powers, x.2.isNaN = false

/-- The coefficient that a polynomial gives to a product of powers, which is zero if none of its
monomials has them. -/
def coefficientOf (p : Polynomial Float Float) (powers : List (Char × Float)) : Float :=
  ((p.find? (.ofPowers 0 powers)).map (·.coefficient)).getD 0

/-- In strict order only the last monomial may be a constant. -/
theorem constantLast_of_ordered (h : ms.Pairwise fun m n => m.canonicalOrder n = .lt) :
    ∀ m ∈ ms.dropLast, m.isConstant = false := by
  induction ms with
  | nil => exact nofun
  | cons m ms ih =>
    obtain ⟨hm, hms⟩ := List.pairwise_cons.1 h
    cases ms with
    | nil => exact nofun
    | cons n ns =>
      rw [List.dropLast_cons_cons, List.forall_mem_cons]
      refine ⟨?_, ih hms⟩
      have hlt := hm n List.mem_cons_self
      cases hpowers : m.powers with
      | cons => simp [Monomial.isConstant, hpowers]
      | nil => cases hn : n.powers <;> simp [Monomial.canonicalOrder, hpowers, hn] at hlt

/-- A packed polynomial with exponents that are all defined is in canonical form. -/
theorem PackedIn.canonical {unknowns : List Char} (h : p.PackedIn unknowns)
    (hdefined : p.ExponentsDefined) : p.Canonical := by
  have hordered : p.monomials.Pairwise fun m n => m.canonicalOrder n = .lt := by
    refine (h.ordered.and h.distinct).imp_of_mem fun {m n} hm _ hmn => ?_
    cases horder : m.canonicalOrder n with
    | lt => rfl
    | gt =>
      rw [horder] at hmn
      cases hmn.1
    | eq =>
      have hpowers := Monomial.canonicalOrder_eq_iff.1 horder
      have hsame : m.sameUnknowns n = true := by
        rw [Monomial.sameUnknowns, ← hpowers]
        exact Monomial.sameUnknowns_self (hdefined m hm)
      rw [hsame] at hmn
      cases hmn.2
  exact {
    packed := fun m hm => (h.monomials m hm).packed
    nonzero := h.nonzero
    distinct := h.distinct
    ordered := hordered
    constantLast := constantLast_of_ordered hordered }

/-- What is made, with exponents that are all defined, is in canonical form. -/
theorem Made.canonical (h : p.Made) (hdefined : p.ExponentsDefined) : p.Canonical := by
  obtain ⟨ms, hms, rfl⟩ := h.exists_ofMonomials
  have hpacked : (Polynomial.ofMonomials ms).PackedIn (ms.flatMap fun m => m.powers.map (·.1)) :=
    packedIn_ofMonomials fun m hm => ⟨(hms m hm).packedPowers, fun x hx =>
      List.mem_flatMap.2 ⟨m, hm, List.mem_map_of_mem hx⟩⟩
  exact hpacked.canonical hdefined

/-- A monomial of a polynomial in canonical form is the one that has its unknowns. -/
theorem Canonical.find?_eq (hp : p.Canonical) (hdefined : p.ExponentsDefined)
    {m : Monomial Float Float} (hm : m ∈ p.monomials) : p.find? m = some m := by
  have hself := Monomial.sameUnknowns_self (hdefined m hm)
  have hsome : (p.find? m).isSome = true := List.find?_isSome.2 ⟨m, hm, hself⟩
  obtain ⟨n, hn⟩ := Option.isSome_iff_exists.1 hsome
  obtain ⟨hmem, hsame⟩ := of_find?_eq_some hn
  have hnm : n = m := by
    by_contra hne
    have hsymm : Std.Symm fun m n : Monomial Float Float => m.sameUnknowns n = false :=
      ⟨fun m n h => (Monomial.sameUnknowns_comm n m).trans h⟩
    have hdistinct := hp.distinct.forall hmem hm hne
    rw [hsame] at hdistinct
    cases hdistinct
  rw [hn, hnm]

/-- A monomial of a polynomial in canonical form has the coefficient of its powers. -/
theorem Canonical.coefficientOf_eq (hp : p.Canonical) (hdefined : p.ExponentsDefined)
    {m : Monomial Float Float} (hm : m ∈ p.monomials) :
    p.coefficientOf m.powers = m.coefficient := by
  have hpacked := Monomial.packPowers_eq_self (hp.packed m hm)
  have hfind : p.find? (.ofPowers 0 m.powers) = p.find? m := by
    simp only [find?, Monomial.sameUnknowns, Monomial.ofPowers, hpacked]
  rw [coefficientOf, hfind, hp.find?_eq hdefined hm]
  rfl

/-- What has packed powers with their coefficient in a polynomial is a monomial of it. -/
theorem mem_of_coefficientOf_eq {m : Monomial Float Float}
    (hpacked : Monomial.PackedPowers m.powers) (hnonzero : (m.coefficient != 0) = true)
    (h : p.coefficientOf m.powers = m.coefficient) : m ∈ p.monomials := by
  rw [coefficientOf] at h
  cases hfind : p.find? (.ofPowers 0 m.powers) with
  | none =>
    rw [hfind] at h
    rw [← h] at hnonzero
    cases hnonzero
  | some n =>
    rw [hfind] at h
    obtain ⟨hmem, hsame⟩ := of_find?_eq_some hfind
    rw [Monomial.sameUnknowns, Monomial.ofPowers, Monomial.packPowers_eq_self hpacked] at hsame
    have hpowers := Monomial.powers_eq_of_sameUnknowns hpacked hsame
    have hnm : n = m := by
      obtain ⟨_, _⟩ := n
      obtain ⟨_, _⟩ := m
      exact congrArg₂ Monomial.mk h hpowers
    exact hnm ▸ hmem

/-- Polynomials in canonical form that give the same coefficients are the same. -/
theorem Canonical.ext (hp : p.Canonical) (hq : q.Canonical) (hpdefined : p.ExponentsDefined)
    (hqdefined : q.ExponentsDefined)
    (h : ∀ powers, p.coefficientOf powers = q.coefficientOf powers) : p = q := by
  have hmem (m : Monomial Float Float) : m ∈ p.monomials ↔ m ∈ q.monomials := by
    constructor
    · intro hm
      exact mem_of_coefficientOf_eq (hp.packed m hm) (hp.nonzero m hm)
        ((h m.powers).symm.trans (hp.coefficientOf_eq hpdefined hm))
    · intro hm
      exact mem_of_coefficientOf_eq (hq.packed m hm) (hq.nonzero m hm)
        ((h m.powers).trans (hq.coefficientOf_eq hqdefined hm))
  exact congrArg Polynomial.mk (eq_of_mem_iff hp.ordered hq.ordered hmem)

/-- Every polynomial that is made, by whatever operations, is in canonical form if none of its
exponents is undefined, and two such polynomials that give the same coefficients to all products
of powers have the same list of monomials. -/
theorem Made.canonical_and_eq_of_coefficientOf (hp : p.Made) (hdefined : p.ExponentsDefined) :
    p.Canonical ∧ ∀ q : Polynomial Float Float, q.Made → q.ExponentsDefined →
      (∀ powers, p.coefficientOf powers = q.coefficientOf powers) → p = q :=
  ⟨hp.canonical hdefined, fun _ hq hqdefined h =>
    (hp.canonical hdefined).ext (hq.canonical hqdefined) hdefined hqdefined h⟩

/-- An unknown and a constant make one polynomial in canonical form in either order. -/
theorem canonical_unknownAndTwo :
    (ofMonomials [.constant 2, .unknown 'x'] : Polynomial Float Float).Canonical ∧
      (ofMonomials [.constant 2, .unknown 'x'] : Polynomial Float Float) =
        ofMonomials [.unknown 'x', .constant 2] := by
  have hconstantFirst : (ofMonomials [.constant 2, .unknown 'x'] : Polynomial Float Float) =
      ⟨[⟨1, [('x', 1)]⟩, ⟨2, []⟩]⟩ := by
    have hpacked : (([.constant 2, .unknown 'x'] : List (Monomial Float Float)).foldl
        addMonomial []).filter (fun m => m.coefficient != 0) = [⟨2, []⟩, ⟨1, [('x', 1)]⟩] := by
      decide +kernel
    rw [ofMonomials, hpacked]
    simp [List.mergeSort, Monomial.canonicalOrder]
  have hunknownFirst : (ofMonomials [.unknown 'x', .constant 2] : Polynomial Float Float) =
      ⟨[⟨1, [('x', 1)]⟩, ⟨2, []⟩]⟩ := by
    have hpacked : (([.unknown 'x', .constant 2] : List (Monomial Float Float)).foldl
        addMonomial []).filter (fun m => m.coefficient != 0) = [⟨1, [('x', 1)]⟩, ⟨2, []⟩] := by
      decide +kernel
    rw [ofMonomials, hpacked]
    simp [List.mergeSort, List.cons_merge_cons, Monomial.canonicalOrder]
  have hmade (ms : List (Monomial Float Float)) (hms : ms ⊆ [.constant 2, .unknown 'x']) :
      Made (ofMonomials ms) := by
    refine .ofMonomials fun m hm => ?_
    obtain rfl | rfl : m = .constant 2 ∨ m = .unknown 'x' := by simpa using hms hm
    · exact .constant 2
    · exact .unknown 'x'
  have hdefined : ExponentsDefined ⟨[⟨1, [('x', 1)]⟩, ⟨2, []⟩]⟩ := by
    have hone : (1 : Float) ≠ Float.nan := by decide +kernel
    simp [ExponentsDefined, hone]
  obtain ⟨hcanonical, hunique⟩ := Made.canonical_and_eq_of_coefficientOf
    (hmade [.constant 2, .unknown 'x'] (by simp)) (hconstantFirst ▸ hdefined)
  refine ⟨hcanonical, hunique _ (hmade _ (by simp)) (hunknownFirst ▸ hdefined) fun powers => ?_⟩
  rw [hconstantFirst, hunknownFirst]

end Polynomial

end Calculator
