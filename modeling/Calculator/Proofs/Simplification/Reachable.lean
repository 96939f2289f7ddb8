import Calculator.Proofs.Decimal.Nonnegative
import Calculator.Proofs.Polynomial.Canonical
import Calculator.Proofs.Polynomial.Unknowns
import Calculator.Proofs.Printing.Lossless
import Calculator.Proofs.Simplification.Unknowns

/-!
# Expressions reached from a text

A parsed expression is worked on in steps: it is simplified, or a value is put in place of an
unknown. Every expression that is reached is well formed and packed like the parsed one, and has no
unknown that one before it did not have.
-/

namespace Calculator

variable {unknowns : List Char}

namespace Expression

variable {e e' : Expression Float}

/-- A step of work on an expression: it is simplified, or a value is put in place of an unknown. -/
inductive Step : Expression Float → Expression Float → Prop
  | simplify {e s : Expression Float} (h : e.simplify = .ok s) : Step e s
  | substitute (e : Expression Float) (symbol : Char) (x : Float) : Step e (e.substitute symbol x)

/-- Any number of steps of work, one after the other. -/
abbrev Reaches : Expression Float → Expression Float → Prop :=
  Relation.ReflTransGen Step

/-- A step keeps an expression packed. -/
theorem Step.packedIn (h : Step e e') (he : e.PackedIn unknowns) : e'.PackedIn unknowns := by
  cases h with
  | simplify h => exact he.simplifyAt h
  | substitute symbol x => exact he.substitute symbol x

/-- A step brings in no unknowns. -/
theorem Step.symbols_subset (h : Step e e') : e'.symbols ⊆ e.symbols := by
  cases h with
  | simplify h => exact fun c hc => mem_symbols_of_simplifyAt h hc
  | substitute symbol x => exact fun c hc => (mem_symbols_substitute hc).1

/-- Any number of steps keeps an expression packed. -/
theorem Reaches.packedIn (h : Reaches e e') (he : e.PackedIn unknowns) :
    e'.PackedIn unknowns := by
  induction h with
  | refl => exact he
  | tail _ hstep ih => exact hstep.packedIn ih

/-- Any number of steps brings in no unknowns. -/
theorem Reaches.unknowns_subset (h : Reaches e e') : e'.unknowns ⊆ e.unknowns := by
  have hsymbols : e'.symbols ⊆ e.symbols := by
    induction h with
    | refl => exact fun _ hc => hc
    | tail _ hstep ih => exact fun _ hc => ih (hstep.symbols_subset hc)
  exact fun c hc => mem_unknowns_iff.2 (hsymbols (mem_unknowns_iff.1 hc))

/-- The unknowns of a packed expression are in the list that it is packed in. -/
theorem PackedIn.unknowns_subset (h : e.PackedIn unknowns) : e.unknowns ⊆ unknowns := by
  intro c hc
  obtain ⟨p, hp, hc⟩ := exists_of_mem_symbols (mem_unknowns_iff.1 hc)
  obtain ⟨m, hm, hc⟩ := Polynomial.mem_unknowns_iff.1 hc
  obtain ⟨power, hpower, rfl⟩ := List.mem_map.1 hc
  exact ((h.polynomials p hp).monomials m hm).symbols power hpower

/-- Only a subtraction does without its left operand, and only a factorial has no right one. -/
theorem WellFormed.operands_iff (h : e.WellFormed) {op : Operator}
    {left right : Option (Expression Float)} (hoccurs : Occurs (operation op left right) e) :
    (left = none → op = .sub) ∧ (right.isSome = true ↔ op ≠ .factorial) := by
  obtain ⟨-, habsent, hneeds⟩ := operation?_eq_ok_iff.1 (h.operands op left right hoccurs)
  refine ⟨fun hnone => Operator.eq_sub_of_needsLeft (habsent hnone), ?_⟩
  rw [← hneeds]
  constructor
  · rintro hright rfl
    cases hright
  · intro hne
    by_contra hright
    exact hne (Operator.eq_factorial_of_needsRight (eq_false_of_ne_true hright))

end Expression

/-- A leaf of the grammar is a constant that is zero or more, or one unknown with coefficient and
exponent one. -/
theorem Leaf.constant_or_unknown {cs : List Char} {p : Polynomial Float Float}
    (h : Leaf unknowns cs (.value p)) :
    (∃ x : Float, 0 ≤ x ∧ p = .constant x) ∨ ∃ c ∈ unknowns, p = ⟨[⟨1, [(c, 1)]⟩]⟩ := by
  generalize he : Expression.value p = e at h
  cases h with
  | pi => exact .inl ⟨Calculator.pi, by decide +kernel, Expression.value.inj he⟩
  | euler => exact .inl ⟨Calculator.euler, by decide +kernel, Expression.value.inj he⟩
  | @unknown c hc =>
    have hp := Expression.value.inj he
    rw [Polynomial.unknown_eq] at hp
    exact .inr ⟨c, hc, hp⟩
  | @literal _ d h =>
    exact .inl ⟨d.toFloat, Decimal.zero_le_toFloat h.negative_eq, Expression.value.inj he⟩

/-- The leaves of a parsed expression are constants that are zero or more and single unknowns. In
all that is reached from it, operations have the operands that their operators take, calls have
arguments, and polynomials are packed; their form is canonical unless an exponent has become
undefined, as in a power with an undefined exponent. All unknowns are among those parsed with, and
among those of what was there before. -/
theorem reaches_of_parse {limit : Nat} {text : String} {t : Expression Float}
    (h : parse unknowns limit text = .ok t) :
    (∀ p, Expression.Occurs (.value p) t →
      (∃ x : Float, 0 ≤ x ∧ p = .constant x) ∨ ∃ c ∈ unknowns, p = ⟨[⟨1, [(c, 1)]⟩]⟩) ∧
    ∀ e, t.Reaches e →
      (∀ op left right, Expression.Occurs (.operation op left right) e →
        (left = none → op = .sub) ∧ (right.isSome = true ↔ op ≠ .factorial)) ∧
      (∀ f args, Expression.Occurs (.call f args) e → args ≠ []) ∧
      (∀ p, Expression.Occurs (.value p) e →
        p.PackedIn unknowns ∧ (p.ExponentsDefined → p.Canonical)) ∧
      e.unknowns ⊆ unknowns ∧ ∀ e', e.Reaches e' → e'.unknowns ⊆ e.unknowns := by
  constructor
  · intro p hp
    have hderived := derives_of_readPiece (isUnknownSymbol_of_parse h) (readPiece_of_parse h)
    obtain ⟨cs, hleaf⟩ := hderived.exists_leaf hp
    exact hleaf.constant_or_unknown
  · intro e he
    have hpacked := he.packedIn (packedIn_of_parse h)
    refine ⟨fun op left right => hpacked.wellFormed.operands_iff, hpacked.wellFormed.arguments,
      fun p hp => ?_, hpacked.unknowns_subset, fun e' he' => he'.unknowns_subset⟩
    have hpolynomial := hpacked.polynomials p hp
    exact ⟨hpolynomial, hpolynomial.canonical⟩

/-- With two in place of its unknown, a negation that was parsed has packed polynomials and no
unknowns but the one that it was parsed with. -/
theorem reaches_negatedUnknown :
    ∃ t, parse ['x'] 2 "-x" = .ok t ∧
      (∀ p, Expression.Occurs (.value p) (t.substitute 'x' 2) → p.PackedIn ['x']) ∧
      (t.substitute 'x' 2).unknowns ⊆ ['x'] := by
  have hx : Derives ['x'] .atom ['x'] (.unknown 'x') := .leaf (.unknown (by simp))
  have hderives : Derives ['x'] (.chain .sum) ['-', 'x']
      (.operation .sub none (some (.unknown 'x'))) :=
    .negation (.plain (hx.tighter_of_atom .sum))
  have hunknowns : ∀ c ∈ ['x'], isUnknownSymbol c = true :=
    List.forall_mem_singleton.2 (by decide +kernel)
  have hblanks : Text.stripBlanks ['-', 'x'] = ['-', 'x'] := by decide +kernel
  have hparse := parse_of_derives hunknowns (hblanks.symm ▸ hderives) (Nat.le_refl 2)
  obtain ⟨-, hreached⟩ := reaches_of_parse hparse
  obtain ⟨-, -, hpacked, hsubset, -⟩ := hreached _ (.single (.substitute _ 'x' 2))
  exact ⟨_, hparse, fun p hp => (hpacked p hp).1, hsubset⟩

end Calculator
