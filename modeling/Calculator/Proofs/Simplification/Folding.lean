import Calculator.Proofs.Polynomial.Packed
import Calculator.Proofs.Printing.Polynomial

/-!
# The tree of a polynomial folds back

Simplification folds the tree that the text of a packed polynomial is read as into that polynomial
again. So it sees no difference between an expression and the same expression with such trees in
place of its polynomials.
-/

namespace Calculator

open Binary64 (isNegative)

namespace Expression

/-- Wherever the expression stands, it is simplified to the other one, unless it reaches below the
depth limit. -/
def SimplifiesTo (e s : Expression Float) : Prop :=
  ∀ depth t, e.simplifyAt depth = .ok t → t = s

variable {e left right : Expression Float} {p q r : Polynomial Float Float}

/-- A polynomial is simplified to itself. -/
theorem simplifiesTo_value (p : Polynomial Float Float) : (value p).SimplifiesTo (value p) := by
  intro depth t h
  rw [simplifyAt_value (le_of_simplifyAt h)] at h
  exact (Except.ok.inj h).symm

/-- An operation on polynomials is simplified to the polynomial that it folds into. -/
theorem SimplifiesTo.operation {op : Operator} (hleft : left.SimplifiesTo (value p))
    (hright : right.SimplifiesTo (value q)) (hfold : op.fold? p q = some r) :
    (Expression.operation op (some left) (some right)).SimplifiesTo (value r) := by
  intro depth t h
  obtain ⟨_, hl, _, hr, rfl⟩ := (simplifyAt_operation_eq_ok_iff (le_of_simplifyAt h)).1 h
  obtain ⟨l, hl', rfl⟩ := simplifyOperand_some_eq_ok_iff.1 hl
  obtain ⟨r, hr', rfl⟩ := simplifyOperand_some_eq_ok_iff.1 hr
  obtain rfl := hleft _ _ hl'
  obtain rfl := hright _ _ hr'
  simp [Operator.combine, Operator.operandPolynomial?, polynomial?, hfold]

/-- A negated polynomial is simplified to its difference from zero. -/
theorem SimplifiesTo.negation (h : e.SimplifiesTo (value p)) :
    (Expression.operation .sub none (some e)).SimplifiesTo (value (Polynomial.zero.sub p)) := by
  intro depth t ht
  obtain ⟨_, hl, _, hr, rfl⟩ := (simplifyAt_operation_eq_ok_iff (le_of_simplifyAt ht)).1 ht
  obtain rfl := Except.ok.inj hl
  obtain ⟨r, hr', rfl⟩ := simplifyOperand_some_eq_ok_iff.1 hr
  obtain rfl := h _ _ hr'
  rfl

end Expression

namespace Monomial

variable {m : Monomial Float Float} {first : Expression Float}

/-- Negating a monomial twice changes nothing. -/
theorem negate_negate (m : Monomial Float Float) : m.negate.negate = m := by
  have hcoefficient : - -m.coefficient = m.coefficient := Binary64.neg_neg m.coefficient
  unfold negate withCoefficient
  simp only [hcoefficient]

/-- The difference of zero and the negation of a monomial is the monomial. -/
theorem zero_sub_negate (m : Monomial Float Float) :
    Polynomial.zero.sub ⟨[m.negate]⟩ = Polynomial.ofMonomials [m] := by
  rw [Polynomial.sub, List.map_singleton, negate_negate]
  rfl

/-- The tree of a number is simplified to its constant. -/
theorem simplifiesTo_number (x : Float) : (Expression.number x).SimplifiesTo (.constant x) := by
  unfold Expression.number
  split
  · have hdifference : Polynomial.zero.sub (.constant (-x)) =
        (Polynomial.constant x : Polynomial Float Float) := by
      cases hzero : x != 0 with
      | true =>
        have hneg : (-x != 0) = true := (Binary64.neg_bne_zero x).trans hzero
        rw [Polynomial.constant_of_ne_zero hneg]
        exact zero_sub_negate (constant x)
      | false =>
        have hneg : (-x != 0) = false := (Binary64.neg_bne_zero x).trans hzero
        rw [Polynomial.constant_of_zero hneg, Polynomial.constant_of_zero hzero]
        simp [Polynomial.sub, Polynomial.ofMonomials, Polynomial.zero]
    have hnegation := (Expression.simplifiesTo_value (.constant (-x))).negation
    rwa [hdifference] at hnegation
  · exact Expression.simplifiesTo_value _

/-- A power of an unknown folds into a monomial. -/
theorem fold?_pow (c : Char) {x : Float} (hx : (x != 0) = true) :
    Operator.pow.fold? (Polynomial.unknown c) (Polynomial.constant x) =
      some ⟨[⟨1, [(c, x)]⟩]⟩ := by
  have hpacked : PackedPowers [(c, x)] := ⟨List.pairwise_singleton _ _, by simpa using hx⟩
  have hone : ((1 : Float) != 0) = true := by decide +kernel
  have hcoefficient : Primitives.pow (1 : Float) x = 1 := Binary64.one_pow x
  have hexponent : (1 : Float) * x = x := Binary64.one_mul x
  have hpow : (unknown c : Monomial Float Float).pow x = ⟨1, [(c, x)]⟩ := by
    simp only [pow, unknown, ofPowers, List.map_cons, List.map_nil]
    rw [hcoefficient, hexponent, packPowers_eq_self hpacked]
  have hfold : Operator.pow.fold? (⟨[unknown c]⟩ : Polynomial Float Float) ⟨[constant x]⟩ =
      some (.ofMonomials [(unknown c).pow x]) := rfl
  rw [Polynomial.unknown_eq, Polynomial.constant_of_ne_zero hx, hfold, hpow,
    Polynomial.ofMonomials_singleton, if_pos hone]

/-- The tree of a power is simplified to the monomial that it is. -/
theorem simplifiesTo_powerTree {power : Char × Float} (hne : (power.2 != 0) = true) :
    (powerTree power).SimplifiesTo (.value ⟨[⟨1, [power]⟩]⟩) := by
  obtain ⟨c, x⟩ := power
  unfold powerTree
  split
  · next hone =>
    obtain rfl := Binary64.eq_one_of_beq hone
    rw [Expression.unknown, Polynomial.unknown_eq]
    exact Expression.simplifiesTo_value _
  · exact (Expression.simplifiesTo_value _).operation (simplifiesTo_number x) (fold?_pow c hne)

/-- The first of packed powers are packed. -/
theorem PackedPowers.of_append {before after : List (Char × Float)}
    (h : PackedPowers (before ++ after)) : PackedPowers before :=
  ⟨(List.pairwise_append.1 h.increasing).1, fun p hp => h.nonzero p (List.mem_append_left after hp)⟩

/-- A product with one more power folds into a monomial. -/
theorem fold?_mul {x : Float} {powers : List (Char × Float)} {power : Char × Float}
    (hx : (x != 0) = true) (hpacked : PackedPowers (powers ++ [power])) :
    Operator.mul.fold? (⟨[⟨x, powers⟩]⟩ : Polynomial Float Float) ⟨[⟨1, [power]⟩]⟩ =
      some ⟨[⟨x, powers ++ [power]⟩]⟩ := by
  have hmul : (⟨x, powers⟩ : Monomial Float Float).mul ⟨1, [power]⟩ = ⟨x, powers ++ [power]⟩ := by
    rw [mul, ofPowers, packPowers_eq_self hpacked, Binary64.mul_one]
  have hfold : Operator.mul.fold? (⟨[⟨x, powers⟩]⟩ : Polynomial Float Float) ⟨[⟨1, [power]⟩]⟩ =
      some (.ofMonomials [(⟨x, powers⟩ : Monomial Float Float).mul ⟨1, [power]⟩]) := rfl
  rw [hfold, hmul, Polynomial.ofMonomials_singleton, if_pos hx]

/-- A chain of powers is simplified to their product with what the chain starts with. -/
theorem simplifiesTo_chain {x : Float} {before after : List (Char × Float)}
    (hfirst : first.SimplifiesTo (.value ⟨[⟨x, before⟩]⟩)) (hx : (x != 0) = true)
    (hpacked : PackedPowers (before ++ after)) :
    (Expression.chain (fun _ => .mul) powerTree first after).SimplifiesTo
      (.value ⟨[⟨x, before ++ after⟩]⟩) := by
  induction after generalizing first before with
  | nil => simpa [Expression.chain] using hfirst
  | cons p ps ih =>
    have hsplit : before ++ p :: ps = (before ++ [p]) ++ ps := by simp
    rw [hsplit] at hpacked ⊢
    have hp := simplifiesTo_powerTree (hpacked.nonzero p (by simp))
    exact ih (hfirst.operation hp (fold?_mul hx hpacked.of_append)) hpacked

/-- The tree of a product is simplified to the monomial. -/
theorem simplifiesTo_productTree (hpacked : PackedPowers m.powers)
    (hne : (m.coefficient != 0) = true) : m.productTree.SimplifiesTo (.value ⟨[m]⟩) := by
  obtain ⟨x, powers⟩ := m
  have hconstant : (Expression.constant x).SimplifiesTo (.value ⟨[⟨x, []⟩]⟩) := by
    rw [Expression.constant, Polynomial.constant_of_ne_zero hne]
    exact Expression.simplifiesTo_value _
  cases powers with
  | nil => exact hconstant
  | cons p ps =>
    rw [productTree]
    simp only
    split
    · next hone =>
      obtain rfl := Binary64.eq_one_of_beq hone
      exact simplifiesTo_chain (simplifiesTo_powerTree (hpacked.nonzero p List.mem_cons_self)) hne
        hpacked
    · exact simplifiesTo_chain hconstant hne hpacked

/-- The tree of the magnitude of a monomial is simplified to the magnitude. -/
theorem simplifiesTo_magnitude (hpacked : PackedPowers m.powers)
    (hne : (m.coefficient != 0) = true) :
    m.magnitude.productTree.SimplifiesTo (.value ⟨[m.magnitude]⟩) := by
  refine simplifiesTo_productTree (by rwa [powers_magnitude]) ?_
  unfold magnitude
  split
  · have hcoefficient : m.negate.coefficient = -m.coefficient := rfl
    rwa [hcoefficient, Binary64.neg_bne_zero]
  · exact hne

/-- The tree of a monomial is simplified to it. -/
theorem simplifiesTo_tree (hpacked : PackedPowers m.powers) (hne : (m.coefficient != 0) = true) :
    m.tree.SimplifiesTo (.value ⟨[m]⟩) := by
  unfold tree
  split
  · next hsign =>
    have hmagnitude := (simplifiesTo_magnitude hpacked hne).negation
    have hdifference : Polynomial.zero.sub ⟨[m.magnitude]⟩ = ⟨[m]⟩ := by
      rw [magnitude, if_pos hsign, zero_sub_negate, Polynomial.ofMonomials_singleton, if_pos hne]
    rwa [hdifference] at hmagnitude
  · exact simplifiesTo_productTree hpacked hne

end Monomial

namespace Polynomial

variable {unknowns : List Char} {p : Polynomial Float Float}

/-- A sum with one more monomial in its place folds into a polynomial. -/
theorem fold?_sign {ms : List (Monomial Float Float)} {m : Monomial Float Float}
    (h : PackedIn unknowns ⟨ms ++ [m]⟩) :
    m.sign.fold? (⟨ms⟩ : Polynomial Float Float) ⟨[m.magnitude]⟩ = some ⟨ms ++ [m]⟩ := by
  unfold Monomial.sign Monomial.magnitude
  split
  · have hnegate : [m.negate].map Monomial.negate = [m] := by
      rw [List.map_singleton, Monomial.negate_negate]
    rw [Operator.fold?, sub, hnegate, h.ofMonomials_eq]
  · rw [Operator.fold?, add, h.ofMonomials_eq]

/-- A chain of monomials is simplified to their sum with what the chain starts with. -/
theorem simplifiesTo_chain {first : Expression Float} {before after : List (Monomial Float Float)}
    (hfirst : first.SimplifiesTo (.value ⟨before⟩)) (h : PackedIn unknowns ⟨before ++ after⟩) :
    (Expression.chain Monomial.sign (fun m => m.magnitude.productTree) first after).SimplifiesTo
      (.value ⟨before ++ after⟩) := by
  induction after generalizing first before with
  | nil => simpa [Expression.chain] using hfirst
  | cons m ms ih =>
    have hsplit : before ++ m :: ms = (before ++ [m]) ++ ms := by simp
    rw [hsplit] at h ⊢
    have hmem : m ∈ (before ++ [m]) ++ ms := by simp
    have hm := Monomial.simplifiesTo_magnitude (h.monomials m hmem).packed (h.nonzero m hmem)
    exact ih (hfirst.operation hm (fold?_sign h.of_append)) h

/-- The tree of a packed polynomial is simplified to it. -/
theorem PackedIn.simplifiesTo_tree (h : p.PackedIn unknowns) : p.tree.SimplifiesTo (.value p) := by
  obtain ⟨ms⟩ := p
  cases ms with
  | nil => exact Expression.simplifiesTo_value _
  | cons m ms =>
    have hm := Monomial.simplifiesTo_tree (h.monomials m List.mem_cons_self).packed
      (h.nonzero m List.mem_cons_self)
    exact simplifiesTo_chain hm h

end Polynomial

end Calculator
