import Calculator.Binary64.Scalar
import Calculator.Proofs.Expression.Height

/-!
# The normal form of simplification

A simplified expression has no operation left that folds, so that simplifying it again changes
nothing. It reaches no deeper than the expression it was made of, and it is a polynomial if that
was put together by addition, subtraction and multiplication only.
-/

namespace Calculator.Expression

variable {K : Type} {e s : Expression K} {op : Operator} {left right : Option (Expression K)}
  {depth : Nat}

/-- The expression is made of polynomials by addition, subtraction and multiplication only. -/
structure IsRingTree (e : Expression K) : Prop where
  calls : ∀ f args, ¬Occurs (call f args) e
  operators : ∀ op left right, Occurs (operation op left right) e →
    op = .add ∨ op = .sub ∨ op = .mul

/-- A polynomial is made of itself. -/
theorem isRingTree_value (p : Polynomial K K) : (value p).IsRingTree := by
  constructor <;> simp

/-- A sum, a difference or a product of what is made so is made so. -/
theorem isRingTree_operation (hop : op = .add ∨ op = .sub ∨ op = .mul)
    (hleft : ∀ a ∈ left, a.IsRingTree) (hright : ∀ a ∈ right, a.IsRingTree) :
    (operation op left right).IsRingTree := by
  constructor
  · intro f args hoccurs
    obtain heq | ⟨a, ha, hoccurs⟩ | ⟨a, ha, hoccurs⟩ := occurs_operation_iff.1 hoccurs
    · cases heq
    · exact (hleft a ha).calls f args hoccurs
    · exact (hright a ha).calls f args hoccurs
  · intro op' left' right' hoccurs
    obtain heq | ⟨a, ha, hoccurs⟩ | ⟨a, ha, hoccurs⟩ := occurs_operation_iff.1 hoccurs
    · obtain ⟨rfl, -, -⟩ := operation.inj heq
      exact hop
    · exact (hleft a ha).operators op' left' right' hoccurs
    · exact (hright a ha).operators op' left' right' hoccurs

/-- What stands in an expression that is made so is made so. -/
theorem IsRingTree.of_occurs {a : Expression K} (h : e.IsRingTree)
    (ha : ∀ s, Occurs s a → Occurs s e) : a.IsRingTree where
  calls f args hs := h.calls f args (ha _ hs)
  operators op left right hs := h.operators op left right (ha _ hs)

variable [Scalar K]

/-- No operation in the expression folds: the operator makes no polynomial of operands that are
polynomials, an absent one counting as zero. -/
def Folded (e : Expression K) : Prop :=
  ∀ op left right, Occurs (operation op left right) e →
    ∀ p ∈ Operator.operandPolynomial? left, ∀ q ∈ Operator.operandPolynomial? right,
      op.fold? p q = none

/-- A polynomial has no operation in it. -/
theorem folded_value (p : Polynomial K K) : (value p).Folded := by
  intro op left right h
  cases occurs_value_iff.1 h

/-- A call is folded if its arguments are. -/
theorem folded_call {f : NamedFunction} {args : List (Expression K)} (h : ∀ a ∈ args, a.Folded) :
    (call f args).Folded := by
  intro op left right hoccurs
  obtain heq | ⟨a, ha, hoccurs⟩ := occurs_call_iff.1 hoccurs
  · cases heq
  · exact h a ha op left right hoccurs

/-- An operation is folded if its operands are and it does not fold itself. -/
theorem folded_operation (hleft : ∀ a ∈ left, a.Folded) (hright : ∀ a ∈ right, a.Folded)
    (h : ∀ p ∈ Operator.operandPolynomial? left, ∀ q ∈ Operator.operandPolynomial? right,
      op.fold? p q = none) : (operation op left right).Folded := by
  intro op' left' right' hoccurs
  obtain heq | ⟨a, ha, hoccurs⟩ | ⟨a, ha, hoccurs⟩ := occurs_operation_iff.1 hoccurs
  · obtain ⟨rfl, rfl, rfl⟩ := operation.inj heq
    exact h
  · exact hleft a ha op' left' right' hoccurs
  · exact hright a ha op' left' right' hoccurs

/-- Folded operands are combined into something folded. -/
theorem folded_combine (op : Operator) (hleft : ∀ a ∈ left, a.Folded)
    (hright : ∀ a ∈ right, a.Folded) : (op.combine left right).Folded := by
  rw [Operator.combine]
  split
  · next p q hp hq =>
    split
    · exact folded_value _
    · next hnone =>
      refine folded_operation hleft hright fun p' hp' q' hq' => ?_
      obtain rfl := Option.some.inj (hp.symm.trans hp')
      obtain rfl := Option.some.inj (hq.symm.trans hq')
      exact hnone
  · next hnot => exact folded_operation hleft hright fun p hp q hq => (hnot p q hp hq).elim

/-- What is simplified is folded. -/
theorem folded_of_simplifyAt (h : e.simplifyAt depth = .ok s) : s.Folded := by
  have hdepth := le_of_simplifyAt h
  induction e generalizing depth s with
  | value p =>
    rw [simplifyAt_value hdepth] at h
    obtain rfl := Except.ok.inj h
    exact folded_value p
  | call f args ih =>
    obtain ⟨simplified, hargs, rfl⟩ := (simplifyAt_call_eq_ok_iff hdepth).1 h
    refine folded_call fun t ht => ?_
    obtain ⟨a, ha, ht⟩ := exists_of_simplifyArgs hargs t ht
    exact ih a ha ht (le_of_simplifyAt ht)
  | operation op left right ihleft ihright =>
    obtain ⟨l, hl, r, hr, rfl⟩ := (simplifyAt_operation_eq_ok_iff hdepth).1 h
    refine folded_combine op (fun t ht => ?_) fun t ht => ?_
    · obtain ⟨a, ha, ht⟩ := (exists_of_simplifyOperand hl).2 t ht
      exact ihleft a ha ht (le_of_simplifyAt ht)
    · obtain ⟨a, ha, ht⟩ := (exists_of_simplifyOperand hr).2 t ht
      exact ihright a ha ht (le_of_simplifyAt ht)

/-- Simplification makes no expression higher. -/
theorem height_le_of_simplify (h : e.simplify = .ok s) : s.height ≤ e.height := by
  have hroom : 0 + e.height ≤ depthLimit := exists_simplifyAt_iff.1 ⟨s, h⟩
  -- At the deepest place that has room for the expression, what it is simplified to has room too.
  obtain ⟨t, ht⟩ : ∃ t, e.simplifyAt (depthLimit - e.height) = .ok t :=
    exists_simplifyAt_iff.2 (by omega)
  obtain rfl : t = s := Except.ok.inj ((simplifyAt_of_le ht (Nat.zero_le _)).symm.trans h)
  have hroom' := exists_simplifyAt_iff.1 ⟨t, simplifyAt_simplified ht⟩
  omega

/-- Addition, subtraction and multiplication always fold polynomials, of which an absent operand
is one. -/
theorem exists_combine_eq_value (hop : op = .add ∨ op = .sub ∨ op = .mul)
    (hleft : ∀ a ∈ left, ∃ p, a = value p) (hright : ∀ a ∈ right, ∃ p, a = value p) :
    ∃ p, op.combine left right = value p := by
  have hoperand {operand : Option (Expression K)} (h : ∀ a ∈ operand, ∃ p, a = value p) :
      ∃ p, Operator.operandPolynomial? operand = some p := by
    cases operand with
    | none => exact ⟨.zero, rfl⟩
    | some a =>
      obtain ⟨p, rfl⟩ := h a rfl
      exact ⟨p, rfl⟩
  obtain ⟨p, hp⟩ := hoperand hleft
  obtain ⟨q, hq⟩ := hoperand hright
  rw [Operator.combine, hp, hq]
  obtain rfl | rfl | rfl := hop
  · exact ⟨p.add q, rfl⟩
  · exact ⟨p.sub q, rfl⟩
  · exact ⟨p.mul q, rfl⟩

/-- What is made by addition, subtraction and multiplication is simplified to a polynomial. -/
theorem IsRingTree.exists_value_of_simplifyAt (he : e.IsRingTree)
    (h : e.simplifyAt depth = .ok s) : ∃ p, s = value p := by
  have hdepth := le_of_simplifyAt h
  induction e generalizing depth s with
  | value p =>
    rw [simplifyAt_value hdepth] at h
    exact ⟨p, (Except.ok.inj h).symm⟩
  | call f args => exact (he.calls f args .here).elim
  | operation op left right ihleft ihright =>
    obtain ⟨l, hl, r, hr, rfl⟩ := (simplifyAt_operation_eq_ok_iff hdepth).1 h
    refine exists_combine_eq_value (he.operators op left right .here) (fun t ht => ?_)
      fun t ht => ?_
    · obtain ⟨a, ha, ht⟩ := (exists_of_simplifyOperand hl).2 t ht
      exact ihleft a ha (he.of_occurs fun _ => .of_mem_left ha) ht (le_of_simplifyAt ht)
    · obtain ⟨a, ha, ht⟩ := (exists_of_simplifyOperand hr).2 t ht
      exact ihright a ha (he.of_occurs fun _ => .of_mem_right ha) ht (le_of_simplifyAt ht)

/-- Exactly the expressions that the depth limit leaves room for are simplified, and others fail
for their depth only. What an expression is simplified to is no higher, is simplified to itself,
has no operation that folds, and is a polynomial if the expression is made by addition,
subtraction and multiplication. -/
theorem simplify_normalForm (e : Expression K) :
    ((∃ s, e.simplify = .ok s) ↔ e.height ≤ depthLimit) ∧
      (∀ err, e.simplify = .error err → err = .tooDeep) ∧
      ∀ s, e.simplify = .ok s →
        s.height ≤ e.height ∧ s.simplify = .ok s ∧ s.Folded ∧
          (e.IsRingTree → ∃ p, s = value p) := by
  refine ⟨?_, fun err h => eq_tooDeep_of_simplifyAt h, fun s h => ⟨height_le_of_simplify h,
    simplifyAt_simplified h, folded_of_simplifyAt h, fun he => he.exists_value_of_simplifyAt h⟩⟩
  rw [← Nat.zero_add e.height]
  exact exists_simplifyAt_iff

/-- The sum of an unknown and its negation is simplified to a polynomial, and that to itself. -/
theorem simplify_sumWithNegation :
    ∃ p : Polynomial Float Float,
      (operation .add (some (unknown 'x'))
        (some (operation .sub none (some (unknown 'x'))))).simplify = .ok (value p) ∧
      (value p).simplify = .ok (value p) := by
  obtain ⟨hroom, -, hnormal⟩ := simplify_normalForm (operation .add (some (unknown 'x'))
    (some (operation .sub none (some (unknown 'x')))) : Expression Float)
  obtain ⟨s, hs⟩ := hroom.2 (by decide)
  obtain ⟨-, hself, -, hring⟩ := hnormal s hs
  have hunknown : (unknown 'x' : Expression Float).IsRingTree := isRingTree_value _
  have hnegation : (operation .sub none (some (unknown 'x')) : Expression Float).IsRingTree :=
    isRingTree_operation (by simp) (by simp) (by simpa using hunknown)
  obtain ⟨p, rfl⟩ := hring
    (isRingTree_operation (by simp) (by simpa using hunknown) (by simpa using hnegation))
  exact ⟨p, hs, hself⟩

end Calculator.Expression
