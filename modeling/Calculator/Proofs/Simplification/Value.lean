import Mathlib.Data.Nat.Factorial.Basic
import Calculator.Proofs.Polynomial.Arithmetic

/-!
# Simplification keeps the value

Over a field, an expression that has a value simplifies, and what it simplifies to has the same
value. An operation is folded only into a polynomial that has the value of the operation, so the
proof goes from the leaves up, operand by operand.
-/

namespace Calculator

open Calculator.Polynomial (HasValue)

variable {K : Type} [Field K] [Primitives K] [DecidableEq K] [Ord K] {b : Assignment K}

namespace Operator

variable {op : Operator} {p q r : Polynomial K K} {x y v : K}

/-- A folded pair of constants has the value of the operation. -/
theorem hasValue_foldConstants? (hp : HasValue b p x) (hq : HasValue b q y)
    (hv : op.apply x y = .ok v) (h : op.foldConstants? p q = some r) : HasValue b r v := by
  rw [foldConstants?] at h
  split at h
  · next k l hk hl =>
    obtain rfl := hp.eq_of_constant? hk
    obtain rfl := hq.eq_of_constant? hl
    rw [hv] at h
    obtain rfl := Option.some.inj h
    exact Polynomial.hasValue_constant b v
  · cases h

/-- A folded operation has the value of the operation. -/
theorem hasValue_fold? (hpow : ExactPowers K) (hb : ∀ c, b.total c ≠ 0) (hp : HasValue b p x)
    (hq : HasValue b q y)
    (hinteger : op = .pow → ∀ k, q.constant? = some k → ∃ n : ℤ, k = n)
    (hv : op.apply x y = .ok v) (h : op.fold? p q = some r) : HasValue b r v := by
  cases op with
  | add =>
    obtain rfl := Option.some.inj h
    obtain rfl := Except.ok.inj hv
    exact hp.add hq
  | sub =>
    obtain rfl := Option.some.inj h
    obtain rfl := Except.ok.inj hv
    exact hp.sub hq
  | mul =>
    obtain rfl := Option.some.inj h
    obtain rfl := Except.ok.inj hv
    exact hp.mul hpow hb hq
  | div =>
    rw [apply] at hv
    split at hv
    · cases hv
    · next hy =>
      obtain rfl := Except.ok.inj hv
      exact hp.div hpow hb hq (by simpa using hy) h
  | pow =>
    obtain rfl := Except.ok.inj hv
    exact hp.pow hpow hb hq (hinteger rfl) h
  | mod => exact hasValue_foldConstants? hp hq hv h
  | factorial => exact hasValue_foldConstants? hp hq hv h

end Operator

namespace Expression

/-- Every polynomial is reduced and has integer exponents, and where the right operand of a power
simplifies to a constant, that constant is an integer. -/
structure Exact (e : Expression K) : Prop where
  reduced : ∀ p, Occurs (value p) e → p.Reduced
  integral : ∀ p, Occurs (value p) e → p.Integral
  powers : ∀ left right p k, Occurs (operation .pow left (some right)) e →
    right.simplify = .ok (value p) → p.constant? = some k → ∃ n : ℤ, k = n

/-- What stands in an expression that stands in another one stands in the other one. -/
theorem Exact.of_occurs {e a : Expression K} (h : e.Exact)
    (ha : ∀ s : Expression K, Occurs s a → Occurs s e) : a.Exact where
  reduced p hp := h.reduced p (ha _ hp)
  integral p hp := h.integral p (ha _ hp)
  powers left right p k hp := h.powers left right p k (ha _ hp)

/-- The value of an expression, and of the polynomial that it is if it is one. -/
structure HasValueAt (b : Assignment K) (depth : Nat) (s : Expression K) (v : K) : Prop where
  evaluate : s.evaluateAt b depth = .ok v
  polynomial : ∀ p, s = value p → HasValue b p v

/-- The value of an operand, and of the polynomial that it stands for if it stands for one. -/
structure OperandHasValueAt (b : Assignment K) (depth : Nat) (operand : Option (Expression K))
    (v : K) : Prop where
  evaluate : evaluateOperand b depth operand = .ok v
  polynomial : ∀ p, Operator.operandPolynomial? operand = some p → HasValue b p v

/-- An absent operand has the value zero. -/
theorem operandHasValueAt_none (b : Assignment K) (depth : Nat) :
    OperandHasValueAt b depth none 0 where
  evaluate := rfl
  polynomial := by
    rintro p ⟨⟩
    exact ⟨⟨.nil, nofun⟩, nofun, nofun, rfl⟩

/-- An operand has the value of the expression that it is. -/
theorem HasValueAt.operand {depth : Nat} {s : Expression K} {v : K} (h : HasValueAt b depth s v) :
    OperandHasValueAt b depth (some s) v where
  evaluate := h.evaluate
  polynomial := by
    intro p hp
    obtain ⟨hnone, -⟩ | hs := operandPolynomial?_eq_some_iff.1 hp
    · cases hnone
    · exact h.polynomial p (Option.some.inj hs)

/-- Combining operands keeps the value of the operation. -/
theorem hasValueAt_combine (hpow : ExactPowers K) (hb : ∀ c, b.total c ≠ 0) {depth : Nat}
    (hdepth : depth ≤ depthLimit) {op : Operator} {left right : Option (Expression K)} {x y v : K}
    (hleft : OperandHasValueAt b (depth + 1) left x)
    (hright : OperandHasValueAt b (depth + 1) right y)
    (hinteger : op = .pow → ∀ q k, Operator.operandPolynomial? right = some q →
      q.constant? = some k → ∃ n : ℤ, k = n)
    (hv : op.apply x y = .ok v) : HasValueAt b depth (op.combine left right) v := by
  have hoperation : HasValueAt b depth (operation op left right) v :=
    ⟨(evaluateAt_operation_eq_ok_iff hdepth).2 ⟨x, hleft.evaluate, y, hright.evaluate, hv⟩, nofun⟩
  rw [Operator.combine]
  split
  · next p q hp hq =>
    split
    · next r hr =>
      have hvalue := Operator.hasValue_fold? hpow hb (hleft.polynomial p hp)
        (hright.polynomial q hq) (fun hop k => hinteger hop q k hq) hv hr
      refine ⟨by rw [evaluateAt_value hdepth, hvalue.evaluate_eq], ?_⟩
      rintro _ ⟨⟩
      exact hvalue
    · exact hoperation
  · exact hoperation

/-- Arguments are simplified to arguments with the same values if each of them is. -/
theorem exists_simplifyArgs {depth : Nat} {args : List (Expression K)} {xs : List K}
    (hargs : ∀ a ∈ args, ∀ x, a.evaluateAt b depth = .ok x →
      ∃ s, a.simplifyAt depth = .ok s ∧ HasValueAt b depth s x)
    (h : evaluateArgs b depth args = .ok xs) :
    ∃ ss, simplifyArgs depth args = .ok ss ∧ evaluateArgs b depth ss = .ok xs := by
  simp only [simplifyArgs_eq_ok_iff, evaluateArgs_eq_ok_iff] at h ⊢
  induction h with
  | nil => exact ⟨[], .nil, .nil⟩
  | @cons a x as xs hx _ ih =>
    obtain ⟨s, hs, hvalue⟩ := hargs a List.mem_cons_self x hx
    obtain ⟨ss, hss, hvalues⟩ := ih fun c hc => hargs c (List.mem_cons_of_mem a hc)
    exact ⟨s :: ss, .cons hs hss, .cons hvalue.evaluate hvalues⟩

/-- An operand is simplified to one with the same value if the expression that it is is. -/
theorem exists_simplifyOperand {depth : Nat} {operand : Option (Expression K)} {x : K}
    (hoperand : ∀ a ∈ operand, ∀ x, a.evaluateAt b depth = .ok x →
      ∃ s, a.simplifyAt depth = .ok s ∧ HasValueAt b depth s x)
    (h : evaluateOperand b depth operand = .ok x) :
    ∃ o, simplifyOperand depth operand = .ok o ∧ OperandHasValueAt b depth o x := by
  cases operand with
  | none =>
    obtain rfl := Except.ok.inj h
    exact ⟨none, rfl, operandHasValueAt_none b depth⟩
  | some a =>
    obtain ⟨s, hs, hvalue⟩ := hoperand a rfl x h
    exact ⟨some s, simplifyOperand_some_eq_ok_iff.2 ⟨s, hs, rfl⟩, hvalue.operand⟩

/-- A right operand of a power that simplifies to a constant simplifies to an integer. -/
theorem Exact.integer_of_simplifyOperand {depth : Nat} {left right r : Option (Expression K)}
    (he : (operation .pow left right).Exact) (hr : simplifyOperand depth right = .ok r)
    {q : Polynomial K K} (hq : Operator.operandPolynomial? r = some q) {k : K}
    (hk : q.constant? = some k) : ∃ n : ℤ, k = n := by
  cases right with
  | none =>
    obtain rfl := Except.ok.inj hr
    obtain rfl := Option.some.inj hq
    obtain rfl := Option.some.inj hk
    exact ⟨0, Int.cast_zero.symm⟩
  | some a =>
    obtain ⟨s, hs, rfl⟩ := simplifyOperand_some_eq_ok_iff.1 hr
    cases s with
    | value p =>
      obtain rfl := Option.some.inj hq
      exact he.powers left a p k .here (simplifyAt_of_le hs (Nat.zero_le _)) hk
    | call => cases hq
    | operation => cases hq

/-- An expression that has a value is simplified to one with the same value. -/
theorem exists_simplifyAt (hpow : ExactPowers K) (hb : ∀ c, b.total c ≠ 0) {e : Expression K}
    (he : e.Exact) {depth : Nat} {v : K} (h : e.evaluateAt b depth = .ok v) :
    ∃ s, e.simplifyAt depth = .ok s ∧ HasValueAt b depth s v := by
  have hdepth := le_of_evaluateAt h
  induction e generalizing depth v with
  | value p =>
    refine ⟨value p, simplifyAt_value hdepth p, h, ?_⟩
    rintro _ ⟨⟩
    rw [evaluateAt_value hdepth] at h
    exact Polynomial.hasValue_of_evaluate (he.reduced p .here) (he.integral p .here) h
  | call f args ih =>
    obtain ⟨xs, hxs, hv⟩ := (evaluateAt_call_eq_ok_iff hdepth).1 h
    obtain ⟨ss, hss, hvalues⟩ := exists_simplifyArgs (fun a ha x hx =>
      ih a ha (he.of_occurs fun _ => .arg ha) hx (le_of_evaluateAt hx)) hxs
    exact ⟨call f ss, (simplifyAt_call_eq_ok_iff hdepth).2 ⟨ss, hss, rfl⟩,
      (evaluateAt_call_eq_ok_iff hdepth).2 ⟨xs, hvalues, hv⟩, nofun⟩
  | operation op left right ihleft ihright =>
    obtain ⟨x, hx, y, hy, hv⟩ := (evaluateAt_operation_eq_ok_iff hdepth).1 h
    have hexactLeft (a) (ha : a ∈ left) : a.Exact := by
      obtain rfl := ha
      exact he.of_occurs fun _ => .left
    have hexactRight (a) (ha : a ∈ right) : a.Exact := by
      obtain rfl := ha
      exact he.of_occurs fun _ => .right
    obtain ⟨l, hl, hlvalue⟩ := exists_simplifyOperand (fun a ha x hx =>
      ihleft a ha (hexactLeft a ha) hx (le_of_evaluateAt hx)) hx
    obtain ⟨r, hr, hrvalue⟩ := exists_simplifyOperand (fun a ha x hx =>
      ihright a ha (hexactRight a ha) hx (le_of_evaluateAt hx)) hy
    refine ⟨op.combine l r, (simplifyAt_operation_eq_ok_iff hdepth).2 ⟨l, hl, r, hr, rfl⟩, ?_⟩
    refine hasValueAt_combine hpow hb hdepth hlvalue hrvalue ?_ hv
    rintro rfl q k hq hk
    exact he.integer_of_simplifyOperand hr hq hk

/-- Simplification keeps the value of every expression that has one. -/
theorem exists_simplify_evaluate_eq (hpow : ExactPowers K) {e : Expression K} (he : e.Exact)
    (hb : ∀ c x, b c = some x → x ≠ 0) {v : K} (h : e.evaluate b = .ok v) :
    ∃ s, e.simplify = .ok s ∧ s.evaluate b = .ok v := by
  have htotal (c : Char) : b.total c ≠ 0 := by
    rw [Assignment.total]
    cases hc : b c with
    | none => exact one_ne_zero
    | some x => exact hb c x hc
  obtain ⟨s, hs, hvalue⟩ := exists_simplifyAt hpow htotal he h
  exact ⟨s, hs, hvalue.evaluate⟩

end Expression

/-- Rational scalars, with the primitives that are rational. -/
instance rationalPrimitives : Primitives ℚ where
  pow x y := x ^ y.num
  modulo x y := x - |y| * (x / |y|).floor
  isNatural x := x.den = 1 ∧ 0 ≤ x
  factorial x := x.num.toNat.factorial
  isNonpositive x := x ≤ 0
  sin x := x
  cos _ := 1
  ln x := x - 1

/-- The square of an unknown divided by the unknown. -/
def squareByItself : Expression ℚ :=
  .operation .div (some (.operation .pow (some (.value ⟨[⟨1, [('x', 1)]⟩]⟩))
    (some (.value ⟨[⟨2, []⟩]⟩)))) (some (.value ⟨[⟨1, [('x', 1)]⟩]⟩))

/-- The quotient keeps its value at three. -/
theorem exists_simplify_squareByItself :
    ∃ s, squareByItself.simplify = .ok s ∧
      s.evaluate (Assignment.empty.bind 'x' 3) = .ok 3 := by
  have hleaves (p : Polynomial ℚ ℚ) (hp : Expression.Occurs (.value p) squareByItself) :
      p = ⟨[⟨1, [('x', 1)]⟩]⟩ ∨ p = ⟨[⟨2, []⟩]⟩ := by
    have hcases : (p = ⟨[⟨1, [('x', 1)]⟩]⟩ ∨ p = ⟨[⟨2, []⟩]⟩) ∨ p = ⟨[⟨1, [('x', 1)]⟩]⟩ := by
      simpa [squareByItself] using hp
    rcases hcases with h | h
    · exact h
    · exact .inl h
  refine Expression.exists_simplify_evaluate_eq (fun x n _ => ?_) ⟨?_, ?_, ?_⟩ ?_ ?_
  · simp [Primitives.pow]
  · intro p hp
    rcases hleaves p hp with rfl | rfl <;> exact ⟨List.pairwise_singleton _ _, by simp⟩
  · intro p hp
    rcases hleaves p hp with rfl | rfl
    · simpa [Polynomial.Integral, IntegralPowers] using ⟨1, Int.cast_one.symm⟩
    · simp [Polynomial.Integral, IntegralPowers]
  · intro left right p k hpower hp hk
    obtain ⟨-, rfl⟩ : left = some (.value ⟨[⟨1, [('x', 1)]⟩]⟩) ∧ right = .value ⟨[⟨2, []⟩]⟩ := by
      simpa [squareByItself] using hpower
    obtain rfl := Expression.value.inj (Except.ok.inj hp)
    obtain rfl := Option.some.inj hk
    exact ⟨2, rfl⟩
  · intro c x hx
    rw [Assignment.bind] at hx
    split at hx
    · obtain rfl := Option.some.inj hx
      decide
    · cases hx
  · decide +kernel

end Calculator
