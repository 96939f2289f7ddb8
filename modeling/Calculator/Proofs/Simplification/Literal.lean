import Calculator.Proofs.Evaluation.Agreement
import Calculator.Proofs.Expression.Height
import Calculator.Proofs.Expression.Unknowns
import Calculator.Proofs.Polynomial.Constant
import Calculator.Proofs.Printing.Lossless

/-!
# Simplification of expressions without unknowns

An expression without unknowns has a value of its own, and so has what it is simplified to. The two
values come from different arithmetic: a quotient is folded as the product with a reciprocal, a
product with zero is folded to zero whatever the other factor is, and no folded zero has a negative
sign. Where none of these differences shows, the two evaluations agree.
-/

namespace Calculator

open Binary64 (Agree IgnoresSign)

/-- What the folding of an operation on two constants relies on: that a zero factor makes the
product zero, that a zero dividend makes the quotient zero, and that any other quotient is the
product with the reciprocal of the divisor. -/
def Operator.FoldsExactly : Operator → Float → Float → Prop
  | mul, x, y => (x == 0 || y == 0) = true → (x * y == 0) = true
  | div, x, y => (y == 0) = false → if x == 0 then (x / y == 0) = true else x / y = x * (1 / y)
  | _, _, _ => True

/-- An operation on constants folds into the constant that the operator computes, if it computes
one. -/
theorem Operator.fold?_constant {op : Operator} {x y : Float} (hx : x ≠ -0) (hy : y ≠ -0)
    (hexact : op.FoldsExactly x y) :
    op.fold? (Polynomial.constant x) (Polynomial.constant y) =
      (op.apply x y).toOption.map Polynomial.constant := by
  have hconstants (op : Operator) :
      op.foldConstants? (Polynomial.constant x) (Polynomial.constant y) =
        (op.apply x y).toOption.map Polynomial.constant := by
    rw [foldConstants?, Polynomial.constant?_constant hx, Polynomial.constant?_constant hy]
    dsimp only
    cases op.apply x y <;> rfl
  cases op with
  | add => exact congrArg some (Polynomial.add_constant x y)
  | sub => exact congrArg some (Polynomial.sub_constant x y)
  | mul => exact congrArg some (Polynomial.mul_constant hexact)
  | div =>
    rw [fold?, apply]
    split
    · next hzero => exact Polynomial.div_constant_zero _ hzero
    · next hne =>
      have hdivisor := eq_false_of_ne_true hne
      exact Polynomial.div_constant hdivisor (hexact hdivisor)
  | pow => exact Polynomial.pow_constant hx hy
  | mod => exact hconstants .mod
  | factorial => exact hconstants .factorial

namespace Expression

/-- An expression whose leaves are constants and whose operations have the operands that their
operators accept. -/
structure Numeric (e : Expression Float) : Prop where
  wellFormed : e.WellFormed
  constants : ∀ p, Occurs (value p) e → ∃ x, p = .constant x

/-- Nothing that stands in the expression has a zero with a negative sign as value. -/
def NoNegativeZero (e : Expression Float) : Prop :=
  ∀ a, Occurs a e → a.evaluate .empty ≠ .ok (-0)

/-- Folding computes in every operation what the operator computes, and no power and no function is
given a zero that may have lost its sign: where the base of a power or an argument of a function is
a zero, nothing in it is a negative zero, unless the exponent or the function does not tell the two
zeros apart. -/
structure FoldsExactly (e : Expression Float) : Prop where
  operations : ∀ op a b x y, Occurs (operation op (some a) (some b)) e →
    a.simplify = .ok (.constant x) → b.simplify = .ok (.constant y) → op.FoldsExactly x y
  bases : ∀ a b x y, Occurs (operation .pow (some a) (some b)) e → a.evaluate .empty = .ok x →
    (x == 0) = true → b.evaluate .empty = .ok y → a.NoNegativeZero ∨ IgnoresSign y
  arguments : ∀ f args, Occurs (call f args) e → f.IgnoresSigns ∨
    ∀ a ∈ args, ∀ x, a.evaluate .empty = .ok x → (x == 0) = true → a.NoNegativeZero

variable {a e s : Expression Float}

/-- What stands in a numeric expression is numeric. -/
theorem Numeric.of_occurs (h : e.Numeric) (ha : ∀ s, Occurs s a → Occurs s e) : a.Numeric where
  wellFormed := h.wellFormed.of_occurs ha
  constants p hp := h.constants p (ha _ hp)

/-- What stands in an expression that folds exactly does so as well. -/
theorem FoldsExactly.of_occurs (h : e.FoldsExactly) (ha : ∀ s, Occurs s a → Occurs s e) :
    a.FoldsExactly where
  operations op l r x y hs := h.operations op l r x y (ha _ hs)
  bases l r x y hs := h.bases l r x y (ha _ hs)
  arguments f args hs := h.arguments f args (ha _ hs)

/-- What stands in an expression without negative zeros has none. -/
theorem NoNegativeZero.of_occurs (h : e.NoNegativeZero) (ha : ∀ s, Occurs s a → Occurs s e) :
    a.NoNegativeZero :=
  fun s hs => h s (ha s hs)

/-- An operand has no negative zeros if it is absent or has none. -/
theorem noNegativeZero_ofOperand {operand : Option (Expression Float)}
    (h : ∀ a ∈ operand, a.NoNegativeZero) : (ofOperand operand).NoNegativeZero := by
  cases operand with
  | some a => exact h a rfl
  | none =>
    intro s hs
    obtain rfl := occurs_value_iff.1 hs
    have hne : (0 : Float) ≠ -0 := by decide +kernel
    exact fun heq => hne (Except.ok.inj heq)

/-- What simplification keeps of a numeric expression: its value up to the sign of a zero, even
that sign if there is no negative zero, and that it is a constant if it becomes a polynomial. -/
structure Keeps (e s : Expression Float) : Prop where
  agrees : SameResult (e.evaluate .empty) (s.evaluate .empty)
  exact : e.NoNegativeZero → e.evaluate .empty = s.evaluate .empty
  constant : ∀ p, s = value p → ∃ x : Float, x ≠ -0 ∧ p = .constant x

/-- Only a zero with a negative zero in it may change its value. -/
theorem Keeps.eq_of_zero (h : Keeps e s)
    (hzero : ∀ x, e.evaluate .empty = .ok x → (x == 0) = true → e.NoNegativeZero) :
    e.evaluate .empty = s.evaluate .empty := by
  have hagrees := h.agrees
  generalize hx : e.evaluate .empty = r, hy : s.evaluate .empty = r' at hagrees
  cases hagrees with
  | failure err => rfl
  | @value x y hxy =>
    by_cases hx0 : (x == 0) = true
    · rw [← hx, ← hy]
      exact h.exact (hzero x hx hx0)
    · rw [hxy.eq_of_ne (eq_false_of_ne_true hx0)]

/-- A constant keeps its value. -/
theorem keeps_constant (x : Float) : Keeps (.constant x) (.constant x) where
  agrees := .refl _
  exact _ := rfl
  constant := by
    rintro _ ⟨⟩
    obtain ⟨y, hy, heq, -⟩ := Polynomial.exists_constant_eq x
    exact ⟨y, hy, heq⟩

/-- The value of a constant is its double. -/
theorem evaluate_constant {x : Float} (hx : x ≠ -0) (b : Assignment Float) :
    (constant x).evaluate b = .ok x := by
  rw [evaluate, constant, evaluateAt_value (Nat.zero_le _), Polynomial.evaluate_constant hx]

/-- Operands that are not both constants stay operands. Two constants are folded into what the
operator computes of them, if it computes anything. -/
theorem combine_cases {op : Operator} {l r : Option (Expression Float)}
    (hl : ∀ p, ofOperand l = value p → ∃ x : Float, x ≠ -0 ∧ p = .constant x)
    (hr : ∀ p, ofOperand r = value p → ∃ x : Float, x ≠ -0 ∧ p = .constant x)
    (hexact : ∀ x y, ofOperand l = .constant x → ofOperand r = .constant y →
      op.FoldsExactly x y) :
    op.combine l r = operation op l r ∨ ∃ x y z : Float, x ≠ -0 ∧ y ≠ -0 ∧
      ofOperand l = .constant x ∧ ofOperand r = .constant y ∧ op.apply x y = .ok z ∧
      op.combine l r = .constant z := by
  have hpolynomial {operand : Option (Expression Float)} {p : Polynomial Float Float}
      (h : Operator.operandPolynomial? operand = some p) : ofOperand operand = value p := by
    obtain ⟨rfl, rfl⟩ | rfl := operandPolynomial?_eq_some_iff.1 h
    · rfl
    · rfl
  rw [Operator.combine]
  split
  · next p q hp hq =>
    obtain ⟨x, hx, rfl⟩ := hl p (hpolynomial hp)
    obtain ⟨y, hy, rfl⟩ := hr q (hpolynomial hq)
    have hfold := Operator.fold?_constant hx hy (hexact x y (hpolynomial hp) (hpolynomial hq))
    cases happly : op.apply x y with
    | error err =>
      rw [happly] at hfold
      rw [hfold]
      exact .inl rfl
    | ok z =>
      rw [happly] at hfold
      rw [hfold]
      exact .inr ⟨x, y, z, hx, hy, hpolynomial hp, hpolynomial hq, happly, rfl⟩
  · exact .inl rfl

/-- An operation is kept if its operands are, where it folds exactly. -/
theorem Keeps.combine {op : Operator} {left right l r : Option (Expression Float)}
    (hleft : Keeps (ofOperand left) (ofOperand l))
    (hright : Keeps (ofOperand right) (ofOperand r))
    (hroom : (operation op left right).height ≤ depthLimit)
    (hroom' : (operation op l r).height ≤ depthLimit)
    (hexact : ∀ x y, ofOperand l = .constant x → ofOperand r = .constant y →
      op.FoldsExactly x y)
    (hbase : op = .pow → ∀ x y, (ofOperand left).evaluate .empty = .ok x →
      (ofOperand right).evaluate .empty = .ok y → (x == 0) = true →
      (ofOperand left).NoNegativeZero ∨ IgnoresSign y) :
    Keeps (operation op left right) (op.combine l r) := by
  have hvalue := evaluate_operation (b := .empty) hroom
  have hagrees : SameResult ((operation op left right).evaluate .empty)
      ((ofOperand l).evaluate .empty >>= fun x =>
        (ofOperand r).evaluate .empty >>= op.apply x) := by
    rw [hvalue]
    refine hleft.agrees.bind hright.agrees fun x y x' y' hx hy hx' _ hxx' hyy' => ?_
    refine Operator.apply_agree hxx' hyy' fun hop => ?_
    by_cases hzero : (x == 0) = true
    · refine (hbase hop x y hx hy hzero).imp (fun hsign => ?_) id
      exact Except.ok.inj (hx.symm.trans ((hleft.exact hsign).trans hx'))
    · exact .inl (hxx'.eq_of_ne (eq_false_of_ne_true hzero))
  have hsame (h : (operation op left right).NoNegativeZero) :
      (operation op left right).evaluate .empty = (ofOperand l).evaluate .empty >>= fun x =>
        (ofOperand r).evaluate .empty >>= op.apply x := by
    have hleftSame := hleft.exact (noNegativeZero_ofOperand fun a ha =>
      h.of_occurs fun _ => .of_mem_left ha)
    have hrightSame := hright.exact (noNegativeZero_ofOperand fun a ha =>
      h.of_occurs fun _ => .of_mem_right ha)
    rw [hvalue, hleftSame, hrightSame]
  -- a folded result has lost the sign of a zero, so only here the constant may be another double
  obtain hstays | ⟨x, y, z, hx, hy, hxl, hyr, hz, hfolds⟩ :=
    combine_cases hleft.constant hright.constant hexact
  · have hvalue' := evaluate_operation (b := .empty) hroom'
    rw [hstays]
    exact ⟨hvalue' ▸ hagrees, fun h => (hsame h).trans hvalue'.symm, nofun⟩
  · obtain ⟨z', hz', hconstant, hzz'⟩ := Polynomial.exists_constant_eq z
    have hresult : ((ofOperand l).evaluate .empty >>= fun x =>
        (ofOperand r).evaluate .empty >>= op.apply x) = .ok z := by
      rw [hxl, hyr, evaluate_constant hx, evaluate_constant hy]
      exact hz
    have hfolds' : op.combine l r = .constant z' := hfolds.trans (congrArg value hconstant)
    have hevaluate := evaluate_constant hz' .empty
    rw [hfolds']
    refine ⟨?_, fun h => ?_, ?_⟩
    · rw [hevaluate]
      exact (hresult ▸ hagrees).trans (.value hzz')
    · have hz := (hsame h).trans hresult
      have hne : z ≠ -0 := by
        rintro rfl
        exact h _ .here hz
      rw [hz, hevaluate, hzz'.eq_of_ne_neg_zero hne hz']
    · rintro _ ⟨⟩
      exact ⟨z', hz', rfl⟩

/-- The operands of a numeric operation fold exactly if they simplify to constants. -/
theorem FoldsExactly.of_rel {op : Operator} {left right l r : Option (Expression Float)}
    (he : (operation op left right).FoldsExactly) (hnumeric : (operation op left right).Numeric)
    (hl : Option.Rel (fun a t => a.simplify = .ok t) left l)
    (hr : Option.Rel (fun a t => a.simplify = .ok t) right r) (x y : Float)
    (hx : ofOperand l = .constant x) (hy : ofOperand r = .constant y) : op.FoldsExactly x y := by
  obtain ⟨-, hneedsLeft, hneedsRight⟩ :=
    operation?_eq_ok_iff.1 (hnumeric.wellFormed.operands op left right .here)
  cases hl with
  | none =>
    have hop := hneedsLeft rfl
    cases op <;> trivial
  | @some a t ha =>
    cases hr with
    | none => cases op <;> trivial
    | @some b u hb =>
      obtain rfl : t = .constant x := hx
      obtain rfl : u = .constant y := hy
      exact he.operations op a b x y .here ha hb

/-- Simplification keeps numeric expressions that fold exactly. -/
theorem keeps_of_simplify (hnumeric : e.Numeric) (he : e.FoldsExactly) (h : e.simplify = .ok s) :
    Keeps e s := by
  -- agreement alone is no invariant: a power or a function needs the very value of its operand
  induction e generalizing s with
  | value p =>
    have hs : (value p).simplify = .ok (value p) := simplifyAt_value (Nat.zero_le _) p
    obtain rfl := Except.ok.inj (h.symm.trans hs)
    obtain ⟨x, rfl⟩ := hnumeric.constants p .here
    exact keeps_constant x
  | call f args ih =>
    have hroom := exists_simplifyAt_iff.1 ⟨s, h⟩
    rw [Nat.zero_add] at hroom
    obtain ⟨ss, hss, rfl, hroom'⟩ := exists_of_simplify_call h
    have hkeeps : List.Forall₂ (fun a t => a ∈ args ∧ Keeps a t) args ss := by
      have hmembers := (List.forall₂_and_left (p := (· ∈ args)) args ss).2 ⟨fun _ => id, hss⟩
      refine hmembers.imp fun a t ⟨ha, hat⟩ => ⟨ha, ?_⟩
      exact ih a ha (hnumeric.of_occurs fun _ => .arg ha) (he.of_occurs fun _ => .arg ha) hat
    have hsame (hargs : ∀ a ∈ args, ∀ x, a.evaluate .empty = .ok x → (x == 0) = true →
        a.NoNegativeZero) : (call f args).evaluate .empty = (call f ss).evaluate .empty := by
      have hvalues : args.mapM (evaluate .empty) = ss.mapM (evaluate .empty) :=
        Except.mapM_eq_mapM (hkeeps.imp fun a t ⟨ha, hat⟩ => hat.eq_of_zero (hargs a ha))
      rw [evaluate_call hroom, evaluate_call hroom', hvalues]
    refine ⟨?_, fun h => hsame fun a ha _ _ _ => h.of_occurs fun _ => .arg ha, nofun⟩
    obtain hf | hargs := he.arguments f args .here
    · rw [evaluate_call hroom, evaluate_call hroom']
      exact SameResult.mapM_bind (hkeeps.imp fun _ _ hat => hat.2.agrees) hf
    · exact hsame hargs ▸ .refl _
  | operation op left right ihleft ihright =>
    have hroom := exists_simplifyAt_iff.1 ⟨s, h⟩
    rw [Nat.zero_add] at hroom
    obtain ⟨l, r, hl, hr, rfl, hroom'⟩ := exists_of_simplify_operation h
    have hoperand {operand o : Option (Expression Float)}
        (ih : ∀ a ∈ operand, ∀ t, a.simplify = .ok t → Keeps a t)
        (ho : Option.Rel (fun a t => a.simplify = .ok t) operand o) :
        Keeps (ofOperand operand) (ofOperand o) := by
      cases ho with
      | none =>
        have hzero := keeps_constant 0
        rwa [constant, Polynomial.constant_of_zero (by decide +kernel)] at hzero
      | some hat => exact ih _ rfl _ hat
    refine Keeps.combine (hoperand (fun a ha t ht => ?_) hl) (hoperand (fun a ha t ht => ?_) hr)
      hroom hroom' (he.of_rel hnumeric hl hr) ?_
    · exact ihleft a ha (hnumeric.of_occurs fun _ => .of_mem_left ha)
        (he.of_occurs fun _ => .of_mem_left ha) ht
    · exact ihright a ha (hnumeric.of_occurs fun _ => .of_mem_right ha)
        (he.of_occurs fun _ => .of_mem_right ha) ht
    · rintro rfl x y hx hy hzero
      obtain ⟨-, hneedsLeft, hneedsRight⟩ :=
        operation?_eq_ok_iff.1 (hnumeric.wellFormed.operands .pow left right .here)
      cases left with
      | none => cases hneedsLeft rfl
      | some a =>
        cases right with
        | none => cases hneedsRight
        | some b => exact he.bases a b x y .here hx hzero hy

/-- A packed expression without unknowns is numeric. -/
theorem PackedIn.numeric {unknowns : List Char} (h : e.PackedIn unknowns)
    (hnone : e.unknowns = []) : e.Numeric where
  wellFormed := h.wellFormed
  constants p hp := by
    refine (h.polynomials p hp).exists_constant (List.eq_nil_iff_forall_not_mem.2 fun c hc => ?_)
    have hsymbol : c ∈ e.unknowns := mem_unknowns_iff.2 (mem_symbols_of_occurs hp hc)
    rw [hnone] at hsymbol
    cases hsymbol

end Expression

/-- A parsed expression without unknowns that the depth limit leaves room for is simplified, and
where it folds exactly, what it is simplified to has its value or fails as it does. -/
theorem exists_simplify_sameResult {unknowns : List Char} {limit : Nat} {text : String}
    {e : Expression Float} (h : parse unknowns limit text = .ok e) (hroom : e.height ≤ depthLimit)
    (hnone : e.unknowns = []) :
    ∃ s, e.simplify = .ok s ∧
      (e.FoldsExactly → SameResult (e.evaluate .empty) (s.evaluate .empty)) := by
  obtain ⟨s, hs⟩ := Expression.exists_simplifyAt_iff.2 ((Nat.zero_add e.height).le.trans hroom)
  have hnumeric := (packedIn_of_parse h).numeric hnone
  exact ⟨s, hs, fun hfolds => (Expression.keeps_of_simplify hnumeric hfolds hs).agrees⟩

/-- A product with zero and a quotient that is exact. -/
def productAndQuotient : Expression Float :=
  .operation .add (some (.operation .mul (some (.constant 0)) (some (.constant 4))))
    (some (.operation .div (some (.constant 6)) (some (.constant 2))))

/-- The product and the quotient fold exactly. -/
theorem foldsExactly_productAndQuotient : productAndQuotient.FoldsExactly where
  operations op a b x y hoccurs hx hy := by
    have hleaf (z : Float) : ¬ Expression.Occurs (.operation op (some a) (some b)) (.constant z) :=
      nofun
    have hagree {x y : Float} (h : (Expression.constant x).simplify = .ok (.constant y)) :
        Agree x y :=
      Polynomial.agree_of_constant_eq (Expression.value.inj (Except.ok.inj h))
    cases hoccurs with
    | here => trivial
    | left hproduct =>
      cases hproduct with
      | here =>
        intro _
        have hzero := ((hagree hx).mul (hagree hy)).beq_zero_eq
        exact hzero.symm.trans (by decide +kernel)
      | left h => exact absurd h (hleaf 0)
      | right h => exact absurd h (hleaf 4)
    | right hquotient =>
      cases hquotient with
      | here =>
        obtain rfl := (hagree hx).eq_of_ne (by decide +kernel)
        obtain rfl := (hagree hy).eq_of_ne (by decide +kernel)
        exact fun _ => by decide +kernel
      | left h => exact absurd h (hleaf 6)
      | right h => exact absurd h (hleaf 2)
  bases a b x y hoccurs := by
    simp [productAndQuotient, Expression.constant] at hoccurs
  arguments f args hoccurs := by
    simp [productAndQuotient, Expression.constant] at hoccurs

/-- The product and the quotient are simplified to what has their value. -/
theorem sameResult_productAndQuotient :
    productAndQuotient.FoldsExactly ∧ ∃ s, productAndQuotient.simplify = .ok s ∧
      SameResult (productAndQuotient.evaluate .empty) (s.evaluate .empty) := by
  have hparse : parse [] 512 "0*4+6/2" = .ok productAndQuotient := by with_unfolding_all rfl
  obtain ⟨s, hs, hsame⟩ := exists_simplify_sameResult hparse (by decide) (by decide +kernel)
  have hfolds := foldsExactly_productAndQuotient
  exact ⟨hfolds, s, hs, hsame hfolds⟩

/-- A text without unknowns and with finite constants, whose value does not agree with that of what
it is simplified to. -/
def ChangesValue (text : String) : Prop :=
  ∃ e s, parse [] defaultNestingLimit text = .ok e ∧ e.height ≤ depthLimit ∧ e.unknowns = [] ∧
    (∀ x, Expression.Occurs (.constant x) e → x.isFinite = true) ∧ e.simplify = .ok s ∧
    ¬ SameResult (e.evaluate .empty) (s.evaluate .empty)

/-- A quotient that is one is folded to a double just below one, which has no factorial. -/
theorem changesValue_quotient : ChangesValue "(49/49)!" := by
  refine ⟨.operation .factorial
      (some (.operation .div (some (.constant 49)) (some (.constant 49)))) none,
    .operation .factorial (some (.constant (49 * (1 / 49)))) none, by with_unfolding_all rfl,
    by decide, by decide +kernel, fun x hx => ?_, by with_unfolding_all rfl, by decide +kernel⟩
  have hconstant : Expression.constant x = .constant 49 := by
    simpa [Expression.constant] using hx
  exact Polynomial.isFinite_of_constant_eq (Expression.value.inj hconstant) (by decide +kernel)

/-- The undefined product of zero with an infinite double is folded to zero. -/
theorem changesValue_product : ChangesValue "0*171!" := by
  refine ⟨.operation .mul (some (.constant 0))
      (some (.operation .factorial (some (.constant 171)) none)),
    .value .zero, by with_unfolding_all rfl, by decide, by decide +kernel, fun x hx => ?_,
    by with_unfolding_all rfl, by decide +kernel⟩
  obtain hx | hx : Expression.constant x = .constant 0 ∨ Expression.constant x = .constant 171 := by
    simpa [Expression.constant] using hx
  · exact Polynomial.isFinite_of_constant_eq (Expression.value.inj hx) (by decide +kernel)
  · exact Polynomial.isFinite_of_constant_eq (Expression.value.inj hx) (by decide +kernel)

/-- The reciprocal of a negative zero is folded to the positive infinity. -/
theorem changesValue_power : ChangesValue "(0*-1)^-1" := by
  refine ⟨.operation .pow (some (.operation .mul (some (.constant 0))
      (some (.operation .sub none (some (.constant 1))))))
      (some (.operation .sub none (some (.constant 1)))),
    .constant Binary64.infinity, by with_unfolding_all rfl, by decide, by decide +kernel,
    fun x hx => ?_, by with_unfolding_all rfl, by decide +kernel⟩
  obtain hx | hx : Expression.constant x = .constant 0 ∨ Expression.constant x = .constant 1 := by
    simpa [Expression.constant] using hx
  · exact Polynomial.isFinite_of_constant_eq (Expression.value.inj hx) (by decide +kernel)
  · exact Polynomial.isFinite_of_constant_eq (Expression.value.inj hx) (by decide +kernel)

/-- Each of the three differences between the two kinds of arithmetic changes the value of some
text. -/
theorem changesValue_quotient_product_power :
    ChangesValue "(49/49)!" ∧ ChangesValue "0*171!" ∧ ChangesValue "(0*-1)^-1" :=
  ⟨changesValue_quotient, changesValue_product, changesValue_power⟩

end Calculator
