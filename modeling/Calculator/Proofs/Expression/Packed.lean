import Calculator.Proofs.Expression.WellFormed
import Calculator.Proofs.Polynomial.Packed

/-!
# Expressions with packed polynomials

The operations on expressions build well-formed expressions with packed polynomials from such
expressions, and bring in no unknowns.
-/

namespace Calculator

variable {unknowns : List Char}

/-- What packed polynomials fold into is packed. -/
theorem Operator.packedIn_fold? {op : Operator} {p q r : Polynomial Float Float}
    (hp : p.PackedIn unknowns) (hq : q.PackedIn unknowns) (h : op.fold? p q = some r) :
    r.PackedIn unknowns := by
  have hconstants {op : Operator} (h : op.foldConstants? p q = some r) : r.PackedIn unknowns := by
    rw [foldConstants?] at h
    split at h
    · split at h
      · obtain rfl := Option.some.inj h
        exact Polynomial.packedIn_constant _
      · cases h
    · cases h
  cases op with
  | add =>
    obtain rfl := Option.some.inj h
    exact hp.add hq
  | sub =>
    obtain rfl := Option.some.inj h
    exact hp.sub hq
  | mul =>
    obtain rfl := Option.some.inj h
    exact Polynomial.packedIn_mul hp.monomials hq.monomials
  | div => exact hp.div hq h
  | pow => exact hp.pow h
  | mod => exact hconstants h
  | factorial => exact hconstants h

namespace Expression

/-- A well-formed expression with packed polynomials, whose unknowns are all in a list. -/
structure PackedIn (unknowns : List Char) (e : Expression Float) : Prop where
  wellFormed : e.WellFormed
  polynomials : ∀ p, Occurs (value p) e → p.PackedIn unknowns

/-- A packed polynomial is a packed expression. -/
theorem packedIn_value {p : Polynomial Float Float} (h : p.PackedIn unknowns) :
    (value p).PackedIn unknowns where
  wellFormed := wellFormed_value p
  polynomials q hq := by
    obtain rfl := value.inj (occurs_value_iff.1 hq)
    exact h

/-- A call of packed arguments is packed if there are any. -/
theorem packedIn_call {f : NamedFunction} {args : List (Expression Float)} (hne : args ≠ [])
    (h : ∀ a ∈ args, a.PackedIn unknowns) : (call f args).PackedIn unknowns where
  wellFormed := wellFormed_call hne fun a ha => (h a ha).wellFormed
  polynomials p hp := by
    obtain heq | ⟨a, ha, hp⟩ := occurs_call_iff.1 hp
    · cases heq
    · exact (h a ha).polynomials p hp

/-- An operation on packed operands is packed if the operator accepts them. -/
theorem packedIn_operation {op : Operator} {left right : Option (Expression Float)}
    (hop : operation? op left right = .ok (.operation op left right))
    (hleft : ∀ a ∈ left, a.PackedIn unknowns) (hright : ∀ a ∈ right, a.PackedIn unknowns) :
    (operation op left right).PackedIn unknowns where
  wellFormed := wellFormed_operation hop (fun a ha => (hleft a ha).wellFormed)
    fun a ha => (hright a ha).wellFormed
  polynomials p hp := by
    obtain heq | ⟨a, ha, hp⟩ | ⟨a, ha, hp⟩ := occurs_operation_iff.1 hp
    · cases heq
    · exact (hleft a ha).polynomials p hp
    · exact (hright a ha).polynomials p hp

/-- What stands in a packed expression is packed. -/
theorem PackedIn.of_occurs {a e : Expression Float} (h : e.PackedIn unknowns)
    (ha : ∀ s, Occurs s a → Occurs s e) : a.PackedIn unknowns where
  wellFormed := h.wellFormed.of_occurs ha
  polynomials p hp := h.polynomials p (ha _ hp)

/-- Which operands an operator accepts depends only on which of them are there. -/
theorem operation?_congr {op : Operator} {left right left' right' : Option (Expression Float)}
    (hleft : left'.isSome = left.isSome) (hright : right'.isSome = right.isSome)
    (h : operation? op left right = .ok (.operation op left right)) :
    operation? op left' right' = .ok (.operation op left' right') := by
  obtain ⟨-, habsent, hneeds⟩ := operation?_eq_ok_iff.1 h
  refine operation?_eq_ok_iff.2 ⟨rfl, fun hnone => habsent ?_, hneeds.trans hright.symm⟩
  rw [hnone] at hleft
  exact Option.isNone_iff_eq_none.1 (by simpa using hleft.symm)

/-- A packed operation folds into a packed expression. -/
theorem packedIn_combine {op : Operator} {left right : Option (Expression Float)}
    (hop : operation? op left right = .ok (.operation op left right))
    (hleft : ∀ a ∈ left, a.PackedIn unknowns) (hright : ∀ a ∈ right, a.PackedIn unknowns) :
    (op.combine left right).PackedIn unknowns := by
  have hpolynomial {operand : Option (Expression Float)} {p : Polynomial Float Float}
      (h : ∀ a ∈ operand, a.PackedIn unknowns)
      (hp : Operator.operandPolynomial? operand = some p) : p.PackedIn unknowns := by
    obtain ⟨-, rfl⟩ | rfl := operandPolynomial?_eq_some_iff.1 hp
    · exact Polynomial.packedIn_zero
    · exact (h _ rfl).polynomials p .here
  obtain ⟨p, q, r, hp, hq, hr, hvalue⟩ | hstays := combine_eq op left right
  · rw [hvalue]
    exact packedIn_value (Operator.packedIn_fold? (hpolynomial hleft hp) (hpolynomial hright hq) hr)
  · rw [hstays]
    exact packedIn_operation hop hleft hright

/-- A packed expression is simplified to a packed one. -/
theorem PackedIn.simplifyAt {e s : Expression Float} (he : e.PackedIn unknowns) {depth : Nat}
    (h : e.simplifyAt depth = .ok s) : s.PackedIn unknowns := by
  induction e generalizing depth s with
  | value p =>
    rw [simplifyAt_value (le_of_simplifyAt h)] at h
    obtain rfl := Except.ok.inj h
    exact he
  | call f args ih =>
    obtain ⟨simplified, hargs, rfl⟩ := (simplifyAt_call_eq_ok_iff (le_of_simplifyAt h)).1 h
    refine packedIn_call ?_ fun s hs => ?_
    · rintro rfl
      have hnil := List.forall₂_nil_right_iff.1 (simplifyArgs_eq_ok_iff.1 hargs)
      exact he.wellFormed.arguments f args .here hnil
    · obtain ⟨a, ha, hs⟩ := exists_of_simplifyArgs hargs s hs
      exact ih a ha (he.of_occurs fun _ => .arg ha) hs
  | operation op left right ihleft ihright =>
    obtain ⟨l, hl, r, hr, rfl⟩ := (simplifyAt_operation_eq_ok_iff (le_of_simplifyAt h)).1 h
    obtain ⟨hsomeLeft, hleft⟩ := exists_of_simplifyOperand hl
    obtain ⟨hsomeRight, hright⟩ := exists_of_simplifyOperand hr
    have hop := operation?_congr hsomeLeft hsomeRight (he.wellFormed.operands op left right .here)
    refine packedIn_combine hop (fun s hs => ?_) fun s hs => ?_
    · obtain ⟨a, rfl, hs⟩ := hleft s hs
      exact ihleft a rfl (he.of_occurs fun _ => .left) hs
    · obtain ⟨a, rfl, hs⟩ := hright s hs
      exact ihright a rfl (he.of_occurs fun _ => .right) hs

/-- A packed expression with a value in place of an unknown is packed. -/
theorem PackedIn.substitute {e : Expression Float} (he : e.PackedIn unknowns) (symbol : Char)
    (x : Float) : (e.substitute symbol x).PackedIn unknowns := by
  induction e with
  | value p => exact packedIn_value ((he.polynomials p .here).substitute symbol x)
  | call f args ih =>
    rw [Expression.substitute, substituteArgs_eq_map]
    refine packedIn_call (by simpa using he.wellFormed.arguments f args .here) fun s hs => ?_
    obtain ⟨a, ha, rfl⟩ := List.mem_map.1 hs
    exact ih a ha (he.of_occurs fun _ => .arg ha)
  | operation op left right ihleft ihright =>
    rw [Expression.substitute, substituteOperand_eq_map, substituteOperand_eq_map]
    refine packedIn_operation (operation?_congr Option.isSome_map Option.isSome_map
      (he.wellFormed.operands op left right .here)) (fun s hs => ?_) fun s hs => ?_
    · obtain ⟨a, rfl, rfl⟩ := Option.map_eq_some_iff.1 hs
      exact ihleft a rfl (he.of_occurs fun _ => .left)
    · obtain ⟨a, rfl, rfl⟩ := Option.map_eq_some_iff.1 hs
      exact ihright a rfl (he.of_occurs fun _ => .right)

end Expression

end Calculator
