import Calculator.Proofs.Expression.Unknowns
import Calculator.Proofs.Polynomial.Unknowns

/-!
# Unknowns of simplified expressions

Neither simplification nor substitution brings in unknowns, whatever the scalars are.
-/

namespace Calculator

variable {K : Type} [Scalar K] {c : Char}

/-- What two polynomials fold into has no unknowns but theirs. -/
theorem Operator.mem_unknowns_fold? {op : Operator} {p q r : Polynomial K K}
    (hr : op.fold? p q = some r) (h : c ∈ r.unknowns) : c ∈ p.unknowns ∨ c ∈ q.unknowns := by
  have hconstants {op : Operator} (hr : op.foldConstants? p q = some r) : c ∉ r.unknowns := by
    rw [foldConstants?] at hr
    split at hr
    · split at hr
      · obtain rfl := Option.some.inj hr
        exact Polynomial.notMem_unknowns_constant _
      · cases hr
    · cases hr
  cases op with
  | add =>
    obtain rfl := Option.some.inj hr
    exact Polynomial.mem_unknowns_add h
  | sub =>
    obtain rfl := Option.some.inj hr
    exact Polynomial.mem_unknowns_sub h
  | mul =>
    obtain rfl := Option.some.inj hr
    exact Polynomial.mem_unknowns_mul h
  | div => exact Polynomial.mem_unknowns_div hr h
  | pow => exact .inl (Polynomial.mem_unknowns_pow hr h)
  | mod => exact absurd h (hconstants hr)
  | factorial => exact absurd h (hconstants hr)

namespace Expression

/-- What two operands are combined into has no unknowns but theirs. -/
theorem mem_symbols_combine {op : Operator} {left right : Option (Expression K)}
    (h : c ∈ (op.combine left right).symbols) :
    (∃ a ∈ left, c ∈ a.symbols) ∨ ∃ a ∈ right, c ∈ a.symbols := by
  have hoperand {operand : Option (Expression K)} {p : Polynomial K K}
      (hp : Operator.operandPolynomial? operand = some p) (hc : c ∈ p.unknowns) :
      ∃ a ∈ operand, c ∈ a.symbols := by
    obtain ⟨-, rfl⟩ | rfl := operandPolynomial?_eq_some_iff.1 hp
    · cases hc
    · exact ⟨value p, rfl, hc⟩
  obtain ⟨p, q, r, hp, hq, hr, hvalue⟩ | hstays := combine_eq op left right
  · rw [hvalue] at h
    exact (Operator.mem_unknowns_fold? hr h).imp (hoperand hp) (hoperand hq)
  · rw [hstays] at h
    exact mem_symbols_operation_iff.1 h

/-- What an expression is simplified to has no unknowns but its own. -/
theorem mem_symbols_of_simplifyAt {e s : Expression K} {depth : Nat}
    (hs : e.simplifyAt depth = .ok s) (h : c ∈ s.symbols) : c ∈ e.symbols := by
  induction e generalizing depth s with
  | value p =>
    rw [simplifyAt_value (le_of_simplifyAt hs)] at hs
    obtain rfl := Except.ok.inj hs
    exact h
  | call f args ih =>
    obtain ⟨simplified, hargs, rfl⟩ := (simplifyAt_call_eq_ok_iff (le_of_simplifyAt hs)).1 hs
    obtain ⟨t, ht, hc⟩ := mem_symbols_call_iff.1 h
    obtain ⟨a, ha, hsimplify⟩ := exists_of_simplifyArgs hargs t ht
    exact mem_symbols_call_iff.2 ⟨a, ha, ih a ha hsimplify hc⟩
  | operation op left right ihleft ihright =>
    obtain ⟨l, hl, r, hr, rfl⟩ := (simplifyAt_operation_eq_ok_iff (le_of_simplifyAt hs)).1 hs
    refine mem_symbols_operation_iff.2 ((mem_symbols_combine h).imp ?_ ?_)
    · rintro ⟨t, ht, hc⟩
      obtain ⟨a, ha, hsimplify⟩ := (exists_of_simplifyOperand hl).2 t ht
      exact ⟨a, ha, ihleft a ha hsimplify hc⟩
    · rintro ⟨t, ht, hc⟩
      obtain ⟨a, ha, hsimplify⟩ := (exists_of_simplifyOperand hr).2 t ht
      exact ⟨a, ha, ihright a ha hsimplify hc⟩

/-- An expression with a value in place of an unknown has the other unknowns only. -/
theorem mem_symbols_substitute {e : Expression K} {symbol : Char} {x : K}
    (h : c ∈ (e.substitute symbol x).symbols) : c ∈ e.symbols ∧ c ≠ symbol := by
  induction e with
  | value p => exact Polynomial.mem_unknowns_substitute h
  | call f args ih =>
    rw [substitute, substituteArgs_eq_map] at h
    obtain ⟨t, ht, hc⟩ := mem_symbols_call_iff.1 h
    obtain ⟨a, ha, rfl⟩ := List.mem_map.1 ht
    exact (ih a ha hc).imp_left fun hc => mem_symbols_call_iff.2 ⟨a, ha, hc⟩
  | operation op left right ihleft ihright =>
    rw [substitute, substituteOperand_eq_map, substituteOperand_eq_map] at h
    obtain ⟨t, ht, hc⟩ | ⟨t, ht, hc⟩ := mem_symbols_operation_iff.1 h
    · obtain ⟨a, ha, rfl⟩ := Option.map_eq_some_iff.1 ht
      exact (ihleft a ha hc).imp_left fun hc => mem_symbols_operation_iff.2 (.inl ⟨a, ha, hc⟩)
    · obtain ⟨a, ha, rfl⟩ := Option.map_eq_some_iff.1 ht
      exact (ihright a ha hc).imp_left fun hc => mem_symbols_operation_iff.2 (.inr ⟨a, ha, hc⟩)

end Expression

end Calculator
