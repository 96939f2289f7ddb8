import Calculator.Proofs.Expression.Induction
import Calculator.Proofs.Polynomial.Unknowns

/-!
# Failures of the parts

A polynomial has no value only where one of its unknowns has none. Operators and functions know
neither of unknowns nor of depth, and fail for reasons of their own.
-/

namespace Calculator

variable {K : Type} [Scalar K] {b : Assignment K} {err : EvalError K}

/-- A monomial has no value only where one of its unknowns has none. -/
theorem Monomial.exists_of_evaluate_eq_error {m : Monomial K K} (h : m.evaluate b = .error err) :
    ∃ c ∈ m.powers.map (·.1), b c = none ∧ err = .unbound c := by
  obtain ⟨p, hp, product, h⟩ := Except.exists_of_foldlM_eq_error h
  refine ⟨p.1, List.mem_map_of_mem hp, ?_⟩
  cases hb : b p.1 with
  | none =>
    rw [hb] at h
    exact ⟨rfl, (Except.error.inj h).symm⟩
  | some x =>
    rw [hb] at h
    cases h

/-- A polynomial has no value only where one of its unknowns has none. -/
theorem Polynomial.exists_of_evaluate_eq_error {p : Polynomial K K}
    (h : p.evaluate b = .error err) : ∃ c ∈ p.unknowns, b c = none ∧ err = .unbound c := by
  obtain ⟨m, hm, sum, h⟩ := Except.exists_of_foldlM_eq_error h
  obtain h | ⟨x, -, h⟩ := Except.bind_eq_error_iff.1 h
  · obtain ⟨c, hc, hnone, herr⟩ := m.exists_of_evaluate_eq_error h
    exact ⟨c, mem_unknowns_iff.2 ⟨m, hm, hc⟩, hnone, herr⟩
  · cases h

/-- Whatever an operator fails for, it is neither an unknown nor depth. -/
theorem Operator.of_apply_eq_error {op : Operator} {x y : K} (h : op.apply x y = .error err) :
    (∀ c, err ≠ .unbound c) ∧ err ≠ .tooDeep := by
  cases op with
  | add | sub | mul | pow => cases h
  | div | mod | factorial =>
    rw [Operator.apply] at h
    split at h <;> cases h
    exact ⟨fun _ => nofun, nofun⟩

/-- Whatever a function fails for, it is neither an unknown nor depth. -/
theorem NamedFunction.of_apply_eq_error {f : NamedFunction} {xs : List K}
    (h : f.apply xs = .error err) : (∀ c, err ≠ .unbound c) ∧ err ≠ .tooDeep := by
  unfold NamedFunction.apply at h
  dsimp only at h
  repeat' split at h
  all_goals cases h
  all_goals exact ⟨fun _ => nofun, nofun⟩

end Calculator
