import Calculator.Proofs.Evaluation.Compiled
import Calculator.Proofs.Evaluation.Failure

/-!
# Failures for depth

Neither the evaluation of an expression nor its compilation fails for depth where the depth limit
leaves room for the expression.
-/

namespace Calculator

section Compiling

variable {K : Type} {order : List Char} {depth : Nat}

/-- A power is not compiled only for its unknown. -/
theorem compilePower_ne_tooDeep (p : Char × K) : compilePower order p ≠ .error .tooDeep := by
  rw [compilePower]
  split <;> simp

/-- A monomial is not compiled only for an unknown. -/
theorem Monomial.compile_ne_tooDeep (m : Monomial K K) : m.compile order ≠ .error .tooDeep := by
  intro h
  obtain h | ⟨_, -, h⟩ := Except.bind_eq_error_iff.1 h
  · obtain ⟨p, -, h⟩ := Except.exists_of_mapM_eq_error h
    exact compilePower_ne_tooDeep p h
  · cases h

namespace Expression

/-- What the depth limit leaves room for may lack an unknown, but is not too deep to compile. -/
theorem compileAt_ne_tooDeep {e : Expression K} (h : depth + e.height ≤ depthLimit) :
    e.compileAt order depth ≠ .error .tooDeep := by
  induction e generalizing depth with
  | value p =>
    rw [height, Nat.add_zero] at h
    rw [compileAt, if_neg (Nat.not_lt.2 h)]
    intro herr
    obtain herr | ⟨_, -, herr⟩ := Except.bind_eq_error_iff.1 herr
    · obtain ⟨m, -, herr⟩ := Except.exists_of_mapM_eq_error herr
      exact m.compile_ne_tooDeep herr
    · cases herr
  | call f args ih =>
    obtain ⟨hdepth, hargs⟩ := add_height_call_le_iff.1 h
    rw [compileAt, if_neg (Nat.not_lt.2 hdepth), compileArgs_eq_mapM]
    intro herr
    obtain herr | ⟨_, -, herr⟩ := Except.bind_eq_error_iff.1 herr
    · obtain ⟨a, ha, herr⟩ := Except.exists_of_mapM_eq_error herr
      exact ih a ha (hargs a ha) herr
    · cases herr
  | operation op left right ihleft ihright =>
    obtain ⟨hdepth, hleft, hright⟩ := add_height_operation_le_iff.1 h
    have hoperand {operand : Option (Expression K)}
        (ih : ∀ a ∈ operand, a.compileAt order (depth + 1) ≠ .error .tooDeep) :
        compileOperand order (depth + 1) operand ≠ .error .tooDeep := by
      cases operand with
      | none =>
        intro herr
        cases herr
      | some a =>
        intro herr
        obtain herr | ⟨_, -, herr⟩ := Except.bind_eq_error_iff.1 herr
        · exact ih a rfl herr
        · cases herr
    rw [compileAt, if_neg (Nat.not_lt.2 hdepth)]
    intro herr
    obtain herr | ⟨_, -, herr⟩ := Except.bind_eq_error_iff.1 herr
    · exact hoperand (fun a ha => ihleft a ha (hleft a ha)) herr
    · obtain herr | ⟨_, -, herr⟩ := Except.bind_eq_error_iff.1 herr
      · exact hoperand (fun a ha => ihright a ha (hright a ha)) herr
      · cases herr

end Expression

end Compiling

section Evaluating

variable {K : Type} [Scalar K] {b : Assignment K} {depth : Nat}

/-- What the depth limit leaves room for may have no value, but not for its depth. -/
theorem Expression.evaluateAt_ne_tooDeep {e : Expression K} (h : depth + e.height ≤ depthLimit) :
    e.evaluateAt b depth ≠ .error .tooDeep := by
  induction e generalizing depth with
  | value p =>
    rw [height, Nat.add_zero] at h
    rw [evaluateAt_value h]
    intro herr
    obtain ⟨c, -, -, ⟨⟩⟩ := p.exists_of_evaluate_eq_error herr
  | call f args ih =>
    obtain ⟨hdepth, hargs⟩ := add_height_call_le_iff.1 h
    rw [evaluateAt, if_neg (Nat.not_lt.2 hdepth), evaluateArgs_eq_mapM]
    intro herr
    obtain herr | ⟨xs, -, herr⟩ := Except.bind_eq_error_iff.1 herr
    · obtain ⟨a, ha, herr⟩ := Except.exists_of_mapM_eq_error herr
      exact ih a ha (hargs a ha) herr
    · exact (NamedFunction.of_apply_eq_error herr).2 rfl
  | operation op left right ihleft ihright =>
    obtain ⟨hdepth, hleft, hright⟩ := add_height_operation_le_iff.1 h
    have hoperand {operand : Option (Expression K)}
        (ih : ∀ a ∈ operand, a.evaluateAt b (depth + 1) ≠ .error .tooDeep) :
        evaluateOperand b (depth + 1) operand ≠ .error .tooDeep := by
      cases operand with
      | none =>
        intro herr
        cases herr
      | some a => exact ih a rfl
    rw [evaluateAt, if_neg (Nat.not_lt.2 hdepth)]
    intro herr
    obtain herr | ⟨x, -, herr⟩ := Except.bind_eq_error_iff.1 herr
    · exact hoperand (fun a ha => ihleft a ha (hleft a ha)) herr
    · obtain herr | ⟨y, -, herr⟩ := Except.bind_eq_error_iff.1 herr
      · exact hoperand (fun a ha => ihright a ha (hright a ha)) herr
      · exact (Operator.of_apply_eq_error herr).2 rfl

/-- Exactly what the depth limit leaves room for is simplified, and neither evaluated nor compiled
too deep. -/
theorem Expression.ne_tooDeep_iff {e : Expression K} :
    ((∃ s, e.simplify = .ok s) ∧ (∀ b, e.evaluate b ≠ .error .tooDeep) ∧
      ∀ order, e.compile order ≠ .error .tooDeep) ↔ e.height ≤ depthLimit := by
  have hsimplify : (∃ s, e.simplify = .ok s) ↔ e.height ≤ depthLimit := by
    rw [← Nat.zero_add e.height]
    exact exists_simplifyAt_iff
  constructor
  · rintro ⟨hs, -⟩
    exact hsimplify.1 hs
  · intro h
    have hroom : 0 + e.height ≤ depthLimit := by rwa [Nat.zero_add]
    exact ⟨hsimplify.2 h, fun _ => evaluateAt_ne_tooDeep hroom,
      fun _ => compileAt_ne_tooDeep hroom⟩

end Evaluating

end Calculator
