import Calculator.Binary64.Scalar
import Calculator.Proofs.Evaluation.Failure
import Calculator.Proofs.Simplification.Unknowns

/-!
# Evaluation and unknowns

Evaluation looks up the unknowns of an expression and no others: assignments that agree on them
give the same result, and only an unknown that is listed and has no value can be missed.
-/

namespace Calculator

variable {K : Type} [Scalar K] {b b' : Assignment K} {c : Char}

/-- A monomial has the same value under assignments that agree on its unknowns. -/
theorem Monomial.evaluate_congr {m : Monomial K K}
    (h : ∀ c ∈ m.powers.map (·.1), b c = b' c) : m.evaluate b = m.evaluate b' := by
  refine Except.foldlM_eq_foldlM (List.forall₂_same.2 fun p hp product => ?_) _
  rw [h p.1 (List.mem_map_of_mem hp)]

/-- A polynomial has the same value under assignments that agree on its unknowns. -/
theorem Polynomial.evaluate_congr {p : Polynomial K K} (h : ∀ c ∈ p.unknowns, b c = b' c) :
    p.evaluate b = p.evaluate b' := by
  refine Except.foldlM_eq_foldlM (List.forall₂_same.2 fun m hm sum => ?_) _
  rw [m.evaluate_congr fun c hc => h c (mem_unknowns_iff.2 ⟨m, hm, hc⟩)]

namespace Expression

variable {e : Expression K} {depth : Nat}

/-- An expression has the same value under assignments that agree on its unknowns. -/
theorem evaluateAt_congr (h : ∀ c ∈ e.symbols, b c = b' c) :
    e.evaluateAt b depth = e.evaluateAt b' depth := by
  induction e generalizing depth with
  | value p => rw [evaluateAt, evaluateAt, p.evaluate_congr h]
  | call f args ih =>
    have hargs : evaluateArgs b (depth + 1) args = evaluateArgs b' (depth + 1) args := by
      rw [evaluateArgs_eq_mapM, evaluateArgs_eq_mapM]
      refine Except.mapM_eq_mapM (List.forall₂_same.2 fun a ha => ?_)
      exact ih a ha fun c hc => h c (mem_symbols_call_iff.2 ⟨a, ha, hc⟩)
    rw [evaluateAt, evaluateAt, hargs]
  | operation op left right ihleft ihright =>
    have hoperand {operand : Option (Expression K)}
        (ih : ∀ a ∈ operand, a.evaluateAt b (depth + 1) = a.evaluateAt b' (depth + 1)) :
        evaluateOperand b (depth + 1) operand = evaluateOperand b' (depth + 1) operand := by
      cases operand with
      | none => rfl
      | some a => exact ih a rfl
    have hleft := hoperand fun a ha =>
      ihleft a ha fun c hc => h c (mem_symbols_operation_iff.2 (.inl ⟨a, ha, hc⟩))
    have hright := hoperand fun a ha =>
      ihright a ha fun c hc => h c (mem_symbols_operation_iff.2 (.inr ⟨a, ha, hc⟩))
    rw [evaluateAt, evaluateAt, hleft, hright]

/-- An unknown that evaluation misses stands in the expression and has no value. -/
theorem mem_symbols_of_evaluateAt (h : e.evaluateAt b depth = .error (.unbound c)) :
    c ∈ e.symbols ∧ b c = none := by
  induction e generalizing depth with
  | value p =>
    rw [evaluateAt] at h
    split at h
    · cases h
    · obtain ⟨d, hd, hnone, ⟨⟩⟩ := p.exists_of_evaluate_eq_error h
      exact ⟨hd, hnone⟩
  | call f args ih =>
    rw [evaluateAt, evaluateArgs_eq_mapM] at h
    split at h
    · cases h
    · obtain h | ⟨xs, -, h⟩ := Except.bind_eq_error_iff.1 h
      · obtain ⟨a, ha, h⟩ := Except.exists_of_mapM_eq_error h
        exact (ih a ha h).imp_left fun hc => mem_symbols_call_iff.2 ⟨a, ha, hc⟩
      · exact absurd rfl ((NamedFunction.of_apply_eq_error h).1 c)
  | operation op left right ihleft ihright =>
    have hoperand {operand : Option (Expression K)}
        (h : evaluateOperand b (depth + 1) operand = .error (.unbound c)) :
        ∃ a ∈ operand, a.evaluateAt b (depth + 1) = .error (.unbound c) := by
      cases operand with
      | none => cases h
      | some a => exact ⟨a, rfl, h⟩
    rw [evaluateAt] at h
    split at h
    · cases h
    · obtain h | ⟨x, -, h⟩ := Except.bind_eq_error_iff.1 h
      · obtain ⟨a, ha, h⟩ := hoperand h
        exact (ihleft a ha h).imp_left fun hc => mem_symbols_operation_iff.2 (.inl ⟨a, ha, hc⟩)
      · obtain h | ⟨y, -, h⟩ := Except.bind_eq_error_iff.1 h
        · obtain ⟨a, ha, h⟩ := hoperand h
          exact (ihright a ha h).imp_left fun hc => mem_symbols_operation_iff.2 (.inr ⟨a, ha, hc⟩)
        · exact absurd rfl ((Operator.of_apply_eq_error h).1 c)

/-- Where all unknowns of an expression have values, evaluation misses none. -/
theorem evaluate_ne_unbound (h : ∀ c ∈ e.symbols, (b c).isSome = true) (c : Char) :
    e.evaluate b ≠ .error (.unbound c) := by
  intro herr
  obtain ⟨hc, hnone⟩ := mem_symbols_of_evaluateAt herr
  have hsome := h c hc
  rw [hnone] at hsome
  cases hsome

/-- The value of an expression depends on its listed unknowns only. What evaluation misses is
listed and has no value; if all that is listed has a value, nothing is missed, neither by the
expression nor by what it is simplified to. -/
theorem evaluate_depends_on_unknowns (e : Expression K) (b : Assignment K) :
    (∀ b' : Assignment K, (∀ c ∈ e.unknowns, b c = b' c) → e.evaluate b = e.evaluate b') ∧
      (∀ c, e.evaluate b = .error (.unbound c) → c ∈ e.unknowns ∧ b c = none) ∧
      ((∀ c ∈ e.unknowns, (b c).isSome = true) →
        (∀ c, e.evaluate b ≠ .error (.unbound c)) ∧
          ∀ s, e.simplify = .ok s → ∀ c, s.evaluate b ≠ .error (.unbound c)) := by
  simp only [mem_unknowns_iff]
  refine ⟨fun b' => evaluateAt_congr, fun c => mem_symbols_of_evaluateAt, fun hbound => ?_⟩
  refine ⟨evaluate_ne_unbound hbound, fun s hs => ?_⟩
  exact evaluate_ne_unbound fun c hc => hbound c (mem_symbols_of_simplifyAt hs hc)

/-- The difference of an unknown and itself. -/
def unknownLessItself : Expression Float :=
  .operation .sub (some (.value ⟨[.unknown 'x']⟩)) (some (.value ⟨[.unknown 'x']⟩))

/-- The difference of an unknown and itself has the same value whatever another unknown is, misses
its unknown if that has no value, and misses nothing if it has one, as it is or simplified to
zero. -/
theorem evaluate_unknownLessItself :
    unknownLessItself.evaluate (Assignment.empty.bind 'x' 2) =
        unknownLessItself.evaluate ((Assignment.empty.bind 'x' 2).bind 'y' 3) ∧
      unknownLessItself.evaluate .empty = .error (.unbound 'x') ∧
      'x' ∈ unknownLessItself.unknowns ∧
      unknownLessItself.simplify = .ok (value .zero) ∧
      ∀ c, unknownLessItself.evaluate (Assignment.empty.bind 'x' 2) ≠ .error (.unbound c) ∧
        (value .zero).evaluate (Assignment.empty.bind 'x' (2 : Float)) ≠ .error (.unbound c) := by
  have hdifference :
      (⟨[.unknown 'x']⟩ : Polynomial Float Float).sub ⟨[.unknown 'x']⟩ = .zero := by
    let monomials : List (Monomial Float Float) := [.unknown 'x', (Monomial.unknown 'x').negate]
    have hnone : (monomials.foldl Polynomial.addMonomial []).filter
        (fun m => m.coefficient != 0) = [] := by decide +kernel
    rw [Polynomial.sub, Polynomial.ofMonomials, List.map_singleton, List.singleton_append, hnone,
      List.mergeSort_nil, Polynomial.zero]
  have hsimplify : unknownLessItself.simplify = .ok (value .zero) :=
    congrArg (fun p => Except.ok (value p)) hdifference
  have herror : unknownLessItself.evaluate .empty = .error (.unbound 'x') := rfl
  have hlisted {P : Char → Prop} (hx : P 'x') : ∀ c ∈ unknownLessItself.unknowns, P c := by
    have hunknowns : unknownLessItself.unknowns = ['x'] := by decide +kernel
    rw [hunknowns]
    exact List.forall_mem_singleton.2 hx
  obtain ⟨-, hmissed, -⟩ := evaluate_depends_on_unknowns unknownLessItself .empty
  obtain ⟨hcongr, -, hbound⟩ :=
    evaluate_depends_on_unknowns unknownLessItself (Assignment.empty.bind 'x' 2)
  obtain ⟨hne, hsimplified⟩ := hbound (hlisted rfl)
  exact ⟨hcongr _ (hlisted rfl), herror, (hmissed 'x' herror).1, hsimplify,
    fun c => ⟨hne c, hsimplified _ hsimplify c⟩⟩

end Expression

end Calculator
