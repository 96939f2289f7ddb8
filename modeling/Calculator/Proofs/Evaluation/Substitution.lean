import Calculator.Proofs.Evaluation.Unknowns
import Calculator.Proofs.Expression.Packed
import Calculator.Proofs.Simplification.Value

/-!
# Substitution and evaluation

A value may be put in place of an unknown in the expression, or bound to the unknown by the
assignment. Over a field both evaluate to the same, except that a monomial which cancels out after
the substitution takes its other unknowns with it, so that these need no values any more.
-/

namespace Calculator

variable {K : Type}

section Scalars

variable [Scalar K]

/-- Putting a value in place of an unknown that a monomial does not have leaves the monomial. -/
theorem Monomial.substitute_eq_self {m : Monomial K K} {c : Char}
    (h : c ∉ m.powers.map (·.1)) (x : K) : m.substitute c x = m := by
  have hne : ∀ p ∈ m.powers, p.1 ≠ c := fun p hp heq =>
    h (List.mem_map.2 ⟨p, hp, heq⟩)
  have hproduct {powers : List (Char × K)} (h : ∀ p ∈ powers, p.1 ≠ c) (product : K) :
      powers.foldl (fun product p =>
        if p.1 = c then product * Primitives.pow x p.2 else product) product = product := by
    induction powers with
    | nil => rfl
    | cons p ps ih =>
      obtain ⟨hp, hps⟩ := List.forall_mem_cons.1 h
      rw [List.foldl_cons, if_neg hp, ih hps]
  have hpowers : m.powers.filter (fun p => p.1 ≠ c) = m.powers :=
    List.filter_eq_self.2 fun p hp => decide_eq_true (hne p hp)
  rw [substitute, hproduct hne, hpowers]

/-- Putting a value in place of an unknown that a packed polynomial does not have leaves the
polynomial. -/
theorem Polynomial.PackedIn.substitute_eq_self {p : Polynomial Float Float} {unknowns : List Char}
    (hp : p.PackedIn unknowns) {c : Char} (hc : c ∉ p.unknowns) (x : Float) :
    p.substitute c x = p := by
  have hmonomials : p.monomials.map (·.substitute c x) = p.monomials.map id :=
    List.map_congr_left fun m hm =>
      m.substitute_eq_self (fun h => hc (mem_unknowns_iff.2 ⟨m, hm, h⟩)) x
  rw [Polynomial.substitute, hmonomials, List.map_id, hp.ofMonomials_eq]

/-- Putting a value in place of an unknown that does not stand in an expression with packed
polynomials leaves the expression. -/
theorem Expression.substitute_eq_self {e : Expression Float} {c : Char}
    (hpacked : ∀ p, Occurs (value p) e → p.PackedIn p.unknowns) (hc : c ∉ e.symbols) (x : Float) :
    e.substitute c x = e := by
  induction e with
  | value p => rw [substitute, (hpacked p .here).substitute_eq_self hc]
  | call f args ih =>
    have hargs : args.map (substitute c x) = args.map id := by
      refine List.map_congr_left fun a ha => ih a ha (fun p hp => hpacked p (.arg ha hp)) ?_
      exact fun h => hc (mem_symbols_call_iff.2 ⟨a, ha, h⟩)
    rw [substitute, substituteArgs_eq_map, hargs, List.map_id]
  | operation op left right ihleft ihright =>
    have hoperand {operand : Option (Expression Float)} (ih : ∀ a ∈ operand, a.substitute c x = a) :
        operand.map (substitute c x) = operand := by
      cases operand with
      | none => rfl
      | some a => rw [Option.map_some, ih a rfl]
    have hleft : ∀ a ∈ left, a.substitute c x = a := fun a ha =>
      ihleft a ha (fun p hp => hpacked p (.of_mem_left ha hp))
        fun h => hc (mem_symbols_operation_iff.2 (.inl ⟨a, ha, h⟩))
    have hright : ∀ a ∈ right, a.substitute c x = a := fun a ha =>
      ihright a ha (fun p hp => hpacked p (.of_mem_right ha hp))
        fun h => hc (mem_symbols_operation_iff.2 (.inr ⟨a, ha, h⟩))
    rw [substitute, substituteOperand_eq_map, substituteOperand_eq_map, hoperand hleft,
      hoperand hright]

end Scalars

/-- Two results are the same, unless the second one misses an unknown other than `c`. -/
def SameUnlessMissed {α : Type} (c : Char) (r s : Except (EvalError K) α) : Prop :=
  r = s ∨ ∃ u, u ≠ c ∧ s = .error (.unbound u)

namespace SameUnlessMissed

variable {α β γ : Type} {c : Char}

/-- A result is the same as itself. -/
theorem refl (r : Except (EvalError K) α) : SameUnlessMissed c r r :=
  .inl rfl

/-- Steps that do the same do so one after the other. -/
theorem bind {r s : Except (EvalError K) α} {f g : α → Except (EvalError K) β}
    (h : SameUnlessMissed c r s) (hfg : ∀ x, SameUnlessMissed c (f x) (g x)) :
    SameUnlessMissed c (r >>= f) (s >>= g) := by
  obtain rfl | ⟨u, hu, rfl⟩ := h
  · cases r with
    | error err => exact refl _
    | ok x => exact hfg x
  · exact .inr ⟨u, hu, rfl⟩

/-- Functions that do the same on the elements of two lists do so when they are mapped over them. -/
theorem mapM {f : α → Except (EvalError K) γ} {g : β → Except (EvalError K) γ} {as : List α}
    {bs : List β} (h : List.Forall₂ (fun a b => SameUnlessMissed c (f a) (g b)) as bs) :
    SameUnlessMissed c (as.mapM f) (bs.mapM g) := by
  induction h with
  | nil => exact refl _
  | cons hab _ ih =>
    rw [List.mapM_cons, List.mapM_cons]
    exact hab.bind fun _ => ih.bind fun _ => refl _

end SameUnlessMissed

section Field

variable [Field K] [Primitives K] [DecidableEq K] [Ord K] {b : Assignment K} {c : Char} {v : K}

omit [Primitives K] [DecidableEq K] [Ord K] in
/-- Binding an unknown changes its value and no other. -/
theorem Assignment.total_bind (b : Assignment K) (c : Char) (v : K) (d : Char) :
    (b.bind c v).total d = if d = c then v else b.total d := by
  rw [total, bind, total]
  split <;> rfl

/-- A monomial with a value in place of an unknown has the value that it has where the unknown is
bound to it. -/
theorem Monomial.valueAt_substitute (m : Monomial K K) :
    (m.substitute c v).valueAt b.total = m.valueAt (b.bind c v).total := by
  rw [valueAt, substitute, valueAt]
  generalize m.coefficient = product
  induction m.powers generalizing product with
  | nil => rfl
  | cons p ps ih =>
    rw [List.foldl_cons, powersAt_cons, Assignment.total_bind, ← mul_assoc]
    by_cases hp : p.1 = c
    · rw [if_pos hp, if_pos hp, List.filter_cons_of_neg (by simpa using hp), ih]
    · rw [if_neg hp, if_neg hp, List.filter_cons_of_pos (by simpa using hp), powersAt_cons,
        mul_left_comm, ih]
      ring

/-- A polynomial with a value in place of an unknown is evaluated as where the unknown is bound to
the value, unless that misses another unknown. -/
theorem Polynomial.evaluate_substitute (p : Polynomial K K) :
    SameUnlessMissed c ((p.substitute c v).evaluate b) (p.evaluate (b.bind c v)) := by
  cases h : p.evaluate (b.bind c v) with
  | error err =>
    obtain ⟨u, -, hnone, rfl⟩ := p.exists_of_evaluate_eq_error h
    refine .inr ⟨u, ?_, rfl⟩
    rintro rfl
    simp [Assignment.bind] at hnone
  | ok x =>
    obtain ⟨hbinds, rfl⟩ := evaluate_eq_ok_iff.1 h
    refine .inl (evaluate_eq_ok_iff.2 ⟨fun m hm power hpower => ?_, ?_⟩)
    · obtain ⟨hmem, hne⟩ :=
        mem_unknowns_substitute (mem_unknowns_iff.2 ⟨m, hm, List.mem_map_of_mem hpower⟩)
      obtain ⟨n, hn, hsymbol⟩ := mem_unknowns_iff.1 hmem
      obtain ⟨power', hpower', heq⟩ := List.mem_map.1 hsymbol
      have hbound := hbinds n hn power' hpower'
      rwa [heq, Assignment.bind, if_neg hne] at hbound
    · have hvalues : (p.monomials.map (·.substitute c v)).map (·.valueAt b.total) =
          p.monomials.map (·.valueAt (b.bind c v).total) := by
        rw [List.map_map]
        exact List.map_congr_left fun m _ => m.valueAt_substitute
      rw [substitute, sumAt_ofMonomials, sumAt, sumAt, hvalues]

namespace Expression

/-- An expression with a value in place of an unknown is evaluated as where the unknown is bound to
the value, unless that misses another unknown. -/
theorem evaluateAt_substitute (e : Expression K) (depth : Nat) :
    SameUnlessMissed c ((e.substitute c v).evaluateAt b depth)
      (e.evaluateAt (b.bind c v) depth) := by
  induction e generalizing depth with
  | value p =>
    rw [substitute, evaluateAt, evaluateAt]
    split
    · exact .refl _
    · exact p.evaluate_substitute
  | call f args ih =>
    rw [substitute, evaluateAt, evaluateAt, substituteArgs_eq_map, evaluateArgs_eq_mapM,
      evaluateArgs_eq_mapM]
    split
    · exact .refl _
    · refine SameUnlessMissed.bind (.mapM ?_) fun _ => .refl _
      exact List.forall₂_map_left_iff.2 (List.forall₂_same.2 fun a ha => ih a ha (depth + 1))
  | operation op left right ihleft ihright =>
    have hoperand {operand : Option (Expression K)}
        (ih : ∀ a ∈ operand, ∀ depth, SameUnlessMissed c ((a.substitute c v).evaluateAt b depth)
          (a.evaluateAt (b.bind c v) depth)) :
        SameUnlessMissed c (evaluateOperand b (depth + 1) (substituteOperand c v operand))
          (evaluateOperand (b.bind c v) (depth + 1) operand) := by
      cases operand with
      | none => exact .refl _
      | some a => exact ih a rfl (depth + 1)
    rw [substitute, evaluateAt, evaluateAt]
    split
    · exact .refl _
    · exact (hoperand ihleft).bind fun _ => (hoperand ihright).bind fun _ => .refl _

end Expression

end Field

/-- Over a field, with any function as the power, an expression with a value in place of an unknown
is evaluated as where the unknown is bound to the value, unless that misses another unknown. For
doubles, the substitution takes the unknown out of the list, brings in none, and leaves an
expression with packed polynomials as it is if the unknown does not stand in it. -/
theorem Expression.evaluate_substitute_and_unknowns :
    (∀ (K : Type) [Field K] [Primitives K] [DecidableEq K] [Ord K] (e : Expression K) (c : Char)
      (v : K) (b : Assignment K),
      (e.substitute c v).evaluate b = e.evaluate (b.bind c v) ∨
        ∃ u, u ≠ c ∧ e.evaluate (b.bind c v) = .error (.unbound u)) ∧
    ∀ (e : Expression Float) (c : Char) (x : Float),
      c ∉ (e.substitute c x).unknowns ∧ (e.substitute c x).unknowns ⊆ e.unknowns ∧
        ((∀ p, Occurs (value p) e → p.PackedIn p.unknowns) → c ∉ e.unknowns →
          e.substitute c x = e) := by
  constructor
  · intro K _ _ _ _ e c v b
    exact e.evaluateAt_substitute 0
  · intro e c x
    refine ⟨fun hc => ?_, fun d hd => ?_, fun hpacked hc => ?_⟩
    · exact (mem_symbols_substitute (mem_unknowns_iff.1 hc)).2 rfl
    · exact mem_unknowns_iff.2 (mem_symbols_substitute (mem_unknowns_iff.1 hd)).1
    · exact substitute_eq_self hpacked (fun h => hc (mem_unknowns_iff.2 h)) x

/-- The product of two unknowns less twice the second one. -/
def productLessDouble : Expression ℚ :=
  .value ⟨[⟨1, [('x', 1), ('y', 1)]⟩, ⟨-2, [('y', 1)]⟩]⟩

/-- With two in place of the first unknown, the product less the double is zero wherever the second
one has a value. The difference of an unknown and itself stays as it is when a value is put in place
of another unknown, and has none left when one is put in place of its own. -/
theorem evaluate_substitute_productLessDouble :
    (productLessDouble.substitute 'x' 2).evaluate (Assignment.empty.bind 'y' 5) = .ok 0 ∧
      Expression.unknownLessItself.substitute 'y' 3 = Expression.unknownLessItself ∧
      'x' ∉ (Expression.unknownLessItself.substitute 'x' 3).unknowns := by
  obtain ⟨hcommutes, hunknowns⟩ := Expression.evaluate_substitute_and_unknowns
  have hvalue : productLessDouble.evaluate ((Assignment.empty.bind 'y' 5).bind 'x' 2) = .ok 0 := by
    decide +kernel
  have hpacked : (⟨[.unknown 'x']⟩ : Polynomial Float Float).PackedIn ['x'] := by
    have hone : ((Monomial.unknown 'x' : Monomial Float Float).coefficient != 0) = true := by
      decide +kernel
    have hunknown := Monomial.packedIn_unknown (List.mem_singleton_self 'x')
    exact ⟨List.forall_mem_singleton.2 hunknown, List.forall_mem_singleton.2 hone,
      List.pairwise_singleton _ _, List.pairwise_singleton _ _⟩
  have hleaves : ∀ p, Expression.Occurs (.value p) Expression.unknownLessItself →
      p.PackedIn p.unknowns := by
    intro p hp
    obtain rfl : p = ⟨[.unknown 'x']⟩ := by simpa [Expression.unknownLessItself] using hp
    exact hpacked
  refine ⟨?_, ?_, ?_⟩
  · obtain heq | ⟨u, -, hmissed⟩ :=
      hcommutes ℚ productLessDouble 'x' 2 (Assignment.empty.bind 'y' 5)
    · exact heq.trans hvalue
    · rw [hvalue] at hmissed
      cases hmissed
  · obtain ⟨-, -, hself⟩ := hunknowns Expression.unknownLessItself 'y' 3
    exact hself hleaves (by decide +kernel)
  · exact (hunknowns Expression.unknownLessItself 'x' 3).1

end Calculator
