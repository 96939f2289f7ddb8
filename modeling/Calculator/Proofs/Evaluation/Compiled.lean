import Calculator.Binary64.Scalar
import Calculator.Evaluation.Compiled
import Calculator.Evaluation.Expression
import Calculator.Proofs.Expression.Height
import Calculator.Proofs.Expression.Unknowns

/-!
# Compiled expressions and their values

An expression is compiled for a list of unknowns exactly if the depth limit leaves room for it and
its unknowns are listed. At a list of arguments the compiled expression gives what the expression
gives when each listed unknown has the argument at its first position.
-/

namespace Calculator

variable {K : Type}

/-- The assignment that gives each listed unknown the argument at its first position in the list.
An unknown whose position is past the last argument has no value. -/
def Assignment.ofArguments (order : List Char) (args : List K) : Assignment K :=
  fun c => if c ∈ order then args[order.idxOf c]? else none

variable {order : List Char} {args : List K}

/-- A power is compiled if its unknown is listed, to the first position of it. -/
theorem compilePower_eq_ok_iff {p : Char × K} {q : Nat × Char × K} :
    compilePower order p = .ok q ↔ p.1 ∈ order ∧ q = (order.idxOf p.1, p.1, p.2) := by
  rw [compilePower]
  by_cases hmem : p.1 ∈ order
  · have hfind : order.findIdx? (· == p.1) = some (order.idxOf p.1) :=
      List.findIdx?_eq_some_iff_findIdx_eq.2 ⟨List.idxOf_lt_length_iff.2 hmem, rfl⟩
    rw [hfind]
    simp [hmem, eq_comm]
  · have hfind : order.findIdx? (· == p.1) = none := by
      simpa using fun c hc (heq : c = p.1) => hmem (heq ▸ hc)
    rw [hfind]
    simp [hmem]

/-- A polynomial is compiled, monomial by monomial, if its unknowns are listed. -/
theorem exists_mapM_compile_iff {ms : List (Monomial K K)} :
    (∃ terms, ms.mapM (·.compile order) = .ok terms) ↔
      ∀ m ∈ ms, ∀ p ∈ m.powers, p.1 ∈ order := by
  rw [Except.exists_mapM_eq_ok_iff]
  refine forall₂_congr fun m _ => ?_
  have hpowers : (∃ qs, m.powers.mapM (compilePower order) = .ok qs) ↔
      ∀ p ∈ m.powers, p.1 ∈ order := by
    simp [Except.exists_mapM_eq_ok_iff, compilePower_eq_ok_iff]
  rw [← hpowers]
  simp only [Monomial.compile, Except.bind_eq_ok_iff]
  constructor
  · rintro ⟨_, qs, hqs, -⟩
    exact ⟨qs, hqs⟩
  · rintro ⟨qs, hqs⟩
    exact ⟨_, qs, hqs, rfl⟩

namespace Expression

variable {depth : Nat}

/-- Arguments are compiled one by one. -/
theorem compileArgs_eq_mapM (es : List (Expression K)) :
    compileArgs order depth es = es.mapM (compileAt order depth) := by
  induction es with
  | nil => rfl
  | cons e es ih =>
    rw [compileArgs, ih, List.mapM_cons]
    rfl

/-- An operand is compiled if it is absent or compiled. -/
theorem exists_compileOperand_iff {operand : Option (Expression K)} :
    (∃ o, compileOperand order depth operand = .ok o) ↔
      ∀ a ∈ operand, ∃ f, a.compileAt order depth = .ok f := by
  cases operand with
  | none => simp [compileOperand]
  | some a =>
    simp only [compileOperand, Except.bind_eq_ok_iff, Option.mem_some_iff, forall_eq']
    constructor
    · rintro ⟨_, f, hf, -⟩
      exact ⟨f, hf⟩
    · rintro ⟨f, hf⟩
      exact ⟨some f, f, hf, rfl⟩

/-- Nothing below the depth limit is compiled. -/
theorem le_of_compileAt {e : Expression K} {f : Compiled K} (h : e.compileAt order depth = .ok f) :
    depth ≤ depthLimit := by
  rw [compileAt.eq_def] at h
  split at h
  · cases h
  · next hle => exact Nat.le_of_not_lt hle

section Depth

variable (hdepth : depth ≤ depthLimit)

include hdepth

/-- A polynomial is compiled to the sum of its compiled monomials. -/
theorem compileAt_value_eq_ok_iff {p : Polynomial K K} {f : Compiled K} :
    (value p).compileAt order depth = .ok f ↔
      ∃ terms, p.monomials.mapM (·.compile order) = .ok terms ∧ f = .sum terms := by
  rw [compileAt, if_neg (Nat.not_lt.2 hdepth), Except.bind_eq_ok_iff]
  simp [eq_comm]

/-- A call is compiled by its arguments. -/
theorem compileAt_call_eq_ok_iff {g : NamedFunction} {es : List (Expression K)} {f : Compiled K} :
    (call g es).compileAt order depth = .ok f ↔
      ∃ fs, compileArgs order (depth + 1) es = .ok fs ∧ f = .call g fs := by
  rw [compileAt, if_neg (Nat.not_lt.2 hdepth), Except.bind_eq_ok_iff]
  simp [eq_comm]

/-- An operation is compiled by its operands. -/
theorem compileAt_operation_eq_ok_iff {op : Operator} {left right : Option (Expression K)}
    {f : Compiled K} :
    (operation op left right).compileAt order depth = .ok f ↔
      ∃ l, compileOperand order (depth + 1) left = .ok l ∧
        ∃ r, compileOperand order (depth + 1) right = .ok r ∧ f = .operation op l r := by
  rw [compileAt, if_neg (Nat.not_lt.2 hdepth)]
  simp only [Except.bind_eq_ok_iff, Except.ok.injEq, @eq_comm _ f]

end Depth

/-- Exactly what does not reach below the depth limit and has no unknowns but the listed ones is
compiled. -/
theorem exists_compileAt_iff {e : Expression K} :
    (∃ f, e.compileAt order depth = .ok f) ↔
      depth + e.height ≤ depthLimit ∧ ∀ c ∈ e.symbols, c ∈ order := by
  induction e generalizing depth with
  | value p =>
    have hsymbols : (∀ c ∈ (value p).symbols, c ∈ order) ↔
        ∃ terms, p.monomials.mapM (·.compile order) = .ok terms := by
      rw [exists_mapM_compile_iff, symbols, Polynomial.unknowns]
      simp only [List.mem_flatMap, List.mem_map]
      constructor
      · exact fun h m hm q hq => h q.1 ⟨m, hm, q, hq, rfl⟩
      · rintro h _ ⟨m, hm, q, hq, rfl⟩
        exact h m hm q hq
    rw [hsymbols, height, Nat.add_zero]
    constructor
    · rintro ⟨f, hf⟩
      have hdepth := le_of_compileAt hf
      obtain ⟨terms, hterms, -⟩ := (compileAt_value_eq_ok_iff hdepth).1 hf
      exact ⟨hdepth, terms, hterms⟩
    · rintro ⟨hdepth, terms, hterms⟩
      exact ⟨.sum terms, (compileAt_value_eq_ok_iff hdepth).2 ⟨terms, hterms, rfl⟩⟩
  | call g es ih =>
    have hargs : (∃ fs, compileArgs order (depth + 1) es = .ok fs) ↔
        (∀ a ∈ es, depth + 1 + a.height ≤ depthLimit) ∧ ∀ a ∈ es, ∀ c ∈ a.symbols, c ∈ order := by
      rw [compileArgs_eq_mapM, Except.exists_mapM_eq_ok_iff, ← forall₂_and]
      exact forall₂_congr fun a ha => ih a ha
    have hsymbols : (∀ c ∈ (call g es).symbols, c ∈ order) ↔
        ∀ a ∈ es, ∀ c ∈ a.symbols, c ∈ order := by
      simp only [mem_symbols_call_iff]
      constructor
      · exact fun h a ha c hc => h c ⟨a, ha, hc⟩
      · rintro h c ⟨a, ha, hc⟩
        exact h a ha c hc
    rw [add_height_call_le_iff, hsymbols, and_assoc, ← hargs]
    constructor
    · rintro ⟨f, hf⟩
      have hdepth := le_of_compileAt hf
      obtain ⟨fs, hfs, -⟩ := (compileAt_call_eq_ok_iff hdepth).1 hf
      exact ⟨hdepth, fs, hfs⟩
    · rintro ⟨hdepth, fs, hfs⟩
      exact ⟨.call g fs, (compileAt_call_eq_ok_iff hdepth).2 ⟨fs, hfs, rfl⟩⟩
  | operation op left right ihleft ihright =>
    have hoperand {operand : Option (Expression K)}
        (ih : ∀ a ∈ operand, ∀ {depth}, (∃ f, a.compileAt order depth = .ok f) ↔
          depth + a.height ≤ depthLimit ∧ ∀ c ∈ a.symbols, c ∈ order) :
        (∃ o, compileOperand order (depth + 1) operand = .ok o) ↔
          (∀ a ∈ operand, depth + 1 + a.height ≤ depthLimit) ∧
            ∀ a ∈ operand, ∀ c ∈ a.symbols, c ∈ order := by
      rw [exists_compileOperand_iff, ← forall₂_and]
      exact forall₂_congr fun a ha => ih a ha
    have hsymbols : (∀ c ∈ (operation op left right).symbols, c ∈ order) ↔
        (∀ a ∈ left, ∀ c ∈ a.symbols, c ∈ order) ∧ ∀ a ∈ right, ∀ c ∈ a.symbols, c ∈ order := by
      simp only [mem_symbols_operation_iff]
      constructor
      · exact fun h => ⟨fun a ha c hc => h c (.inl ⟨a, ha, hc⟩),
          fun a ha c hc => h c (.inr ⟨a, ha, hc⟩)⟩
      · rintro ⟨hleft, hright⟩ c (⟨a, ha, hc⟩ | ⟨a, ha, hc⟩)
        · exact hleft a ha c hc
        · exact hright a ha c hc
    have hboth : (∃ f, (operation op left right).compileAt order depth = .ok f) ↔
        depth ≤ depthLimit ∧ (∃ l, compileOperand order (depth + 1) left = .ok l) ∧
          ∃ r, compileOperand order (depth + 1) right = .ok r := by
      constructor
      · rintro ⟨f, hf⟩
        have hdepth := le_of_compileAt hf
        obtain ⟨l, hl, r, hr, -⟩ := (compileAt_operation_eq_ok_iff hdepth).1 hf
        exact ⟨hdepth, ⟨l, hl⟩, r, hr⟩
      · rintro ⟨hdepth, ⟨l, hl⟩, r, hr⟩
        exact ⟨.operation op l r, (compileAt_operation_eq_ok_iff hdepth).2 ⟨l, hl, r, hr, rfl⟩⟩
    rw [hboth, hoperand ihleft, hoperand ihright, add_height_operation_le_iff, hsymbols]
    tauto

end Expression

variable [Scalar K]

/-- A compiled monomial has the value of the monomial where each unknown has its argument. -/
theorem CompiledTerm.evaluate_of_compile {m : Monomial K K} {t : CompiledTerm K}
    (h : m.compile order = .ok t) : t.evaluate args = m.evaluate (.ofArguments order args) := by
  obtain ⟨qs, hqs, ht⟩ := Except.bind_eq_ok_iff.1 h
  obtain rfl := Except.ok.inj ht
  refine (Except.foldlM_eq_foldlM ?_ m.coefficient).symm
  refine (Except.mapM_eq_ok_iff.1 hqs).imp fun p q hpq product => ?_
  obtain ⟨hmem, rfl⟩ := compilePower_eq_ok_iff.1 hpq
  have hargument : (Assignment.ofArguments order args) p.1 = args[order.idxOf p.1]? := if_pos hmem
  cases hx : args[order.idxOf p.1]? <;> simp only [hargument, hx]

namespace Compiled

/-- Compiled arguments are evaluated one by one. -/
theorem evaluateArgs_eq_mapM (fs : List (Compiled K)) :
    evaluateArgs args fs = fs.mapM (evaluate args) := by
  induction fs with
  | nil => rfl
  | cons f fs ih =>
    rw [evaluateArgs, ih, List.mapM_cons]
    rfl

/-- A compiled expression has the value of the expression where each unknown has its argument, or
fails as the expression does. -/
theorem evaluate_of_compileAt {depth : Nat} {e : Expression K} {f : Compiled K}
    (h : e.compileAt order depth = .ok f) :
    f.evaluate args = e.evaluateAt (.ofArguments order args) depth := by
  have hdepth := Expression.le_of_compileAt h
  induction e generalizing depth f with
  | value p =>
    obtain ⟨terms, hterms, rfl⟩ := (Expression.compileAt_value_eq_ok_iff hdepth).1 h
    rw [Expression.evaluateAt_value hdepth, Polynomial.evaluate, evaluate]
    refine (Except.foldlM_eq_foldlM ?_ 0).symm
    refine (Except.mapM_eq_ok_iff.1 hterms).imp fun m t hmt total => ?_
    rw [CompiledTerm.evaluate_of_compile hmt]
  | call g es ih =>
    obtain ⟨fs, hfs, rfl⟩ := (Expression.compileAt_call_eq_ok_iff hdepth).1 h
    rw [Expression.compileArgs_eq_mapM] at hfs
    have hmembers := (List.forall₂_and_left (p := (· ∈ es)) es fs).2
      ⟨fun _ => id, Except.mapM_eq_ok_iff.1 hfs⟩
    have hsame : es.mapM (Expression.evaluateAt (.ofArguments order args) (depth + 1)) =
        fs.mapM (evaluate args) :=
      Except.mapM_eq_mapM (hmembers.imp fun a _ ha =>
        (ih a ha.1 ha.2 (Expression.le_of_compileAt ha.2)).symm)
    rw [Expression.evaluateAt, if_neg (Nat.not_lt.2 hdepth), Expression.evaluateArgs_eq_mapM,
      hsame, evaluate, evaluateArgs_eq_mapM]
  | operation op left right ihleft ihright =>
    obtain ⟨l, hl, r, hr, rfl⟩ := (Expression.compileAt_operation_eq_ok_iff hdepth).1 h
    have hoperand {operand : Option (Expression K)} {o : Option (Compiled K)}
        (ih : ∀ a ∈ operand, ∀ f, a.compileAt order (depth + 1) = .ok f →
          f.evaluate args = a.evaluateAt (.ofArguments order args) (depth + 1))
        (ho : Expression.compileOperand order (depth + 1) operand = .ok o) :
        evaluateOperand args o =
          Expression.evaluateOperand (.ofArguments order args) (depth + 1) operand := by
      cases operand with
      | none =>
        obtain rfl := Except.ok.inj ho
        rfl
      | some a =>
        obtain ⟨f, hf, heq⟩ := Except.bind_eq_ok_iff.1 ho
        obtain rfl := Except.ok.inj heq
        exact ih a rfl f hf
    rw [evaluate, Expression.evaluateAt, if_neg (Nat.not_lt.2 hdepth),
      hoperand (fun a ha f hf => ihleft a ha hf (Expression.le_of_compileAt hf)) hl,
      hoperand (fun a ha f hf => ihright a ha hf (Expression.le_of_compileAt hf)) hr]

end Compiled

/-- An expression is compiled for a list of unknowns exactly if it reaches no deeper than the
depth limit and each of its unknowns is listed; at any arguments, too few or too many of them
included, the compiled expression then gives the value or the error of the expression where each
listed unknown has the argument at its first position. -/
theorem Expression.exists_compile_iff_and_evaluate_eq (e : Expression K) (order : List Char) :
    ((∃ f, e.compile order = .ok f) ↔
        e.height ≤ depthLimit ∧ ∀ c ∈ e.unknowns, c ∈ order) ∧
      ∀ f, e.compile order = .ok f → ∀ args : List K,
        f.evaluate args = e.evaluate (.ofArguments order args) := by
  constructor
  · simp only [compile, exists_compileAt_iff, Nat.zero_add, mem_unknowns_iff]
  · intro f hf args
    exact Compiled.evaluate_of_compileAt hf

/-- The product of a negated unknown and the cosine of another one. -/
def negatedTimesCosine : Expression Float :=
  .operation .mul
    (some (.operation .sub none (some (.value ⟨[⟨1, [('y', 1)]⟩]⟩))))
    (some (.call .cos [.value ⟨[⟨1, [('x', 1)]⟩]⟩]))

/-- For a list that has `y` twice, the first of two arguments is read for it; with one argument
less, both evaluations fail at `x`. -/
theorem compile_negatedTimesCosine :
    ∃ f, negatedTimesCosine.compile ['y', 'x', 'y'] = .ok f ∧
      f.evaluate [2] = negatedTimesCosine.evaluate (.ofArguments ['y', 'x', 'y'] [2]) ∧
      negatedTimesCosine.evaluate (.ofArguments ['y', 'x', 'y'] [2]) = .error (.unbound 'x') ∧
      f.evaluate [2, 3] = negatedTimesCosine.evaluate (.ofArguments ['y', 'x', 'y'] [2, 3]) := by
  obtain ⟨hcompiled, hvalues⟩ :=
    Expression.exists_compile_iff_and_evaluate_eq negatedTimesCosine ['y', 'x', 'y']
  have hunknowns : negatedTimesCosine.unknowns = ['x', 'y'] := by decide +kernel
  obtain ⟨f, hf⟩ := hcompiled.2 ⟨by decide, by simp [hunknowns]⟩
  exact ⟨f, hf, hvalues f hf [2], rfl, hvalues f hf [2, 3]⟩

end Calculator
