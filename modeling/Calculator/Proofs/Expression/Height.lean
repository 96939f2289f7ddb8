import Calculator.Proofs.Expression.Induction

/-!
# Height of expressions

The height of an expression is the number of levels below its root. What is no higher than the
depth limit leaves room for is simplified, and has the same value wherever it stands.
-/

namespace Calculator.Expression

variable {K : Type}

mutual

/-- The number of levels below the root of an expression. -/
def height : Expression K → Nat
  | value _ => 0
  | call _ args => heightOfArgs args
  | operation _ left right => max (heightOfOperand left) (heightOfOperand right)

/-- The number of levels that arguments put below their call. -/
def heightOfArgs : List (Expression K) → Nat
  | [] => 0
  | e :: es => max (e.height + 1) (heightOfArgs es)

/-- The number of levels that an operand puts below its operation. -/
def heightOfOperand : Option (Expression K) → Nat
  | none => 0
  | some e => e.height + 1

end

variable {depth limit : Nat}

/-- Arguments put as many levels below their call as the highest of them needs. -/
theorem heightOfArgs_le_iff {args : List (Expression K)} :
    heightOfArgs args ≤ limit ↔ ∀ a ∈ args, a.height + 1 ≤ limit := by
  induction args with
  | nil => simp [heightOfArgs]
  | cons a as ih => rw [heightOfArgs, Nat.max_le, ih, List.forall_mem_cons]

/-- A call reaches no deeper than a limit if it stands no deeper and its arguments, a level below
it, reach no deeper. -/
theorem add_height_call_le_iff {f : NamedFunction} {args : List (Expression K)} :
    depth + (call f args).height ≤ limit ↔
      depth ≤ limit ∧ ∀ a ∈ args, depth + 1 + a.height ≤ limit := by
  rw [height]
  constructor
  · intro h
    refine ⟨by omega, fun a ha => ?_⟩
    have hle := heightOfArgs_le_iff.1 (Nat.le_refl (heightOfArgs args)) a ha
    omega
  · rintro ⟨hdepth, hargs⟩
    have hle : heightOfArgs args ≤ limit - depth := by
      refine heightOfArgs_le_iff.2 fun a ha => ?_
      have ha' := hargs a ha
      omega
    omega

/-- An operation reaches no deeper than a limit if it stands no deeper and its operands, a level
below it, reach no deeper. -/
theorem add_height_operation_le_iff {op : Operator} {left right : Option (Expression K)} :
    depth + (operation op left right).height ≤ limit ↔
      depth ≤ limit ∧ (∀ a ∈ left, depth + 1 + a.height ≤ limit) ∧
        ∀ a ∈ right, depth + 1 + a.height ≤ limit := by
  have hoperand (operand : Option (Expression K)) (hdepth : depth ≤ limit) :
      depth + heightOfOperand operand ≤ limit ↔
        ∀ a ∈ operand, depth + 1 + a.height ≤ limit := by
    cases operand with
    | none => simpa [heightOfOperand] using hdepth
    | some a =>
      simp only [heightOfOperand, Option.mem_some_iff, forall_eq']
      omega
  rw [height]
  constructor
  · intro h
    have hdepth : depth ≤ limit := by omega
    exact ⟨hdepth, (hoperand left hdepth).1 (by omega), (hoperand right hdepth).1 (by omega)⟩
  · rintro ⟨hdepth, hleft, hright⟩
    have hleft' := (hoperand left hdepth).2 hleft
    have hright' := (hoperand right hdepth).2 hright
    omega

variable [Scalar K] {b : Assignment K}

/-- Arguments are all simplified if each of them is. -/
theorem exists_simplifyArgs_iff {args : List (Expression K)} :
    (∃ simplified, simplifyArgs depth args = .ok simplified) ↔
      ∀ a ∈ args, ∃ s, a.simplifyAt depth = .ok s := by
  rw [simplifyArgs_eq_mapM, Except.exists_mapM_eq_ok_iff]

/-- An operand is simplified if it is absent or simplified. -/
theorem exists_simplifyOperand_iff {operand : Option (Expression K)} :
    (∃ simplified, simplifyOperand depth operand = .ok simplified) ↔
      ∀ a ∈ operand, ∃ s, a.simplifyAt depth = .ok s := by
  cases operand with
  | none => simp [simplifyOperand]
  | some a =>
    simp only [simplifyOperand_some_eq_ok_iff, Option.mem_some_iff, forall_eq']
    constructor
    · rintro ⟨_, s, hs, -⟩
      exact ⟨s, hs⟩
    · rintro ⟨s, hs⟩
      exact ⟨some s, s, hs, rfl⟩

/-- Exactly what does not reach below the depth limit is simplified. -/
theorem exists_simplifyAt_iff {e : Expression K} :
    (∃ s, e.simplifyAt depth = .ok s) ↔ depth + e.height ≤ depthLimit := by
  induction e generalizing depth with
  | value p =>
    constructor
    · rintro ⟨s, hs⟩
      exact le_of_simplifyAt hs
    · intro h
      exact ⟨value p, simplifyAt_value h p⟩
  | call f args ih =>
    have hargs : (∃ ss, simplifyArgs (depth + 1) args = .ok ss) ↔
        ∀ a ∈ args, depth + 1 + a.height ≤ depthLimit := by
      rw [exists_simplifyArgs_iff]
      exact forall₂_congr fun a ha => ih a ha
    rw [add_height_call_le_iff, ← hargs]
    constructor
    · rintro ⟨s, hs⟩
      have hdepth := le_of_simplifyAt hs
      obtain ⟨ss, hss, -⟩ := (simplifyAt_call_eq_ok_iff hdepth).1 hs
      exact ⟨hdepth, ss, hss⟩
    · rintro ⟨hdepth, ss, hss⟩
      exact ⟨call f ss, (simplifyAt_call_eq_ok_iff hdepth).2 ⟨ss, hss, rfl⟩⟩
  | operation op left right ihleft ihright =>
    have hoperand {operand : Option (Expression K)}
        (ih : ∀ a ∈ operand, ∀ {depth}, (∃ s, a.simplifyAt depth = .ok s) ↔
          depth + a.height ≤ depthLimit) :
        (∃ o, simplifyOperand (depth + 1) operand = .ok o) ↔
          ∀ a ∈ operand, depth + 1 + a.height ≤ depthLimit := by
      rw [exists_simplifyOperand_iff]
      exact forall₂_congr fun a ha => ih a ha
    rw [add_height_operation_le_iff, ← hoperand ihleft, ← hoperand ihright]
    constructor
    · rintro ⟨s, hs⟩
      have hdepth := le_of_simplifyAt hs
      obtain ⟨l, hl, r, hr, -⟩ := (simplifyAt_operation_eq_ok_iff hdepth).1 hs
      exact ⟨hdepth, ⟨l, hl⟩, r, hr⟩
    · rintro ⟨hdepth, ⟨l, hl⟩, r, hr⟩
      exact ⟨op.combine l r, (simplifyAt_operation_eq_ok_iff hdepth).2 ⟨l, hl, r, hr, rfl⟩⟩

/-- An expression is not simplified exactly if it reaches below the depth limit. -/
theorem simplifyAt_eq_error_iff {e : Expression K} {err : EvalError K} :
    e.simplifyAt depth = .error err ↔ err = .tooDeep ∧ depthLimit < depth + e.height := by
  have hiff := @exists_simplifyAt_iff K depth _ e
  constructor
  · intro h
    refine ⟨eq_tooDeep_of_simplifyAt h, Nat.lt_of_not_le fun hle => ?_⟩
    obtain ⟨s, hs⟩ := hiff.2 hle
    rw [h] at hs
    cases hs
  · rintro ⟨rfl, hlt⟩
    cases h : e.simplifyAt depth with
    | ok s => exact absurd (hiff.1 ⟨s, h⟩) (Nat.not_le_of_lt hlt)
    | error err => rw [eq_tooDeep_of_simplifyAt h]

/-- Two depths that leave room for an expression give it the same value. -/
theorem evaluateAt_eq_evaluateAt {e : Expression K} {depth' : Nat}
    (h : depth + e.height ≤ depthLimit) (h' : depth' + e.height ≤ depthLimit) :
    e.evaluateAt b depth = e.evaluateAt b depth' := by
  induction e generalizing depth depth' with
  | value p =>
    rw [height, Nat.add_zero] at h h'
    rw [evaluateAt_value h, evaluateAt_value h']
  | call f args ih =>
    obtain ⟨hdepth, hargs⟩ := add_height_call_le_iff.1 h
    obtain ⟨hdepth', hargs'⟩ := add_height_call_le_iff.1 h'
    have hsame : args.mapM (evaluateAt b (depth + 1)) = args.mapM (evaluateAt b (depth' + 1)) :=
      Except.mapM_eq_mapM (List.forall₂_same.2 fun a ha => ih a ha (hargs a ha) (hargs' a ha))
    rw [evaluateAt, evaluateAt, if_neg (Nat.not_lt.2 hdepth), if_neg (Nat.not_lt.2 hdepth'),
      evaluateArgs_eq_mapM, evaluateArgs_eq_mapM, hsame]
  | operation op left right ihleft ihright =>
    obtain ⟨hdepth, hleft, hright⟩ := add_height_operation_le_iff.1 h
    obtain ⟨hdepth', hleft', hright'⟩ := add_height_operation_le_iff.1 h'
    have hoperand {operand : Option (Expression K)}
        (hsame : ∀ a ∈ operand, a.evaluateAt b (depth + 1) = a.evaluateAt b (depth' + 1)) :
        evaluateOperand b (depth + 1) operand = evaluateOperand b (depth' + 1) operand := by
      cases operand with
      | none => rfl
      | some a => exact hsame a rfl
    rw [evaluateAt, evaluateAt, if_neg (Nat.not_lt.2 hdepth), if_neg (Nat.not_lt.2 hdepth'),
      hoperand fun a ha => ihleft a ha (hleft a ha) (hleft' a ha),
      hoperand fun a ha => ihright a ha (hright a ha) (hright' a ha)]

/-- The expression that an operand is; an absent one counts as the zero polynomial. -/
def ofOperand (operand : Option (Expression K)) : Expression K :=
  operand.getD (value .zero)

/-- A call that the depth limit leaves room for has the value of the function at the values of the
arguments. -/
theorem evaluate_call {f : NamedFunction} {args : List (Expression K)}
    (h : (call f args).height ≤ depthLimit) :
    (call f args).evaluate b = args.mapM (evaluate b) >>= f.apply := by
  rw [← Nat.zero_add (height _)] at h
  obtain ⟨-, hargs⟩ := add_height_call_le_iff.1 h
  have hsame : args.mapM (evaluateAt b (0 + 1)) = args.mapM (evaluate b) := by
    refine Except.mapM_eq_mapM (List.forall₂_same.2 fun a ha => ?_)
    have hroom := hargs a ha
    exact evaluateAt_eq_evaluateAt hroom (by omega)
  rw [evaluate, evaluateAt, if_neg (Nat.not_lt_zero _), evaluateArgs_eq_mapM, hsame]

/-- An operation that the depth limit leaves room for has the value of the operator at the values
of the operands. -/
theorem evaluate_operation {op : Operator} {left right : Option (Expression K)}
    (h : (operation op left right).height ≤ depthLimit) :
    (operation op left right).evaluate b = (ofOperand left).evaluate b >>= fun x =>
      (ofOperand right).evaluate b >>= op.apply x := by
  rw [← Nat.zero_add (height _)] at h
  obtain ⟨-, hleft, hright⟩ := add_height_operation_le_iff.1 h
  have hoperand {operand : Option (Expression K)}
      (hroom : ∀ a ∈ operand, 0 + 1 + a.height ≤ depthLimit) :
      evaluateOperand b (0 + 1) operand = (ofOperand operand).evaluate b := by
    cases operand with
    | none => rfl
    | some a =>
      have hroom' := hroom a rfl
      exact evaluateAt_eq_evaluateAt hroom' (by omega)
  rw [evaluate, evaluateAt, if_neg (Nat.not_lt_zero _), hoperand hleft, hoperand hright]

/-- What a call is simplified to has the simplified arguments, and there is room for it. -/
theorem exists_of_simplify_call {f : NamedFunction} {args : List (Expression K)}
    {s : Expression K} (h : (call f args).simplify = .ok s) :
    ∃ ss, List.Forall₂ (fun a t => a.simplify = .ok t) args ss ∧ s = call f ss ∧
      (call f ss).height ≤ depthLimit := by
  have hroom := exists_simplifyAt_iff.1 ⟨s, simplifyAt_simplified h⟩
  obtain ⟨ss, hss, rfl⟩ := (simplifyAt_call_eq_ok_iff (Nat.zero_le _)).1 h
  rw [Nat.zero_add] at hroom
  refine ⟨ss, ?_, rfl, hroom⟩
  exact (simplifyArgs_eq_ok_iff.1 hss).imp fun a t ht => simplifyAt_of_le ht (Nat.zero_le _)

/-- What an operation is simplified to combines the simplified operands, and there is room for the
operation on them. -/
theorem exists_of_simplify_operation {op : Operator} {left right : Option (Expression K)}
    {s : Expression K} (h : (operation op left right).simplify = .ok s) :
    ∃ l r, Option.Rel (fun a t => a.simplify = .ok t) left l ∧
      Option.Rel (fun a t => a.simplify = .ok t) right r ∧ s = op.combine l r ∧
      (operation op l r).height ≤ depthLimit := by
  have hoperand {operand simplified : Option (Expression K)}
      (ho : simplifyOperand (0 + 1) operand = .ok simplified) :
      Option.Rel (fun a t => a.simplify = .ok t) operand simplified ∧
        ∀ t ∈ simplified, 0 + 1 + t.height ≤ depthLimit := by
    cases operand with
    | none =>
      obtain rfl := Except.ok.inj ho
      exact ⟨.none, nofun⟩
    | some a =>
      obtain ⟨t, ht, rfl⟩ := simplifyOperand_some_eq_ok_iff.1 ho
      refine ⟨.some (simplifyAt_of_le ht (Nat.zero_le _)), ?_⟩
      rintro _ ⟨⟩
      exact exists_simplifyAt_iff.1 ⟨t, simplifyAt_simplified ht⟩
  obtain ⟨l, hl, r, hr, rfl⟩ := (simplifyAt_operation_eq_ok_iff (Nat.zero_le _)).1 h
  obtain ⟨hleft, hroomLeft⟩ := hoperand hl
  obtain ⟨hright, hroomRight⟩ := hoperand hr
  have hroom : 0 + (operation op l r).height ≤ depthLimit :=
    add_height_operation_le_iff.2 ⟨Nat.zero_le depthLimit, hroomLeft, hroomRight⟩
  rw [Nat.zero_add] at hroom
  exact ⟨l, r, hleft, hright, rfl, hroom⟩

end Calculator.Expression
