import Mathlib.Data.List.Forall2
import Calculator.Evaluation.Expression
import Calculator.Simplification.Expression

/-!
# Induction over expressions

The induction principle of expressions with the arguments of a call and the operands of an
operation as members, the expressions that stand in another one, and evaluation, simplification
and substitution read argument by argument.
-/

namespace Calculator

/-- What `Except` binds gave a result only if both steps did. -/
theorem Except.bind_eq_ok_iff {ε α β : Type} {x : Except ε α} {f : α → Except ε β} {b : β} :
    (x >>= f) = .ok b ↔ ∃ a, x = .ok a ∧ f a = .ok b := by
  cases x with
  | error err => simp [bind, Except.bind]
  | ok a => simp [bind, Except.bind]

/-- What `Except` binds failed in the first step or in the second one. -/
theorem Except.bind_eq_error_iff {ε α β : Type} {x : Except ε α} {f : α → Except ε β} {err : ε} :
    (x >>= f) = .error err ↔ x = .error err ∨ ∃ a, x = .ok a ∧ f a = .error err := by
  cases x with
  | error err' => simp [bind, Except.bind]
  | ok a => simp [bind, Except.bind]

/-- A function that may fail is mapped over a list that it does not fail on. -/
theorem Except.mapM_eq_ok_iff {ε α β : Type} {f : α → Except ε β} {as : List α} {bs : List β} :
    as.mapM f = .ok bs ↔ List.Forall₂ (fun a b => f a = .ok b) as bs := by
  induction as generalizing bs with
  | nil => simp [pure, Except.pure, eq_comm]
  | cons a as ih =>
    rw [List.mapM_cons, List.forall₂_cons_left_iff]
    simp only [Except.bind_eq_ok_iff, ih]
    constructor
    · rintro ⟨b, hb, bs', hbs, h⟩
      exact ⟨b, bs', hb, hbs, (Except.ok.inj h).symm⟩
    · rintro ⟨b, bs', hb, hbs, rfl⟩
      exact ⟨b, hb, bs', hbs, rfl⟩

/-- Mapping a function that may fail gives a result if the function gives one everywhere. -/
theorem Except.exists_mapM_eq_ok_iff {ε α β : Type} {f : α → Except ε β} {as : List α} :
    (∃ bs, as.mapM f = .ok bs) ↔ ∀ a ∈ as, ∃ b, f a = .ok b := by
  induction as with
  | nil => simp [pure, Except.pure]
  | cons a as ih =>
    rw [List.forall_mem_cons, ← ih]
    simp only [Except.mapM_eq_ok_iff, List.forall₂_cons_left_iff]
    constructor
    · rintro ⟨_, b, bs, hb, hbs, -⟩
      exact ⟨⟨b, hb⟩, bs, hbs⟩
    · rintro ⟨⟨b, hb⟩, bs, hbs⟩
      exact ⟨b :: bs, b, bs, hb, hbs, rfl⟩

/-- Functions that agree element by element agree when they are mapped. -/
theorem Except.mapM_eq_mapM {ε α β γ : Type} {f : α → Except ε γ} {g : β → Except ε γ}
    {as : List α} {bs : List β} (h : List.Forall₂ (fun a b => f a = g b) as bs) :
    as.mapM f = bs.mapM g := by
  induction h with
  | nil => rfl
  | cons hab _ ih => rw [List.mapM_cons, List.mapM_cons, hab, ih]

/-- Where mapping fails, it fails as the function does on one of the elements. -/
theorem Except.exists_of_mapM_eq_error {ε α β : Type} {f : α → Except ε β} {as : List α} {err : ε}
    (h : as.mapM f = .error err) : ∃ a ∈ as, f a = .error err := by
  induction as with
  | nil => cases h
  | cons a as ih =>
    rw [List.mapM_cons] at h
    obtain h | ⟨b, -, h⟩ := Except.bind_eq_error_iff.1 h
    · exact ⟨a, List.mem_cons_self, h⟩
    · obtain h | ⟨bs, -, h⟩ := Except.bind_eq_error_iff.1 h
      · obtain ⟨a', ha', h⟩ := ih h
        exact ⟨a', List.mem_cons_of_mem a ha', h⟩
      · cases h

/-- Where folding fails, it fails as one of the steps does. -/
theorem Except.exists_of_foldlM_eq_error {ε α γ : Type} {f : γ → α → Except ε γ} {as : List α}
    {x : γ} {err : ε} (h : as.foldlM f x = .error err) : ∃ a ∈ as, ∃ y, f y a = .error err := by
  induction as generalizing x with
  | nil => cases h
  | cons a as ih =>
    rw [List.foldlM_cons] at h
    obtain h | ⟨y, -, h⟩ := Except.bind_eq_error_iff.1 h
    · exact ⟨a, List.mem_cons_self, x, h⟩
    · obtain ⟨a', ha', h⟩ := ih h
      exact ⟨a', List.mem_cons_of_mem a ha', h⟩

/-- Steps that agree element by element agree when they are folded. -/
theorem Except.foldlM_eq_foldlM {ε α β γ : Type} {f : γ → α → Except ε γ}
    {g : γ → β → Except ε γ} {as : List α} {bs : List β}
    (h : List.Forall₂ (fun a b => ∀ x, f x a = g x b) as bs) (x : γ) :
    as.foldlM f x = bs.foldlM g x := by
  induction h generalizing x with
  | nil => rfl
  | cons hab _ ih =>
    rw [List.foldlM_cons, List.foldlM_cons, hab]
    exact bind_congr ih

namespace Expression

variable {K : Type}

/-- What holds of every polynomial, of every call whose arguments it holds of, and of every
operation whose operands it holds of, holds of every expression. -/
@[elab_as_elim, induction_eliminator]
theorem induction {motive : Expression K → Prop} (value : ∀ p, motive (.value p))
    (call : ∀ f args, (∀ e ∈ args, motive e) → motive (.call f args))
    (operation : ∀ op left right, (∀ e ∈ left, motive e) → (∀ e ∈ right, motive e) →
      motive (.operation op left right))
    (e : Expression K) : motive e := by
  refine Expression.rec (motive_1 := motive) (motive_2 := fun args => ∀ e ∈ args, motive e)
    (motive_3 := fun operand => ∀ e ∈ operand, motive e) value call operation ?_ ?_ ?_ ?_ e
  · simp
  · intro e es he hes a ha
    rcases List.mem_cons.1 ha with rfl | ha
    · exact he
    · exact hes a ha
  · simp
  · rintro e he _ ⟨⟩
    exact he

/-- An expression stands in another one, or is that expression itself. -/
inductive Occurs (e : Expression K) : Expression K → Prop
  | here : Occurs e e
  | arg {f : NamedFunction} {args : List (Expression K)} {a : Expression K} (ha : a ∈ args)
    (h : Occurs e a) : Occurs e (.call f args)
  | left {op : Operator} {a : Expression K} {right : Option (Expression K)} (h : Occurs e a) :
    Occurs e (.operation op (some a) right)
  | right {op : Operator} {left : Option (Expression K)} {a : Expression K} (h : Occurs e a) :
    Occurs e (.operation op left (some a))

/-- Only a polynomial itself stands in it. -/
@[simp] theorem occurs_value_iff {e : Expression K} {p : Polynomial K K} :
    Occurs e (value p) ↔ e = value p := by
  constructor
  · rintro ⟨⟩
    rfl
  · rintro rfl
    exact .here

/-- What stands in a call is that call or stands in an argument. -/
@[simp] theorem occurs_call_iff {e : Expression K} {f : NamedFunction}
    {args : List (Expression K)} :
    Occurs e (call f args) ↔ e = call f args ∨ ∃ a ∈ args, Occurs e a := by
  constructor
  · intro h
    cases h with
    | here => exact .inl rfl
    | arg ha h => exact .inr ⟨_, ha, h⟩
  · rintro (rfl | ⟨a, ha, h⟩)
    · exact .here
    · exact .arg ha h

/-- What stands in an operation is that operation or stands in an operand. -/
@[simp] theorem occurs_operation_iff {e : Expression K} {op : Operator}
    {left right : Option (Expression K)} :
    Occurs e (operation op left right) ↔
      e = operation op left right ∨ (∃ a ∈ left, Occurs e a) ∨ ∃ a ∈ right, Occurs e a := by
  constructor
  · intro h
    cases h with
    | here => exact .inl rfl
    | left h => exact .inr (.inl ⟨_, rfl, h⟩)
    | right h => exact .inr (.inr ⟨_, rfl, h⟩)
  · rintro (rfl | ⟨a, rfl, h⟩ | ⟨a, rfl, h⟩)
    · exact .here
    · exact .left h
    · exact .right h

/-- What stands in the left operand stands in the operation. -/
theorem Occurs.of_mem_left {s a : Expression K} {op : Operator}
    {left right : Option (Expression K)} (ha : a ∈ left) (h : Occurs s a) :
    Occurs s (operation op left right) :=
  occurs_operation_iff.2 (.inr (.inl ⟨a, ha, h⟩))

/-- What stands in the right operand stands in the operation. -/
theorem Occurs.of_mem_right {s a : Expression K} {op : Operator}
    {left right : Option (Expression K)} (ha : a ∈ right) (h : Occurs s a) :
    Occurs s (operation op left right) :=
  occurs_operation_iff.2 (.inr (.inr ⟨a, ha, h⟩))

section Scalars

variable [Scalar K]

variable {b : Assignment K} {depth : Nat}

/-- Nothing below the depth limit has a value. -/
theorem le_of_evaluateAt {e : Expression K} {v : K} (h : e.evaluateAt b depth = .ok v) :
    depth ≤ depthLimit := by
  rw [evaluateAt.eq_def] at h
  split at h
  · cases h
  · next hle => exact Nat.le_of_not_lt hle

/-- Nothing below the depth limit is simplified. -/
theorem le_of_simplifyAt {e s : Expression K} (h : e.simplifyAt depth = .ok s) :
    depth ≤ depthLimit := by
  rw [simplifyAt.eq_def] at h
  split at h
  · cases h
  · next hle => exact Nat.le_of_not_lt hle

section Depth

variable (hdepth : depth ≤ depthLimit)

include hdepth

/-- A polynomial is evaluated at every depth that is looked at. -/
theorem evaluateAt_value (p : Polynomial K K) :
    (value p).evaluateAt b depth = p.evaluate b := by
  rw [evaluateAt, if_neg (Nat.not_lt.2 hdepth)]

/-- A call has the value of the function at the values of the arguments. -/
theorem evaluateAt_call_eq_ok_iff {f : NamedFunction} {args : List (Expression K)} {v : K} :
    (call f args).evaluateAt b depth = .ok v ↔
      ∃ xs, evaluateArgs b (depth + 1) args = .ok xs ∧ f.apply xs = .ok v := by
  rw [evaluateAt, if_neg (Nat.not_lt.2 hdepth), Except.bind_eq_ok_iff]

/-- An operation has the value of the operator at the values of the operands. -/
theorem evaluateAt_operation_eq_ok_iff {op : Operator} {left right : Option (Expression K)}
    {v : K} :
    (operation op left right).evaluateAt b depth = .ok v ↔
      ∃ x, evaluateOperand b (depth + 1) left = .ok x ∧
        ∃ y, evaluateOperand b (depth + 1) right = .ok y ∧ op.apply x y = .ok v := by
  rw [evaluateAt, if_neg (Nat.not_lt.2 hdepth)]
  simp only [Except.bind_eq_ok_iff]

/-- A polynomial is simplified to itself. -/
theorem simplifyAt_value (p : Polynomial K K) :
    (value p).simplifyAt depth = .ok (value p) := by
  rw [simplifyAt, if_neg (Nat.not_lt.2 hdepth)]

/-- A call is simplified by its arguments. -/
theorem simplifyAt_call_eq_ok_iff {f : NamedFunction} {args : List (Expression K)}
    {s : Expression K} :
    (call f args).simplifyAt depth = .ok s ↔
      ∃ simplified, simplifyArgs (depth + 1) args = .ok simplified ∧ s = call f simplified := by
  rw [simplifyAt, if_neg (Nat.not_lt.2 hdepth), Except.bind_eq_ok_iff]
  simp [eq_comm]

/-- An operation is simplified by its operands, and folded. -/
theorem simplifyAt_operation_eq_ok_iff {op : Operator} {left right : Option (Expression K)}
    {s : Expression K} :
    (operation op left right).simplifyAt depth = .ok s ↔
      ∃ l, simplifyOperand (depth + 1) left = .ok l ∧
        ∃ r, simplifyOperand (depth + 1) right = .ok r ∧ s = op.combine l r := by
  rw [simplifyAt, if_neg (Nat.not_lt.2 hdepth)]
  simp only [Except.bind_eq_ok_iff, Except.ok.injEq, @eq_comm _ s]

end Depth

/-- An operand is simplified if it is there. -/
theorem simplifyOperand_some_eq_ok_iff {e : Expression K} {operand : Option (Expression K)} :
    simplifyOperand depth (some e) = .ok operand ↔
      ∃ s, e.simplifyAt depth = .ok s ∧ operand = some s := by
  rw [simplifyOperand, Except.bind_eq_ok_iff]
  simp [eq_comm]

/-- Arguments are evaluated one by one. -/
theorem evaluateArgs_eq_mapM (args : List (Expression K)) :
    evaluateArgs b depth args = args.mapM (evaluateAt b depth) := by
  induction args with
  | nil => rfl
  | cons e es ih =>
    rw [evaluateArgs, ih, List.mapM_cons]
    rfl

/-- Arguments are simplified one by one. -/
theorem simplifyArgs_eq_mapM (args : List (Expression K)) :
    simplifyArgs depth args = args.mapM (simplifyAt depth) := by
  induction args with
  | nil => rfl
  | cons e es ih =>
    rw [simplifyArgs, ih, List.mapM_cons]
    rfl

/-- A value is put into arguments one by one. -/
theorem substituteArgs_eq_map (symbol : Char) (x : K) (args : List (Expression K)) :
    substituteArgs symbol x args = args.map (substitute symbol x) := by
  induction args with
  | nil => rfl
  | cons e es ih => rw [substituteArgs, ih, List.map_cons]

/-- A value is put into an operand if it is there. -/
theorem substituteOperand_eq_map (symbol : Char) (x : K) (operand : Option (Expression K)) :
    substituteOperand symbol x operand = operand.map (substitute symbol x) := by
  cases operand <;> rfl

/-- Arguments have values if each of them has one. -/
theorem evaluateArgs_eq_ok_iff {args : List (Expression K)} {xs : List K} :
    evaluateArgs b depth args = .ok xs ↔
      List.Forall₂ (fun e x => e.evaluateAt b depth = .ok x) args xs := by
  rw [evaluateArgs_eq_mapM, Except.mapM_eq_ok_iff]

/-- Arguments are simplified if each of them is. -/
theorem simplifyArgs_eq_ok_iff {args simplified : List (Expression K)} :
    simplifyArgs depth args = .ok simplified ↔
      List.Forall₂ (fun e s => e.simplifyAt depth = .ok s) args simplified := by
  rw [simplifyArgs_eq_mapM, Except.mapM_eq_ok_iff]

/-- Every simplified argument is what one of the arguments is simplified to. -/
theorem exists_of_simplifyArgs {args simplified : List (Expression K)}
    (h : simplifyArgs depth args = .ok simplified) :
    ∀ s ∈ simplified, ∃ a ∈ args, a.simplifyAt depth = .ok s := by
  have hall := simplifyArgs_eq_ok_iff.1 h
  clear h
  induction hall with
  | nil => exact nofun
  | @cons a s as ss hs _ ih =>
    rintro t (_ | ⟨_, ht⟩)
    · exact ⟨a, List.mem_cons_self, hs⟩
    · obtain ⟨b, hb, ht⟩ := ih t ht
      exact ⟨b, List.mem_cons_of_mem a hb, ht⟩

/-- A simplified operand is there if the operand is, and is what it is simplified to. -/
theorem exists_of_simplifyOperand {operand simplified : Option (Expression K)}
    (h : simplifyOperand depth operand = .ok simplified) :
    simplified.isSome = operand.isSome ∧
      ∀ s ∈ simplified, ∃ a ∈ operand, a.simplifyAt depth = .ok s := by
  cases operand with
  | none =>
    obtain rfl := Except.ok.inj h
    exact ⟨rfl, nofun⟩
  | some a =>
    obtain ⟨s, hs, rfl⟩ := simplifyOperand_some_eq_ok_iff.1 h
    refine ⟨rfl, ?_⟩
    rintro _ ⟨⟩
    exact ⟨a, rfl, hs⟩

/-- An argument that is not simplified is why the arguments are not. -/
theorem exists_of_simplifyArgs_error {args : List (Expression K)} {err : EvalError K}
    (h : simplifyArgs depth args = .error err) : ∃ a ∈ args, a.simplifyAt depth = .error err := by
  rw [simplifyArgs_eq_mapM] at h
  exact Except.exists_of_mapM_eq_error h

/-- An operand that is not simplified is there. -/
theorem exists_of_simplifyOperand_error {operand : Option (Expression K)} {err : EvalError K}
    (h : simplifyOperand depth operand = .error err) :
    ∃ a ∈ operand, a.simplifyAt depth = .error err := by
  cases operand with
  | none => cases h
  | some a =>
    rw [simplifyOperand] at h
    obtain h | ⟨s, -, h⟩ := Except.bind_eq_error_iff.1 h
    · exact ⟨a, rfl, h⟩
    · cases h

/-- Only what reaches below the depth limit is not simplified. -/
theorem eq_tooDeep_of_simplifyAt {e : Expression K} {err : EvalError K}
    (h : e.simplifyAt depth = .error err) : err = .tooDeep := by
  induction e generalizing depth with
  | value p =>
    rw [simplifyAt] at h
    split at h
    · exact (Except.error.inj h).symm
    · cases h
  | call f args ih =>
    rw [simplifyAt] at h
    split at h
    · exact (Except.error.inj h).symm
    · obtain h | ⟨_, -, h⟩ := Except.bind_eq_error_iff.1 h
      · obtain ⟨a, ha, h⟩ := exists_of_simplifyArgs_error h
        exact ih a ha h
      · cases h
  | operation op left right ihleft ihright =>
    rw [simplifyAt] at h
    split at h
    · exact (Except.error.inj h).symm
    · obtain h | ⟨_, -, h⟩ := Except.bind_eq_error_iff.1 h
      · obtain ⟨a, ha, h⟩ := exists_of_simplifyOperand_error h
        exact ihleft a ha h
      · obtain h | ⟨_, -, h⟩ := Except.bind_eq_error_iff.1 h
        · obtain ⟨a, ha, h⟩ := exists_of_simplifyOperand_error h
          exact ihright a ha h
        · cases h

omit [Scalar K] in
/-- The polynomial of an operand is the operand itself, or zero for an absent one. -/
theorem operandPolynomial?_eq_some_iff {operand : Option (Expression K)} {p : Polynomial K K} :
    Operator.operandPolynomial? operand = some p ↔
      operand = none ∧ p = .zero ∨ operand = some (value p) := by
  cases operand with
  | none => simp [Operator.operandPolynomial?, eq_comm]
  | some e => cases e <;> simp [Operator.operandPolynomial?, polynomial?]

/-- An operation folds into what the operator makes of the polynomials of its operands, or stays
an operation. -/
theorem combine_eq (op : Operator) (left right : Option (Expression K)) :
    (∃ p q r, Operator.operandPolynomial? left = some p ∧
      Operator.operandPolynomial? right = some q ∧ op.fold? p q = some r ∧
      op.combine left right = value r) ∨ op.combine left right = operation op left right := by
  rw [Operator.combine]
  split
  · next p q hp hq =>
    split
    · next r hr => exact .inl ⟨p, q, r, hp, hq, hr, rfl⟩
    · exact .inr rfl
  · exact .inr rfl

/-- What is simplified stays as it is. -/
theorem simplifyAt_simplified {e s : Expression K} (h : e.simplifyAt depth = .ok s) :
    s.simplifyAt depth = .ok s := by
  have hdepth := le_of_simplifyAt h
  induction e generalizing depth s with
  | value p =>
    rw [simplifyAt_value hdepth] at h
    obtain rfl := Except.ok.inj h
    exact simplifyAt_value hdepth p
  | call f args ih =>
    obtain ⟨simplified, hargs, rfl⟩ := (simplifyAt_call_eq_ok_iff hdepth).1 h
    refine (simplifyAt_call_eq_ok_iff hdepth).2 ⟨simplified, ?_, rfl⟩
    refine simplifyArgs_eq_ok_iff.2 (List.forall₂_same.2 fun s hs => ?_)
    obtain ⟨a, ha, hs⟩ := exists_of_simplifyArgs hargs s hs
    exact ih a ha hs (le_of_simplifyAt hs)
  | operation op left right ihleft ihright =>
    obtain ⟨l, hl, r, hr, rfl⟩ := (simplifyAt_operation_eq_ok_iff hdepth).1 h
    have hoperand {operand o : Option (Expression K)}
        (ih : ∀ a ∈ operand, ∀ s, a.simplifyAt (depth + 1) = .ok s →
          s.simplifyAt (depth + 1) = .ok s)
        (ho : simplifyOperand (depth + 1) operand = .ok o) :
        simplifyOperand (depth + 1) o = .ok o := by
      obtain ⟨-, hsimplified⟩ := exists_of_simplifyOperand ho
      cases o with
      | none => rfl
      | some s =>
        obtain ⟨a, ha, hs⟩ := hsimplified s rfl
        exact simplifyOperand_some_eq_ok_iff.2 ⟨s, ih a ha s hs, rfl⟩
    obtain ⟨-, -, p, -, -, -, hp⟩ | hstays := combine_eq op l r
    · rw [hp]
      exact simplifyAt_value hdepth p
    · have hleft := hoperand (fun a ha s hs => ihleft a ha hs (le_of_simplifyAt hs)) hl
      have hright := hoperand (fun a ha s hs => ihright a ha hs (le_of_simplifyAt hs)) hr
      nth_rewrite 1 [hstays]
      exact (simplifyAt_operation_eq_ok_iff hdepth).2 ⟨l, hleft, r, hright, rfl⟩

/-- What an expression is simplified to does not depend on where it stands, as long as the depth
limit leaves room for it. -/
theorem simplifyAt_of_le {e s : Expression K} {depth' : Nat} (h : e.simplifyAt depth = .ok s)
    (hle : depth' ≤ depth) : e.simplifyAt depth' = .ok s := by
  induction e generalizing depth depth' s with
  | value p =>
    have hdepth := le_of_simplifyAt h
    rw [simplifyAt_value hdepth] at h
    rwa [simplifyAt_value (Nat.le_trans hle hdepth)]
  | call f args ih =>
    have hdepth := le_of_simplifyAt h
    obtain ⟨simplified, hargs, rfl⟩ := (simplifyAt_call_eq_ok_iff hdepth).1 h
    refine (simplifyAt_call_eq_ok_iff (Nat.le_trans hle hdepth)).2 ⟨simplified, ?_, rfl⟩
    have hboth := (List.forall₂_and_left (p := (· ∈ args)) args simplified).2
      ⟨fun _ => id, simplifyArgs_eq_ok_iff.1 hargs⟩
    exact simplifyArgs_eq_ok_iff.2
      (hboth.imp fun a s hs => ih a hs.1 hs.2 (Nat.succ_le_succ hle))
  | operation op left right ihleft ihright =>
    have hdepth := le_of_simplifyAt h
    have hoperand {operand o : Option (Expression K)}
        (ih : ∀ e ∈ operand, ∀ {depth s depth'}, e.simplifyAt depth = .ok s → depth' ≤ depth →
          e.simplifyAt depth' = .ok s)
        (ho : simplifyOperand (depth + 1) operand = .ok o) :
        simplifyOperand (depth' + 1) operand = .ok o := by
      cases operand with
      | none => exact ho
      | some e =>
        obtain ⟨s, hs, rfl⟩ := simplifyOperand_some_eq_ok_iff.1 ho
        exact simplifyOperand_some_eq_ok_iff.2
          ⟨s, ih e rfl hs (Nat.succ_le_succ hle), rfl⟩
    obtain ⟨l, hl, r, hr, rfl⟩ := (simplifyAt_operation_eq_ok_iff hdepth).1 h
    exact (simplifyAt_operation_eq_ok_iff (Nat.le_trans hle hdepth)).2
      ⟨l, hoperand ihleft hl, r, hoperand ihright hr, rfl⟩

end Scalars

end Expression

end Calculator
