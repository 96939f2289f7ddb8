import Calculator.Proofs.Expression.Induction

/-!
# Well-formed expressions

The expressions that can be built: operations have the operands that their operators accept, and
calls have arguments. Putting trees in place of the leaves keeps an expression well formed if the
trees are.
-/

namespace Calculator.Expression

variable {K : Type}

/-- The operands that an operator accepts are those it needs, and a right one only if it needs
one. -/
theorem operation?_eq_ok_iff {op : Operator} {left right : Option (Expression K)}
    {e : Expression K} :
    operation? op left right = .ok e ↔
      e = .operation op left right ∧ (left = none → op.needsLeft = false) ∧
        op.needsRight = right.isSome := by
  rw [operation?]
  cases hleft : op.needsLeft <;> cases hright : op.needsRight <;>
    cases left <;> cases right <;> simp [Operator.isPostfix, hright, eq_comm]

/-- Every operation of the expression has operands that its operator accepts, and every call has
an argument. -/
structure WellFormed (e : Expression K) : Prop where
  operands : ∀ op left right, Occurs (.operation op left right) e →
    operation? op left right = .ok (.operation op left right)
  arguments : ∀ f args, Occurs (.call f args) e → args ≠ []

/-- What stands in a well-formed expression is well formed. -/
theorem WellFormed.of_occurs {a e : Expression K} (h : WellFormed e)
    (ha : ∀ s, Occurs s a → Occurs s e) : WellFormed a where
  operands op left right hs := h.operands op left right (ha _ hs)
  arguments f args hs := h.arguments f args (ha _ hs)

/-- A leaf is well formed. -/
theorem wellFormed_value (p : Polynomial K K) : WellFormed (value p) := by
  constructor <;> simp

/-- A call of well-formed arguments is well formed if there are any. -/
theorem wellFormed_call {f : NamedFunction} {args : List (Expression K)} (hne : args ≠ [])
    (h : ∀ a ∈ args, WellFormed a) : WellFormed (call f args) := by
  constructor
  · intro op left right hs
    obtain heq | ⟨a, ha, hs⟩ := occurs_call_iff.1 hs
    · cases heq
    · exact (h a ha).operands op left right hs
  · intro g args' hs
    obtain heq | ⟨a, ha, hs⟩ := occurs_call_iff.1 hs
    · obtain ⟨-, rfl⟩ := call.inj heq
      exact hne
    · exact (h a ha).arguments g args' hs

/-- An operation of well-formed operands is well formed if the operator accepts them. -/
theorem wellFormed_operation {op : Operator} {left right : Option (Expression K)}
    (hop : operation? op left right = .ok (.operation op left right))
    (hleft : ∀ a ∈ left, WellFormed a) (hright : ∀ a ∈ right, WellFormed a) :
    WellFormed (operation op left right) := by
  constructor
  · intro op' left' right' hs
    obtain heq | ⟨a, ha, hs⟩ | ⟨a, ha, hs⟩ := occurs_operation_iff.1 hs
    · obtain ⟨rfl, rfl, rfl⟩ := operation.inj heq
      exact hop
    · exact (hleft a ha).operands op' left' right' hs
    · exact (hright a ha).operands op' left' right' hs
  · intro f args hs
    obtain heq | ⟨a, ha, hs⟩ | ⟨a, ha, hs⟩ := occurs_operation_iff.1 hs
    · cases heq
    · exact (hleft a ha).arguments f args hs
    · exact (hright a ha).arguments f args hs

mutual

/-- Puts a tree in place of every leaf. -/
def graft (tree : Polynomial K K → Expression K) : Expression K → Expression K
  | value p => tree p
  | call f args => call f (graftArgs tree args)
  | operation op left right => operation op (graftOperand tree left) (graftOperand tree right)

/-- Puts a tree in place of every leaf of a list of arguments. -/
def graftArgs (tree : Polynomial K K → Expression K) : List (Expression K) → List (Expression K)
  | [] => []
  | e :: es => e.graft tree :: graftArgs tree es

/-- Puts a tree in place of every leaf of an operand. -/
def graftOperand (tree : Polynomial K K → Expression K) :
    Option (Expression K) → Option (Expression K)
  | none => none
  | some e => some (e.graft tree)

end

/-- Arguments are grafted one by one. -/
theorem graftArgs_eq_map (tree : Polynomial K K → Expression K) (args : List (Expression K)) :
    graftArgs tree args = args.map (graft tree) := by
  induction args with
  | nil => rfl
  | cons e es ih => rw [graftArgs, ih, List.map_cons]

/-- An operand is grafted if it is there. -/
theorem graftOperand_eq_map (tree : Polynomial K K → Expression K)
    (operand : Option (Expression K)) : graftOperand tree operand = operand.map (graft tree) := by
  cases operand <;> rfl

/-- Leaves in place of themselves change nothing. -/
theorem graft_value (e : Expression K) : e.graft value = e := by
  induction e with
  | value p => rfl
  | call f args ih =>
    have hargs : args.map (graft value) = args.map id := List.map_congr_left ih
    rw [graft, graftArgs_eq_map, hargs, List.map_id]
  | operation op left right ihleft ihright =>
    have hoperand {operand : Option (Expression K)} (ih : ∀ e ∈ operand, e.graft value = e) :
        graftOperand value operand = operand := by
      cases operand with
      | none => rfl
      | some e => rw [graftOperand, ih e rfl]
    rw [graft, hoperand ihleft, hoperand ihright]

end Calculator.Expression
