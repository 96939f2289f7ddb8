import Calculator.Proofs.Expression.Induction

/-!
# Unknowns of expressions

An unknown is listed for an expression if it stands in one of the polynomials of the expression.
-/

namespace Calculator.Expression

variable {K : Type} {c : Char}

/-- A list into which a symbol is put has that symbol and the ones that it had. -/
theorem mem_insertSymbol {d : Char} {symbols : List Char} :
    c ∈ insertSymbol d symbols ↔ c = d ∨ c ∈ symbols := by
  induction symbols with
  | nil => simp [insertSymbol]
  | cons s ss ih =>
    rw [insertSymbol]
    split
    · exact List.mem_cons
    · split
      · next heq => simp [heq]
      · rw [List.mem_cons, ih, List.mem_cons]
        exact or_left_comm

/-- The unknowns of an expression are the symbols that stand in it. -/
theorem mem_unknowns_iff {e : Expression K} : c ∈ e.unknowns ↔ c ∈ e.symbols := by
  rw [unknowns]
  induction e.symbols with
  | nil => rfl
  | cons s ss ih => rw [List.foldr_cons, mem_insertSymbol, ih, List.mem_cons]

/-- The symbols of a call are those of its arguments. -/
theorem mem_symbols_call_iff {f : NamedFunction} {args : List (Expression K)} :
    c ∈ (call f args).symbols ↔ ∃ a ∈ args, c ∈ a.symbols := by
  rw [symbols]
  induction args with
  | nil => simp [symbolsOfArgs]
  | cons a as ih => simp [symbolsOfArgs, ih]

/-- The symbols of an operation are those of its operands. -/
theorem mem_symbols_operation_iff {op : Operator} {left right : Option (Expression K)} :
    c ∈ (operation op left right).symbols ↔
      (∃ a ∈ left, c ∈ a.symbols) ∨ ∃ a ∈ right, c ∈ a.symbols := by
  have hoperand (operand : Option (Expression K)) :
      c ∈ symbolsOfOperand operand ↔ ∃ a ∈ operand, c ∈ a.symbols := by
    cases operand <;> simp [symbolsOfOperand]
  rw [symbols, List.mem_append, hoperand, hoperand]

/-- The symbols of what stands in an expression stand in it. -/
theorem mem_symbols_of_occurs {a e : Expression K} (ha : Occurs a e) (hc : c ∈ a.symbols) :
    c ∈ e.symbols := by
  induction ha with
  | here => exact hc
  | arg ha _ ih => exact mem_symbols_call_iff.2 ⟨_, ha, ih⟩
  | left _ ih => exact mem_symbols_operation_iff.2 (.inl ⟨_, rfl, ih⟩)
  | right _ ih => exact mem_symbols_operation_iff.2 (.inr ⟨_, rfl, ih⟩)

/-- A symbol of an expression stands in one of its polynomials. -/
theorem exists_of_mem_symbols {e : Expression K} (h : c ∈ e.symbols) :
    ∃ p, Occurs (value p) e ∧ c ∈ p.unknowns := by
  induction e with
  | value p => exact ⟨p, .here, h⟩
  | call f args ih =>
    obtain ⟨a, ha, hc⟩ := mem_symbols_call_iff.1 h
    obtain ⟨p, hp, hc⟩ := ih a ha hc
    exact ⟨p, .arg ha hp, hc⟩
  | operation op left right ihleft ihright =>
    obtain ⟨a, ha, hc⟩ | ⟨a, ha, hc⟩ := mem_symbols_operation_iff.1 h
    · obtain ⟨p, hp, hc⟩ := ihleft a ha hc
      exact ⟨p, .of_mem_left ha hp, hc⟩
    · obtain ⟨p, hp, hc⟩ := ihright a ha hc
      exact ⟨p, .of_mem_right ha hp, hc⟩

end Calculator.Expression
