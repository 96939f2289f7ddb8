import Calculator.Proofs.Syntax.Phrase

/-!
# Operators of derived texts

Which operators a derived text shows outside parentheses is decided by its nonterminal, and the
other way round: an expression that shows only tighter operators is derived from something tighter.
-/

namespace Calculator

/-- The operators that a text of the nonterminal may show outside parentheses. -/
def Nonterminal.Admits : Nonterminal → Operator → Prop
  | atom, _ => False
  | chain level, op => level.precedence ≤ op.precedence
  | operand level, op => level.precedence < op.precedence

/-- The first operand of a chain admits only tighter operators. -/
theorem Level.lt_of_admits_tighter {level : Level} {op : Operator}
    (h : level.tighter.Admits op) : level.precedence < op.precedence := by
  cases level with
  | residue => exact h.elim
  | sum => exact h
  | product => exact h
  | power =>
    have hle : 4 ≤ op.precedence := h
    exact Nat.lt_of_lt_of_le (by decide) hle

/-- The first operand of a chain is no operand that may be negated. -/
theorem Level.tighter_ne_operand (level level' : Level) : level.tighter ≠ .operand level' := by
  cases level <;> simp [Level.tighter]

/-- Plain characters show no operators. -/
theorem operatorsIn_of_isPlain {cs : List Char} (h : ∀ c ∈ cs, isPlain c = true)
    (previous : Option Char) : operatorsIn previous cs = [] := by
  refine operatorsIn_eq_nil (fun c hc => ?_) previous
  obtain ⟨hopen, hclose, _, hsymbol⟩ := isPlain_iff.1 (h c hc)
  exact ⟨hopen, hclose, hsymbol⟩

/-- A call shows no operators. -/
theorem NamedFunction.operatorsIn_call (f : NamedFunction) (previous : Option Char)
    {inside : List Char} (h : Balanced inside) :
    operatorsIn previous (f.name.toList ++ '(' :: (inside ++ [')'])) = [] := by
  rw [f.phrase_name.balanced.operatorsIn_append f.phrase_name.ne_nil,
    operatorsIn_of_isPlain f.isPlain_of_mem_name, h.operatorsIn_group]
  rfl

/-- An operator after a phrase is shown, since it has a left operand. -/
theorem Phrase.operatorsIn_append_symbol {cs : List Char} (h : Phrase cs) (op : Operator)
    (previous : Option Char) (ds : List Char) :
    operatorsIn previous (cs ++ op.symbol :: ds) =
      operatorsIn previous cs ++ op :: operatorsIn (some op.symbol) ds := by
  rw [h.balanced.operatorsIn_append h.ne_nil, operatorsIn_symbol,
    if_pos (accepts_of_endsOperand h.ends op)]
  rfl

/-- An operator after a character that ends no operand is not shown. -/
theorem operatorsIn_symbol_of_endsOperand {c : Char} (h : endsOperand (some c) = false)
    (op : Operator) (cs : List Char) :
    operatorsIn (some c) (op.symbol :: cs) = operatorsIn (some op.symbol) cs := by
  rw [operatorsIn_symbol, accepts_some_eq_false h]
  rfl

/-- A minus sign at the start is an operator. -/
theorem sub_mem_operatorsIn (cs : List Char) : Operator.sub ∈ operatorsIn none ('-' :: cs) := by
  have hshown := operatorsIn_symbol .sub none cs
  exact hshown ▸ by simp [accepts_none, Operator.needsLeft]

namespace Leaf

variable {unknowns : List Char} {cs : List Char} {e : Expression Float}

/-- The text of a leaf is made of plain characters, which a plus sign may stand before. -/
theorem isPlain_or_eq (hunknowns : ∀ c ∈ unknowns, isUnknownSymbol c = true)
    (h : Leaf unknowns cs e) :
    ∃ ds, (cs = ds ∨ cs = '+' :: ds) ∧ ds ≠ [] ∧ ∀ c ∈ ds, isPlain c = true := by
  cases h with
  | pi =>
    have hall : ['p', 'i'].all isPlain = true := by decide
    exact ⟨_, .inl rfl, by simp, List.all_eq_true.1 hall⟩
  | euler =>
    have hall : ['e'].all isPlain = true := by decide
    exact ⟨_, .inl rfl, by simp, List.all_eq_true.1 hall⟩
  | @unknown c hc =>
    have hplain := isPlain_of_isUnknownSymbol (hunknowns c hc)
    exact ⟨_, .inl rfl, by simp, by simpa using hplain⟩
  | literal h =>
    cases h with
    | plain h =>
      exact ⟨_, .inl rfl, h.ne_nil, fun c hc => isPlain_of_isDigit (h.isDigit_or_eq c hc)⟩
    | plus h =>
      exact ⟨_, .inr rfl, h.ne_nil, fun c hc => isPlain_of_isDigit (h.isDigit_or_eq c hc)⟩

/-- The text of a leaf is a phrase. -/
theorem phrase (hunknowns : ∀ c ∈ unknowns, isUnknownSymbol c = true) (h : Leaf unknowns cs e) :
    Phrase cs := by
  obtain ⟨ds, hcs, hne, hplain⟩ := h.isPlain_or_eq hunknowns
  have hds := Phrase.of_isPlain hne hplain
  rcases hcs with rfl | rfl
  · exact hds
  · exact hds.symbol_cons .add

/-- The text of a leaf shows no operators: a plus sign before a number has no left operand. -/
theorem operatorsIn_eq_nil (hunknowns : ∀ c ∈ unknowns, isUnknownSymbol c = true)
    (h : Leaf unknowns cs e) {previous : Option Char} (hprevious : endsOperand previous = false) :
    operatorsIn previous cs = [] := by
  obtain ⟨ds, hcs, -, hplain⟩ := h.isPlain_or_eq hunknowns
  rcases hcs with rfl | rfl
  · exact operatorsIn_of_isPlain hplain previous
  · have hrefused : accepts previous .add = false := by
      simp [accepts, hprevious, Operator.needsLeft]
    have hsymbol := operatorsIn_symbol .add previous ds
    rwa [hrefused, operatorsIn_of_isPlain hplain] at hsymbol

end Leaf

namespace Derives

variable {unknowns : List Char} {n : Nonterminal} {cs : List Char} {e : Expression Float}

/-- Every derived text is a phrase. -/
theorem phrase (hunknowns : ∀ c ∈ unknowns, isUnknownSymbol c = true)
    (h : Derives unknowns n cs e) : Phrase cs := by
  induction h with
  | leaf h => exact h.phrase hunknowns
  | group _ ih => exact .parenthesized ih.balanced
  | @call f args _ _ ih =>
    have hargs := Balanced.intercalate_args fun arg harg => (ih arg harg).balanced
    exact f.phrase_name.append (.parenthesized hargs)
  | tighter _ ih => exact ih
  | negation _ ih => exact ih.symbol_cons .sub
  | binary _ _ _ ihleft ihright => exact ihleft.append (ihright.symbol_cons _)
  | factorial _ ih => exact ih.append (.singleton (by decide) (by decide) (by decide) rfl)
  | plain _ ih => exact ih
  | negated _ ih => exact ih.symbol_cons .sub

/-- After a character that ends no operand, a derived text shows only operators that its
nonterminal admits. A negated operand does so only after an operator, not at the start. -/
theorem admits (hunknowns : ∀ c ∈ unknowns, isUnknownSymbol c = true)
    (h : Derives unknowns n cs e) (previous : Option Char)
    (hprevious : endsOperand previous = false)
    (hstart : previous = none → ∀ level, n ≠ .operand level) :
    ∀ op ∈ operatorsIn previous cs, n.Admits op := by
  induction h generalizing previous with
  | leaf h => simp [h.operatorsIn_eq_nil hunknowns hprevious]
  | group h _ =>
    rw [(h.phrase hunknowns).balanced.operatorsIn_group]
    simp [operatorsIn, markOperators]
  | @call f args _ h _ =>
    have hargs := Balanced.intercalate_args fun arg harg => ((h arg harg).phrase hunknowns).balanced
    simp [f.operatorsIn_call previous hargs]
  | @tighter level _ _ _ ih =>
    intro op hop
    have hadmits := ih previous hprevious (fun _ => level.tighter_ne_operand) op hop
    exact Nat.le_of_lt (Level.lt_of_admits_tighter hadmits)
  | negation =>
    intro op _
    exact Nat.zero_le _
  | @binary op cs ds left right hop hleft _ ihleft ihright =>
    have hends : endsOperand (some op.symbol) = false := by
      rw [Operator.endsOperand_symbol, Operator.isPostfix, hop]
      rfl
    rw [(hleft.phrase hunknowns).operatorsIn_append_symbol]
    intro op' hop'
    rcases List.mem_append.1 hop' with hop' | hop'
    · exact ihleft previous hprevious (by simp) op' hop'
    · rcases List.mem_cons.1 hop' with rfl | hop'
      · exact Nat.le_of_eq op'.precedence_level
      · have hlt : op.level.precedence < op'.precedence := ihright _ hends (by simp) op' hop'
        exact Nat.le_of_lt hlt
  | factorial h ih =>
    have hshown := (h.phrase hunknowns).operatorsIn_append_symbol .factorial previous []
    intro op hop
    rcases List.mem_append.1 (hshown ▸ hop) with hop | hop
    · exact ih previous hprevious (by simp) op hop
    · obtain rfl : op = .factorial := by simpa [operatorsIn, markOperators] using hop
      exact Nat.le_refl 4
  | @plain level _ _ _ ih =>
    intro op hop
    exact Level.lt_of_admits_tighter
      (ih previous hprevious (fun _ => level.tighter_ne_operand) op hop)
  | @negated level cs e _ ih =>
    cases previous with
    | none => exact absurd rfl (hstart rfl level)
    | some c =>
      have hhidden := operatorsIn_symbol_of_endsOperand hprevious .sub cs
      intro op hop
      exact ih (some '-') rfl (by simp) op (hhidden ▸ hop)

/-- An operator joins two operands where it is shown, whatever stands before them. -/
theorem mem_operatorsIn_append (hunknowns : ∀ c ∈ unknowns, isUnknownSymbol c = true)
    (h : Derives unknowns n cs e) (op : Operator) (previous : Option Char) (ds : List Char) :
    op ∈ operatorsIn previous (cs ++ op.symbol :: ds) := by
  rw [(h.phrase hunknowns).operatorsIn_append_symbol]
  simp

/-- A chain whose operators are tighter than a level may start a chain of that level. -/
theorem tighter_of_operator (op : Operator) (h : Derives unknowns (.chain op.level) cs e)
    {level : Level} (hlt : level.precedence < op.precedence) :
    Derives unknowns level.tighter cs e := by
  refine h.tighter_of_chain ?_
  rwa [op.precedence_level]

/-- At the start, what shows only tighter operators can be the first operand of a chain. -/
theorem tighter_of_lt (hunknowns : ∀ c ∈ unknowns, isUnknownSymbol c = true)
    (h : Derives unknowns n cs e) {level : Level}
    (hlt : ∀ op ∈ operatorsIn none cs, level.precedence < op.precedence) :
    Derives unknowns level.tighter cs e := by
  induction h with
  | leaf h => exact (leaf h).tighter_of_atom level
  | group h => exact (group h).tighter_of_atom level
  | call hne h => exact (call hne h).tighter_of_atom level
  | tighter _ ih => exact ih hlt
  | plain _ ih => exact ih hlt
  | negation => exact absurd (hlt _ (sub_mem_operatorsIn _)) (Nat.not_lt_zero _)
  | negated => exact absurd (hlt _ (sub_mem_operatorsIn _)) (Nat.not_lt_zero _)
  | binary hop hleft hright =>
    have hshown := hleft.mem_operatorsIn_append hunknowns
    exact (binary hop hleft hright).tighter_of_operator _ (hlt _ (hshown _ _ _))
  | factorial h =>
    have hshown := h.mem_operatorsIn_append hunknowns .factorial
    exact (factorial h).tighter_of_operator .factorial (hlt _ (hshown _ _))

/-- After a character that ends no operand, what shows only tighter operators can be a later
operand of a chain. -/
theorem operand_of_lt (hunknowns : ∀ c ∈ unknowns, isUnknownSymbol c = true)
    (h : Derives unknowns n cs e) {level : Level} {c : Char} (hc : endsOperand (some c) = false)
    (hlt : ∀ op ∈ operatorsIn (some c) cs, level.precedence < op.precedence) :
    Derives unknowns (.operand level) cs e := by
  have hminus (ds : List Char) : operatorsIn (some c) ('-' :: ds) = operatorsIn (some '-') ds :=
    operatorsIn_symbol_of_endsOperand hc .sub ds
  induction h generalizing c with
  | leaf h => exact .plain ((leaf h).tighter_of_atom level)
  | group h => exact .plain ((group h).tighter_of_atom level)
  | call hne h => exact .plain ((call hne h).tighter_of_atom level)
  | tighter _ ih => exact ih hc hlt hminus
  | plain _ ih => exact ih hc hlt hminus
  | negation _ ih =>
    rw [hminus] at hlt
    exact .negated (ih (c := '-') rfl hlt (operatorsIn_symbol_of_endsOperand rfl .sub))
  | negated _ ih =>
    rw [hminus] at hlt
    exact .negated (ih (c := '-') rfl hlt (operatorsIn_symbol_of_endsOperand rfl .sub))
  | binary hop hleft hright =>
    have hshown := hleft.mem_operatorsIn_append hunknowns
    exact .plain ((binary hop hleft hright).tighter_of_operator _ (hlt _ (hshown _ _ _)))
  | factorial h =>
    have hshown := h.mem_operatorsIn_append hunknowns .factorial
    exact .plain ((factorial h).tighter_of_operator .factorial (hlt _ (hshown _ _)))

end Derives

end Calculator
