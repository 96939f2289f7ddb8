import Calculator.Syntax.Chain
import Calculator.Proofs.Syntax.Balance

/-!
# Operators outside parentheses

A scan marks the operators that may split a text. This file says what it marks in texts that are
put together from smaller ones, and what the split at the operators of one precedence makes of a
text: the operands keep their characters, and no operator of that precedence is left in them.
-/

namespace Calculator

namespace Operator

/-- The symbol of an operator stands for it. -/
@[simp] theorem ofSymbol?_symbol (op : Operator) : ofSymbol? op.symbol = some op := by
  cases op <;> rfl

/-- A character stands for an operator only if it is the symbol of that operator. -/
theorem ofSymbol?_eq_some_iff {c : Char} {op : Operator} :
    ofSymbol? c = some op ↔ c = op.symbol := by
  constructor
  · intro h
    have hfound := List.find?_some h
    exact (eq_of_beq hfound).symm
  · rintro rfl
    exact ofSymbol?_symbol op

/-- No operator is written as a parenthesis. -/
theorem symbol_ne_parenthesis (op : Operator) : op.symbol ≠ '(' ∧ op.symbol ≠ ')' := by
  cases op <;> decide

/-- An operand may end with an operator only if the operator stands after its operand. -/
theorem endsOperand_symbol (op : Operator) :
    endsOperand (some op.symbol) = op.isPostfix := by
  rw [endsOperand, ofSymbol?_symbol]

/-- Only the minus sign does without a left operand. -/
theorem eq_sub_of_needsLeft {op : Operator} (h : op.needsLeft = false) : op = sub := by
  cases op <;> simp_all [needsLeft]

/-- Only the factorial does without a right operand. -/
theorem eq_factorial_of_needsRight {op : Operator} (h : op.needsRight = false) :
    op = factorial := by
  cases op <;> simp_all [needsRight]

end Operator

/-- The operators that the scan marks in a text outside parentheses. -/
def operatorsIn (previous : Option Char) (cs : List Char) : List Operator :=
  (markOperators previous 0 cs).filterMap (·.2)

/-- The scan marks the characters of the text, in order. -/
@[simp] theorem markOperators_map_fst (previous : Option Char) (depth : Nat) (cs : List Char) :
    (markOperators previous depth cs).map (·.1) = cs := by
  induction cs generalizing previous depth with
  | nil => rfl
  | cons c cs ih => rw [markOperators, List.map_cons, ih]

/-- The scan of a text goes on in what follows it. -/
theorem markOperators_append (previous : Option Char) (depth : Nat) (cs ds : List Char) :
    markOperators previous depth (cs ++ ds) =
      markOperators previous depth cs ++
        markOperators (cs.getLast?.or previous) (cs.foldl nestingAfter depth) ds := by
  induction cs generalizing previous depth with
  | nil => rfl
  | cons c cs ih =>
    rw [List.cons_append, markOperators, markOperators, ih, List.getLast?_cons,
      List.foldl_cons, Option.or_some]
    rfl

/-- Inside parentheses nothing is marked. -/
theorem Balanced.filterMap_markOperators {cs : List Char} (h : Balanced cs)
    (previous : Option Char) (depth : Nat) :
    (markOperators previous (depth + 1) cs).filterMap (·.2) = [] := by
  induction h generalizing previous depth with
  | nil => rfl
  | char hopen hclose _ ih =>
    rw [markOperators, nestingAfter_of_ne hopen hclose]
    simpa using ih _ depth
  | @group inside after hinside _ ihinside ihafter =>
    have hopening : nestingAfter (depth + 1) '(' = depth + 2 := rfl
    have hclosing : nestingAfter (depth + 2) ')' = depth + 1 := rfl
    rw [markOperators, hopening, markOperators_append, hinside.foldl_nestingAfter, markOperators,
      hclosing]
    simpa [ihinside] using ihafter _ depth

/-- The operators of a balanced text and of what follows it. -/
theorem Balanced.operatorsIn_append {cs : List Char} (h : Balanced cs) (hcs : cs ≠ [])
    (previous : Option Char) (ds : List Char) :
    operatorsIn previous (cs ++ ds) = operatorsIn previous cs ++ operatorsIn cs.getLast? ds := by
  have hlast : cs.getLast?.or previous = cs.getLast? := by
    rw [List.getLast?_eq_some_getLast hcs]
    rfl
  rw [operatorsIn, markOperators_append, h.foldl_nestingAfter, hlast, List.filterMap_append]
  rfl

/-- A group at the start shows no operators. -/
theorem Balanced.operatorsIn_group {inside : List Char} (h : Balanced inside)
    (previous : Option Char) (after : List Char) :
    operatorsIn previous ('(' :: (inside ++ ')' :: after)) = operatorsIn (some ')') after := by
  have hopening : nestingAfter 0 '(' = 0 + 1 := rfl
  have hclosing : nestingAfter (0 + 1) ')' = 0 := rfl
  have hsymbol : Operator.ofSymbol? '(' = none := rfl
  rw [operatorsIn, markOperators, hopening, hsymbol, markOperators_append, h.foldl_nestingAfter,
    markOperators, hclosing]
  simp [h.filterMap_markOperators, operatorsIn]

/-- A character at the start that is no parenthesis shows the operator that it stands for, if
that is accepted there. -/
theorem operatorsIn_cons {c : Char} (hopen : c ≠ '(') (hclose : c ≠ ')')
    (previous : Option Char) (cs : List Char) :
    operatorsIn previous (c :: cs) =
      ((Operator.ofSymbol? c).filter (accepts previous)).toList ++ operatorsIn (some c) cs := by
  rw [operatorsIn, markOperators, nestingAfter_of_ne hopen hclose, if_pos rfl]
  cases (Operator.ofSymbol? c).filter (accepts previous) <;> rfl

/-- A text without operator symbols and without parentheses shows no operators. -/
theorem operatorsIn_eq_nil {cs : List Char}
    (h : ∀ c ∈ cs, c ≠ '(' ∧ c ≠ ')' ∧ Operator.ofSymbol? c = none) (previous : Option Char) :
    operatorsIn previous cs = [] := by
  induction cs generalizing previous with
  | nil => rfl
  | cons c cs ih =>
    obtain ⟨hopen, hclose, hsymbol⟩ := h c (by simp)
    rw [operatorsIn_cons hopen hclose, hsymbol, ih fun d hd => h d (by simp [hd])]
    rfl

/-- An operator symbol at the start shows its operator if it is accepted there. -/
theorem operatorsIn_symbol (op : Operator) (previous : Option Char) (cs : List Char) :
    operatorsIn previous (op.symbol :: cs) =
      (if accepts previous op then [op] else []) ++ operatorsIn (some op.symbol) cs := by
  have hne := op.symbol_ne_parenthesis
  rw [operatorsIn_cons hne.1 hne.2, Operator.ofSymbol?_symbol]
  cases h : accepts previous op <;> simp [Option.filter, h]

/-- After the end of an operand every operator is accepted. -/
theorem accepts_of_endsOperand {previous : Option Char} (h : endsOperand previous = true)
    (op : Operator) : accepts previous op = true := by
  rw [accepts, h, Bool.true_or]

/-- After a character that ends no operand no operator is accepted. -/
theorem accepts_some_eq_false {c : Char} (h : endsOperand (some c) = false) (op : Operator) :
    accepts (some c) op = false := by
  rw [accepts, h]
  simp

/-- At the start only the minus sign is accepted. -/
theorem accepts_none (op : Operator) : accepts none op = !op.needsLeft := by
  cases op <;> rfl

/-- The lowest precedence is that of a marked operator, and no marked operator is below it. -/
theorem lowestPrecedence?_eq_some_iff {previous : Option Char} {cs : List Char}
    {precedence : Nat} :
    lowestPrecedence? (markOperators previous 0 cs) = some precedence ↔
      (∃ op ∈ operatorsIn previous cs, op.precedence = precedence) ∧
        ∀ op ∈ operatorsIn previous cs, precedence ≤ op.precedence := by
  rw [lowestPrecedence?, List.min?_eq_some_iff, ← operatorsIn]
  simp

/-- A text without operators has no lowest precedence. -/
theorem lowestPrecedence?_eq_none_iff {previous : Option Char} {cs : List Char} :
    lowestPrecedence? (markOperators previous 0 cs) = none ↔ operatorsIn previous cs = [] := by
  rw [lowestPrecedence?, List.min?_eq_none_iff, ← operatorsIn, List.map_eq_nil_iff]

/-- The characters of an operator and its right operand. -/
def Link.chars (link : Link) : List Char :=
  link.operator.symbol :: link.operand.chars

/-- The mark of a character. -/
def mark (previous : Option Char) (depth : Nat) (c : Char) : Option Operator :=
  if depth = 0 then (Operator.ofSymbol? c).filter (accepts previous) else none

/-- The first character is marked before the rest. -/
theorem markOperators_cons (previous : Option Char) (depth : Nat) (c : Char) (cs : List Char) :
    markOperators previous depth (c :: cs) =
      (c, mark previous depth c) :: markOperators (some c) (nestingAfter depth c) cs := rfl

/-- Only the symbol of an operator outside parentheses is marked. -/
theorem mark_eq_some {previous : Option Char} {depth : Nat} {c : Char} {op : Operator}
    (h : mark previous depth c = some op) : depth = 0 ∧ c = op.symbol := by
  rw [mark] at h
  split at h
  · next hdepth =>
    exact ⟨hdepth, Operator.ofSymbol?_eq_some_iff.1 (Option.filter_eq_some_iff.1 h).1⟩
  · cases h

/-- A first operand and links that make up a text. Every operator of the links has the precedence,
and every operator left in an operand binds more tightly. -/
structure Splits (precedence : Nat) (previous : Option Char) (depth : Nat) (cs first : List Char)
    (links : List Link) : Prop where
  chars : cs = first ++ links.flatMap Link.chars
  operators : ∀ op ∈ (markOperators previous depth first).filterMap (·.2),
    precedence < op.precedence
  links : ∀ link ∈ links, link.operator.precedence = precedence ∧
    ∀ op ∈ operatorsIn (some link.operator.symbol) link.operand.chars, precedence < op.precedence

section Splits

variable {precedence depth : Nat} {previous : Option Char} {cs operand : List Char}
  {links : List Link}

/-- A character that is no operator of the precedence goes to the first operand. -/
theorem Splits.keep {c : Char} (hmark : ∀ op ∈ mark previous depth c, precedence < op.precedence)
    (h : Splits precedence (some c) (nestingAfter depth c) cs operand links) :
    Splits precedence previous depth (c :: cs) (c :: operand) links where
  chars := congrArg (c :: ·) h.chars
  operators op hop := by
    rw [markOperators_cons, List.filterMap_cons] at hop
    cases hfound : mark previous depth c with
    | none =>
      simp only [hfound] at hop
      exact h.operators op hop
    | some found =>
      simp only [hfound] at hop
      rcases List.mem_cons.1 hop with rfl | hop
      · exact hmark op hfound
      · exact h.operators op hop
  links := h.links

/-- An operator of the precedence starts a link, whose operand is what was the first one. -/
theorem Splits.cut {op : Operator} (hop : op.precedence = precedence)
    (h : Splits precedence (some op.symbol) 0 cs operand links) (offset : Nat) :
    Splits precedence previous 0 (op.symbol :: cs) []
      (⟨op, offset, ⟨offset + 1, operand⟩⟩ :: links) where
  chars := congrArg (op.symbol :: ·) h.chars
  operators := by simp [markOperators]
  links link hlink := by
    rcases List.mem_cons.1 hlink with rfl | hlink
    · exact ⟨hop, h.operators⟩
    · exact h.links link hlink

/-- Splitting at the lowest precedence splits a text. -/
theorem splits_splitAtPrecedence {offset : Nat} {first : List Char}
    (hmin : ∀ op ∈ (markOperators previous depth cs).filterMap (·.2), precedence ≤ op.precedence)
    (h : splitAtPrecedence precedence offset (markOperators previous depth cs) = (first, links)) :
    Splits precedence previous depth cs first links := by
  induction cs generalizing offset previous depth first links with
  | nil =>
    obtain ⟨rfl, rfl⟩ := by simpa [markOperators, splitAtPrecedence] using h
    exact ⟨rfl, by simp [markOperators], by simp⟩
  | cons c cs ih =>
    rw [markOperators_cons] at hmin h
    rcases hrest : splitAtPrecedence precedence (offset + 1)
      (markOperators (some c) (nestingAfter depth c) cs) with ⟨operand, more⟩
    have hmin' : ∀ op ∈ (markOperators (some c) (nestingAfter depth c) cs).filterMap (·.2),
        precedence ≤ op.precedence := by
      intro op hop
      apply hmin
      simp only [List.filterMap_cons]
      split <;> simp [hop]
    have hsplits := ih hmin' hrest
    rw [splitAtPrecedence, hrest] at h
    cases hmark : mark previous depth c with
    | none =>
      simp only [hmark] at h
      obtain ⟨rfl, rfl⟩ := Prod.mk.inj h
      exact hsplits.keep (by simp [hmark])
    | some op =>
      have hle : precedence ≤ op.precedence := hmin op (by simp [hmark])
      simp only [hmark] at h
      split at h
      · next hprecedence =>
        obtain ⟨rfl, rfl⟩ := Prod.mk.inj h
        obtain ⟨rfl, rfl⟩ := mark_eq_some hmark
        have hne := op.symbol_ne_parenthesis
        rw [nestingAfter_of_ne hne.1 hne.2] at hsplits
        exact hsplits.cut hprecedence offset
      · next hprecedence =>
        obtain ⟨rfl, rfl⟩ := Prod.mk.inj h
        refine hsplits.keep fun found hfound => ?_
        obtain rfl := Option.some.inj (hmark.symm.trans hfound)
        omega

end Splits

/-- A text without operators of the precedence is not split. -/
theorem splitAtPrecedence_eq_self {precedence : Nat} (marks : List (Char × Option Operator))
    (h : ∀ op ∈ marks.filterMap (·.2), op.precedence ≠ precedence) (offset : Nat) :
    splitAtPrecedence precedence offset marks = (marks.map (·.1), []) := by
  induction marks generalizing offset with
  | nil => rfl
  | cons mark marks ih =>
    rcases mark with ⟨c, _ | op⟩
    · rw [splitAtPrecedence, ih (by simpa using h)]
      rfl
    · have hop : op.precedence ≠ precedence := h op (by simp)
      rw [splitAtPrecedence, ih fun op' hop' => h op' (by simp [hop'])]
      simp [hop]

/-- A last operator of the precedence, with an operand that has none, is the last link. -/
theorem splitAtPrecedence_append {precedence : Nat} {op : Operator}
    (hop : op.precedence = precedence) {operand : List (Char × Option Operator)}
    (h : ∀ op' ∈ operand.filterMap (·.2), op'.precedence ≠ precedence) (offset : Nat) (c : Char)
    (marks : List (Char × Option Operator)) :
    splitAtPrecedence precedence offset (marks ++ (c, some op) :: operand) =
      ((splitAtPrecedence precedence offset marks).1,
        (splitAtPrecedence precedence offset marks).2 ++
          [⟨op, offset + marks.length, ⟨offset + marks.length + 1, operand.map (·.1)⟩⟩]) := by
  induction marks generalizing offset with
  | nil =>
    have hoperand := splitAtPrecedence_eq_self operand h (offset + 1)
    simp [splitAtPrecedence, hoperand, hop]
  | cons mark marks ih =>
    have hoffset : offset + 1 + marks.length = offset + (marks.length + 1) := by omega
    rcases mark with ⟨d, _ | op'⟩
    · rw [List.cons_append, splitAtPrecedence, ih, splitAtPrecedence]
      simp [hoffset]
    · rw [List.cons_append, splitAtPrecedence, ih, splitAtPrecedence]
      by_cases hop' : op'.precedence = precedence <;> simp [hop', hoffset]

end Calculator
