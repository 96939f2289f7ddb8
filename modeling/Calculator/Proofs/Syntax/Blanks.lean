import Calculator.Proofs.Syntax.Grammar
import Calculator.Proofs.Syntax.Phrase

/-!
# Blanks and derived texts

No blank is a letter, a digit or a sign of the grammar, so a derived text has no blanks in it.
-/

namespace Calculator

open Text (isBlank stripBlanks)

/-- The code points of the blank characters. -/
def Text.blankCodes : List Nat :=
  List.range' 0x9 5 ++ [0x20, 0x85, 0xA0, 0x1680] ++ List.range' 0x2000 11 ++
    [0x2028, 0x2029, 0x202F, 0x205F, 0x3000]

/-- A property of characters that fails at every blank code point fails for every blank. -/
theorem Text.eq_false_of_isBlank {f : Char → Bool}
    (hcodes : (blankCodes.all fun n => !f (Char.ofNat n)) = true) {c : Char}
    (h : isBlank c = true) : f c = false := by
  have hmem : c.toNat ∈ blankCodes := by
    simp only [isBlank, Bool.or_eq_true, Bool.and_eq_true, decide_eq_true_eq, beq_iff_eq] at h
    simp only [blankCodes, List.mem_append, List.mem_range'_1, List.mem_cons, List.not_mem_nil]
    omega
  have hcode := List.all_eq_true.1 hcodes c.toNat hmem
  rw [Char.ofNat_toNat] at hcode
  simpa using hcode

/-- A letter is no blank. -/
theorem Text.isBlank_of_isLetter {c : Char} (h : isLetter c = true) : isBlank c = false := by
  by_contra hblank
  have hletter := eq_false_of_isBlank (f := isLetter) (by decide +kernel)
    (eq_true_of_ne_false hblank)
  rw [h] at hletter
  cases hletter

/-- A digit is no blank. -/
theorem Text.isBlank_of_isDigit {c : Char} (h : c.isDigit = true) : isBlank c = false := by
  by_contra hblank
  have hdigit := eq_false_of_isBlank (f := Char.isDigit) (by decide)
    (eq_true_of_ne_false hblank)
  rw [h] at hdigit
  cases hdigit

/-- Nothing is dropped from a text without blanks. -/
theorem Text.stripBlanks_eq_self {cs : List Char} (h : ∀ c ∈ cs, isBlank c = false) :
    stripBlanks cs = cs := by
  simpa [stripBlanks, List.filter_eq_self] using h

/-- The blanks of two texts are dropped from each of them. -/
@[simp] theorem Text.stripBlanks_append (cs ds : List Char) :
    stripBlanks (cs ++ ds) = stripBlanks cs ++ stripBlanks ds :=
  List.filter_append cs ds

/-- A character that is no blank stays. -/
theorem Text.stripBlanks_cons {c : Char} (h : isBlank c = false) (cs : List Char) :
    stripBlanks (c :: cs) = c :: stripBlanks cs := by
  simp [stripBlanks, h]

/-- The blanks of texts with a separator between them are dropped from each text and from the
separator. -/
theorem Text.stripBlanks_intercalate (separator : List Char) (parts : List (List Char)) :
    stripBlanks (separator.intercalate parts) =
      (stripBlanks separator).intercalate (parts.map stripBlanks) := by
  induction parts with
  | nil => rfl
  | cons part parts ih =>
    cases parts with
    | nil => simp
    | cons next parts =>
      rw [List.intercalate_cons_cons, stripBlanks_append, stripBlanks_append, ih]
      simp only [List.map_cons, List.intercalate_cons_cons]

/-- The symbol of an operator is no blank. -/
theorem Operator.isBlank_symbol (op : Operator) : isBlank op.symbol = false := by
  cases op <;> rfl

/-- No blank stands in the name of a function. -/
theorem NamedFunction.stripBlanks_name (f : NamedFunction) :
    stripBlanks f.name.toList = f.name.toList := by
  cases f <;> rfl

/-- No blank stands in a literal. -/
theorem Literal.stripBlanks_eq {cs : List Char} {d : Decimal} (h : Literal cs d) :
    stripBlanks cs = cs := by
  have hnumeral {cs : List Char} {d : Decimal} (h : Numeral cs d) : stripBlanks cs = cs := by
    apply Text.stripBlanks_eq_self
    intro c hc
    rcases h.isDigit_or_eq c hc with hdigit | rfl
    · exact Text.isBlank_of_isDigit hdigit
    · rfl
  cases h with
  | plain h => exact hnumeral h
  | plus h => rw [Text.stripBlanks_cons (by rfl), hnumeral h]

/-- No blank stands in the text of a leaf. -/
theorem Leaf.stripBlanks_eq {unknowns : List Char}
    (hunknowns : ∀ c ∈ unknowns, isUnknownSymbol c = true) {cs : List Char} {e : Expression Float}
    (h : Leaf unknowns cs e) : stripBlanks cs = cs := by
  cases h with
  | pi => rfl
  | euler => rfl
  | @unknown c hc =>
    have hletter : Text.isLetter c = true := (Bool.and_eq_true_iff.1 (hunknowns c hc)).1
    rw [Text.stripBlanks_cons (Text.isBlank_of_isLetter hletter)]
    rfl
  | literal h => exact h.stripBlanks_eq

/-- No blank stands in a derived text. -/
theorem Derives.stripBlanks_eq {unknowns : List Char}
    (hunknowns : ∀ c ∈ unknowns, isUnknownSymbol c = true) {n : Nonterminal} {cs : List Char}
    {e : Expression Float} (h : Derives unknowns n cs e) : stripBlanks cs = cs := by
  have hopen : isBlank '(' = false := rfl
  have hclose : stripBlanks [')'] = [')'] := rfl
  have hcomma : stripBlanks [','] = [','] := rfl
  have hminus : isBlank '-' = false := rfl
  induction h with
  | leaf h => exact h.stripBlanks_eq hunknowns
  | group _ ih => rw [Text.stripBlanks_cons hopen, Text.stripBlanks_append, ih, hclose]
  | @call f args _ _ ih =>
    have hparts : (args.map (·.1)).map stripBlanks = args.map (·.1) := by
      rw [List.map_map]
      exact List.map_congr_left ih
    rw [Text.stripBlanks_append, f.stripBlanks_name, Text.stripBlanks_cons hopen,
      Text.stripBlanks_append, Text.stripBlanks_intercalate, hcomma, hparts, hclose]
  | tighter _ ih => exact ih
  | negation _ ih => rw [Text.stripBlanks_cons hminus, ih]
  | @binary op _ _ _ _ _ _ _ ihleft ihright =>
    rw [Text.stripBlanks_append, Text.stripBlanks_cons op.isBlank_symbol, ihleft, ihright]
  | factorial _ ih =>
    rw [Text.stripBlanks_append, ih]
    rfl
  | plain _ ih => exact ih
  | negated _ ih => rw [Text.stripBlanks_cons hminus, ih]

end Calculator
