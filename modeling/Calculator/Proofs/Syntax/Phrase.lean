import Calculator.Proofs.Syntax.Grammar
import Calculator.Proofs.Syntax.Marks

/-!
# The shape of derived texts

A derived text is balanced, ends an operand, and has no comma outside parentheses. Its operators
outside parentheses bind as tightly as its nonterminal asks. These facts let the parser find its
way back along the derivation.
-/

namespace Calculator

/-- A character that is neither an operator nor a parenthesis nor a comma. -/
def isPlain (c : Char) : Bool :=
  c != '(' && c != ')' && c != ',' && (Operator.ofSymbol? c).isNone

/-- A plain character is no parenthesis, no comma and no operator. -/
theorem isPlain_iff {c : Char} :
    isPlain c = true ↔ c ≠ '(' ∧ c ≠ ')' ∧ c ≠ ',' ∧ Operator.ofSymbol? c = none := by
  simp [isPlain, and_assoc]

/-- The characters that no unknown may be. -/
theorem Text.isLetter_eq_false {c : Char} (h : c ∈ "+-*/^%!(),.0123456789".toList) :
    Text.isLetter c = false := by
  have hall : ("+-*/^%!(),.0123456789".toList.all fun c => !Text.isLetter c) = true := by
    decide +kernel
  simpa using List.all_eq_true.1 hall c h

/-- A digit is no letter. -/
theorem Text.isLetter_of_isDigit {c : Char} (h : c.isDigit = true) : Text.isLetter c = false := by
  have hcode : 48 ≤ c.toNat ∧ c.toNat ≤ 57 := by
    simpa [Char.isDigit, UInt32.le_iff_toNat_le] using h
  have hall : ∀ n ∈ List.range' 48 10, Text.isLetter (Char.ofNat n) = false := by decide +kernel
  rw [← Char.ofNat_toNat c]
  exact hall c.toNat (List.mem_range'_1.2 (by omega))

/-- No letter stands in a literal. -/
theorem Literal.isLetter_eq_false {cs : List Char} {d : Decimal} (h : Literal cs d) :
    ∀ c ∈ cs, Text.isLetter c = false := by
  have hnumeral {cs : List Char} {d : Decimal} (h : Numeral cs d) :
      ∀ c ∈ cs, Text.isLetter c = false := by
    intro c hc
    rcases h.isDigit_or_eq c hc with hdigit | rfl
    · exact Text.isLetter_of_isDigit hdigit
    · exact Text.isLetter_eq_false (by decide)
  cases h with
  | plain h => exact hnumeral h
  | plus h =>
    intro c hc
    rcases List.mem_cons.1 hc with rfl | hc
    · exact Text.isLetter_eq_false (by decide)
    · exact hnumeral h c hc

/-- An unknown is a plain character. -/
theorem isPlain_of_isUnknownSymbol {c : Char} (h : isUnknownSymbol c = true) :
    isPlain c = true := by
  have hletter : Text.isLetter c = true := (Bool.and_eq_true_iff.1 h).1
  have hne (d : Char) (hd : d ∈ "+-*/^%!(),.0123456789".toList) : c ≠ d := by
    rintro rfl
    rw [Text.isLetter_eq_false hd] at hletter
    cases hletter
  refine isPlain_iff.2 ⟨hne _ (by decide), hne _ (by decide), hne _ (by decide), ?_⟩
  cases hop : Operator.ofSymbol? c with
  | none => rfl
  | some op =>
    have hsymbol := Operator.ofSymbol?_eq_some_iff.1 hop
    exact absurd hsymbol (hne _ (by cases op <;> decide))

/-- A digit or a point is a plain character. -/
theorem isPlain_of_isDigit {c : Char} (h : c.isDigit = true ∨ c = '.') : isPlain c = true := by
  have hne (d : Char) (hd : d ∈ "+-*/^%!(),".toList) : c ≠ d := by
    rintro rfl
    have hall : ("+-*/^%!(),".toList.all fun c => !(c.isDigit || c == '.')) = true := by decide
    have hc := List.all_eq_true.1 hall c hd
    rcases h with h | rfl
    · simp [h] at hc
    · simp at hc
  refine isPlain_iff.2 ⟨hne _ (by decide), hne _ (by decide), hne _ (by decide), ?_⟩
  cases hop : Operator.ofSymbol? c with
  | none => rfl
  | some op =>
    have hsymbol := Operator.ofSymbol?_eq_some_iff.1 hop
    exact absurd hsymbol (hne _ (by cases op <;> decide))

/-- The names of functions are made of plain characters. -/
theorem NamedFunction.isPlain_of_mem_name (f : NamedFunction) :
    ∀ c ∈ f.name.toList, isPlain c = true := by
  have hall : f.name.toList.all isPlain = true := by cases f <;> decide
  exact List.all_eq_true.1 hall

/-- A text that a chain or a list of arguments can be put together from. -/
structure Phrase (cs : List Char) : Prop where
  balanced : Balanced cs
  ends : endsOperand cs.getLast? = true
  commas : ∀ ds, splitCommas 0 (cs ++ ds) = (cs ++ (splitCommas 0 ds).1, (splitCommas 0 ds).2)

/-- The scan for commas passes over a balanced text inside parentheses. -/
theorem Balanced.splitCommas_append {cs : List Char} (h : Balanced cs) (depth : Nat)
    (ds : List Char) :
    splitCommas (depth + 1) (cs ++ ds) =
      (cs ++ (splitCommas (depth + 1) ds).1, (splitCommas (depth + 1) ds).2) := by
  induction h generalizing depth ds with
  | nil => rfl
  | char hopen hclose _ ih =>
    rw [List.cons_append, splitCommas, nestingAfter_of_ne hopen hclose, ih]
    simp
  | @group inside after _ _ ihinside ihafter =>
    have hopening : nestingAfter (depth + 1) '(' = depth + 1 + 1 := rfl
    have hclosing : nestingAfter (depth + 1 + 1) ')' = depth + 1 := rfl
    rw [List.cons_append, splitCommas, hopening, List.append_assoc, ihinside, List.cons_append,
      splitCommas, hclosing, ihafter]
    simp

namespace Phrase

variable {cs ds : List Char}

/-- A phrase has at least one character. -/
theorem ne_nil (h : Phrase cs) : cs ≠ [] := by
  rintro rfl
  cases h.ends

/-- Two phrases next to each other are one. -/
theorem append (hcs : Phrase cs) (hds : Phrase ds) : Phrase (cs ++ ds) where
  balanced := hcs.balanced.append hds.balanced
  ends := by
    have hlast := List.getLast?_eq_some_getLast hds.ne_nil
    rw [List.getLast?_append, hlast, Option.some_or, ← hlast]
    exact hds.ends
  commas := by
    intro rest
    rw [List.append_assoc, hcs.commas, hds.commas, List.append_assoc]

/-- A character that is no parenthesis and no comma may stand before a phrase. -/
theorem cons {c : Char} (hopen : c ≠ '(') (hclose : c ≠ ')') (hcomma : c ≠ ',') (h : Phrase cs) :
    Phrase (c :: cs) where
  balanced := .char hopen hclose h.balanced
  ends := by
    have hlast := List.getLast?_eq_some_getLast h.ne_nil
    rw [List.getLast?_cons, hlast, Option.getD_some, ← hlast]
    exact h.ends
  commas := by
    intro rest
    rw [List.cons_append, splitCommas, nestingAfter_of_ne hopen hclose, h.commas]
    simp [hcomma]

/-- A character that ends an operand is a phrase, unless it is a parenthesis. -/
theorem singleton {c : Char} (hopen : c ≠ '(') (hclose : c ≠ ')') (hcomma : c ≠ ',')
    (hends : endsOperand (some c) = true) : Phrase [c] where
  balanced := .char hopen hclose .nil
  ends := hends
  commas := by
    intro rest
    rw [List.cons_append, List.nil_append, splitCommas, nestingAfter_of_ne hopen hclose]
    simp [hcomma]

/-- Plain characters are a phrase. -/
theorem of_isPlain (hcs : cs ≠ []) (h : ∀ c ∈ cs, isPlain c = true) : Phrase cs := by
  induction cs with
  | nil => exact absurd rfl hcs
  | cons c cs ih =>
    obtain ⟨hopen, hclose, hcomma, hsymbol⟩ := isPlain_iff.1 (h c (by simp))
    cases cs with
    | nil =>
      refine singleton hopen hclose hcomma ?_
      simp [endsOperand, hsymbol, hopen, hcomma]
    | cons d cs => exact .cons hopen hclose hcomma (ih (by simp) fun x hx => h x (by simp [hx]))

/-- A pair of parentheses around a balanced text is a phrase. -/
theorem parenthesized (h : Balanced cs) : Phrase ('(' :: (cs ++ [')'])) where
  balanced := h.parenthesized
  ends := by
    rw [← List.cons_append, List.getLast?_append]
    rfl
  commas := by
    intro rest
    have hopening : nestingAfter 0 '(' = 0 + 1 := rfl
    have hclosing : nestingAfter (0 + 1) ')' = 0 := rfl
    rw [List.cons_append, List.append_assoc, splitCommas, hopening, h.splitCommas_append,
      List.cons_append, splitCommas, hclosing]
    simp

/-- An operator may stand before a phrase. -/
theorem symbol_cons (op : Operator) (h : Phrase cs) : Phrase (op.symbol :: cs) :=
  .cons op.symbol_ne_parenthesis.1 op.symbol_ne_parenthesis.2 (by cases op <;> decide) h

end Phrase

/-- Commas between balanced texts leave them balanced. -/
theorem Balanced.intercalate {parts : List (List Char)} (h : ∀ part ∈ parts, Balanced part) :
    Balanced ([','].intercalate parts) := by
  induction parts with
  | nil => exact .nil
  | cons part parts ih =>
    have hpart := h part (by simp)
    have hparts := ih fun p hp => h p (by simp [hp])
    cases parts with
    | nil => simpa [List.intercalate] using hpart
    | cons next parts =>
      have hcomma : Balanced [','] := .of_forall (by simp)
      rw [List.intercalate_cons_cons]
      exact (hpart.append hcomma).append hparts

/-- Commas between balanced arguments leave them balanced. -/
theorem Balanced.intercalate_args {args : List (List Char × Expression Float)}
    (h : ∀ arg ∈ args, Balanced arg.1) : Balanced ([','].intercalate (args.map (·.1))) := by
  apply intercalate
  intro part hpart
  obtain ⟨arg, harg, rfl⟩ := List.mem_map.1 hpart
  exact h arg harg

/-- The name of a function is a phrase. -/
theorem NamedFunction.phrase_name (f : NamedFunction) : Phrase f.name.toList :=
  .of_isPlain (by cases f <;> decide) f.isPlain_of_mem_name

end Calculator
