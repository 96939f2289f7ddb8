import Calculator.Proofs.Binary64.Sign
import Calculator.Proofs.Decimal.Text
import Calculator.Proofs.Polynomial.Constant
import Calculator.Proofs.Printing.Text

/-!
# The texts of constants and unknowns

A constant without a minus sign and an unknown are shown as values, and read as themselves.
-/

namespace Calculator

variable {unknowns : List Char} {k : Nat}

/-- A literal has no minus sign. -/
theorem Literal.negative_eq {cs : List Char} {d : Decimal} (h : Literal cs d) :
    d.negative = false := by
  cases h <;> exact Numeral.negative_eq ‹_›

/-- A literal is read as a double without a minus sign. -/
theorem Literal.isNegative_toFloat {cs : List Char} {d : Decimal} (h : Literal cs d) :
    Binary64.isNegative d.toFloat = false := by
  rw [Decimal.toFloat, h.negative_eq]
  exact Binary64.isNegative_ofScientific _ _ _

/-- A shown text has no blanks. -/
theorem Shows.stripBlanks_eq (hunknowns : ∀ c ∈ unknowns, isUnknownSymbol c = true)
    {precedence : Option Nat} {cs : List Char} {e : Expression Float}
    (h : Shows unknowns k precedence cs e) : Text.stripBlanks cs = cs :=
  h.nests.derives.stripBlanks_eq hunknowns

/-- The text of a finite double without a minus sign is shown as its constant. -/
theorem shows_numberText {x : Float} (hfinite : x.isFinite = true)
    (hsign : Binary64.isNegative x = false) :
    Shows unknowns k none (numberText x) (.constant x) := by
  obtain ⟨d, hliteral, rfl⟩ := literal_numberText hfinite hsign
  exact .atom (.leaf (.literal hliteral))

/-- The zero polynomial is shown as itself. -/
theorem shows_zero :
    Shows unknowns k Polynomial.zero.precedence? Polynomial.zero.text (.value .zero) := by
  have hdigit : Numeral ['0'] ⟨false, 0, 0⟩ := .whole (by simp) (by simp)
  have hzero : (Decimal.toFloat ⟨false, 0, 0⟩ != 0) = false := by decide +kernel
  have hshown : Shows unknowns k none ['0'] (.constant (Decimal.toFloat ⟨false, 0, 0⟩)) :=
    .atom (.leaf (.literal (.plain hdigit)))
  rwa [Expression.constant, Polynomial.constant_of_zero hzero] at hshown

/-- A finite constant without a minus sign is shown as itself. -/
theorem shows_constant {x : Float} (hfinite : x.isFinite = true)
    (hsign : Binary64.isNegative x = false) :
    Shows unknowns k (Polynomial.constant x).precedence? (Polynomial.constant x).text
      (.constant x) := by
  cases hne : x != 0 with
  | false =>
    rw [Expression.constant, Polynomial.constant_of_zero hne]
    exact shows_zero
  | true =>
    have hprecedence : (⟨[.constant x]⟩ : Polynomial Float Float).precedence? = none := by
      simp [Polynomial.precedence?, Monomial.constant, hsign]
    have htext : (⟨[.constant x]⟩ : Polynomial Float Float).text = numberText x := rfl
    rw [Polynomial.constant_of_ne_zero hne, hprecedence, htext]
    exact shows_numberText hfinite hsign

/-- An unknown is shown as itself. -/
theorem shows_unknown {c : Char} (hc : c ∈ unknowns) :
    Shows unknowns k (Polynomial.unknown c).precedence? (Polynomial.unknown c).text
      (.unknown c) := by
  have hsign : Binary64.isNegative 1 = false := by decide +kernel
  have hminus : ((1 : Float) == -1) = false := by decide +kernel
  have hone : ((1 : Float) == 1) = true := by decide +kernel
  have hprecedence : (⟨[.unknown c]⟩ : Polynomial Float Float).precedence? = none := by
    simp [Polynomial.precedence?, Monomial.unknown, hsign, hone]
  have htext : (⟨[.unknown c]⟩ : Polynomial Float Float).text = [c] := by
    simp [Polynomial.text, Monomial.text, Monomial.unknown, Monomial.isConstant,
      Monomial.coefficientText, Monomial.powerText, hminus, hone]
  rw [Polynomial.unknown_eq, hprecedence, htext]
  exact .atom (.leaf (.unknown hc))

end Calculator
