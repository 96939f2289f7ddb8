import Calculator.Proofs.Decimal.Text

/-!
# Tokens that are integers and numbers

A token of digits is read as an integer and as a number. The double of the integer is the number,
except that no integer is a negative zero.
-/

namespace Calculator

namespace Decimal

/-- Digits have the value zero exactly if all of them are zeros. -/
theorem valueOf_eq_zero_iff {ds : List Char} (hdigits : ∀ c ∈ ds, c.isDigit = true) :
    valueOf ds = 0 ↔ ∀ c ∈ ds, c = '0' := by
  induction ds using List.reverseRecOn with
  | nil => exact ⟨fun _ => nofun, fun _ => rfl⟩
  | append_singleton ds d ih =>
    obtain ⟨hds, hd⟩ := List.forall_mem_append.1 hdigits
    have hzero : d.toNat - 48 = 0 ↔ d = '0' := by
      have hrange := Char.isDigit_iff_toNat.1 (hd d (List.mem_singleton_self d))
      have hcode : '0'.toNat = 48 := rfl
      rw [← Char.toNat_inj, hcode]
      omega
    rw [valueOf_append_singleton, List.forall_mem_append, List.forall_mem_singleton, ← ih hds,
      ← hzero]
    omega

/-- Digits after a sign are read as a decimal without an exponent. -/
theorem read?_of_digits {cs ds : List Char} {negative : Bool} (hsign : takeSign cs = (negative, ds))
    (hne : ds ≠ []) (hdigits : ∀ c ∈ ds, c.isDigit = true) :
    read? cs = some ⟨negative, valueOf ds, 0⟩ := by
  obtain ⟨digits, places, htake, hd⟩ := takeDigits?_of_numeral (.whole hne hdigits)
  obtain ⟨-, hvalue, hplaces⟩ := Decimal.mk.inj hd
  rw [read?, hsign, hvalue]
  simp only [htake, readExponent?, Option.map_some]
  rw [Int.zero_sub, ← hplaces]

/-- An integer other than zero has the double of its digits with its sign, and so has zero without
a minus sign. -/
theorem toFloat_ofInt {negative : Bool} {n : Nat} (h : negative = true → n ≠ 0) :
    toFloat ⟨negative, n, 0⟩ = Float.ofInt (if negative then -(n : Int) else n) := by
  cases negative with
  | false => rfl
  | true =>
    obtain ⟨k, rfl⟩ := Nat.exists_eq_succ_of_ne_zero (h rfl)
    rfl

end Decimal

/-- A minus sign and zeros. -/
def IsNegativeZero (token : List Char) : Prop :=
  ∃ zeros, zeros ≠ [] ∧ (∀ c ∈ zeros, c = '0') ∧ token = '-' :: zeros

/-- An integer is read off digits after a sign, and has to fit into sixty-four bits. -/
theorem readInteger?_eq_some_iff {cs ds : List Char} {negative : Bool}
    (hsign : Decimal.takeSign cs = (negative, ds)) {n : Int} :
    readInteger? cs = some n ↔ ds ≠ [] ∧ (∀ c ∈ ds, c.isDigit = true) ∧
      n = (if negative then -(Decimal.valueOf ds : Int) else Decimal.valueOf ds) ∧
      -Int.pow 2 63 ≤ n ∧ n < Int.pow 2 63 := by
  rw [readInteger?, hsign]
  simp only
  generalize (if negative = true then -(Decimal.valueOf ds : Int) else Decimal.valueOf ds) = value
  split
  · next hbad =>
    constructor
    · exact nofun
    · rintro ⟨hne, hdigits, -⟩
      simp [hne, List.all_eq_true.2 hdigits] at hbad
  · next hgood =>
    obtain ⟨hne, hdigits⟩ : ds ≠ [] ∧ ∀ c ∈ ds, c.isDigit = true := by simpa using hgood
    split
    · next hrange =>
      constructor
      · rintro ⟨⟩
        exact ⟨hne, hdigits, rfl, hrange⟩
      · rintro ⟨-, -, rfl, -⟩
        rfl
    · next hrange =>
      constructor
      · exact nofun
      · rintro ⟨-, -, rfl, hfits⟩
        exact absurd hfits hrange

/-- An integer that is no negative zero is read as the number that is its double. -/
theorem readNumber?_of_readInteger? {cs : List Char} {n : Int} (h : readInteger? cs = some n)
    (hzero : ¬IsNegativeZero cs) : readNumber? cs = some (Float.ofInt n) := by
  obtain ⟨⟨negative, ds⟩, hsign⟩ : ∃ signed, Decimal.takeSign cs = signed := ⟨_, rfl⟩
  obtain ⟨hne, hdigits, rfl, -⟩ := (readInteger?_eq_some_iff hsign).1 h
  rw [readNumber?, Decimal.read?_of_digits hsign hne hdigits]
  refine congrArg some (Decimal.toFloat_ofInt ?_)
  rintro rfl hvalue
  have hminus : cs = '-' :: ds := by
    rw [Decimal.takeSign.eq_def] at hsign
    split at hsign
    · obtain ⟨-, rfl⟩ := Prod.mk.inj hsign
      rfl
    · cases hsign
    · cases hsign
  exact hzero ⟨ds, hne, (Decimal.valueOf_eq_zero_iff hdigits).1 hvalue, hminus⟩

/-- A negative zero is read as the integer zero, but as the number with the minus sign. -/
theorem IsNegativeZero.read {cs : List Char} (h : IsNegativeZero cs) :
    readInteger? cs = some 0 ∧ readNumber? cs = some (-0) := by
  obtain ⟨zeros, hne, hzeros, rfl⟩ := h
  have hsign : Decimal.takeSign ('-' :: zeros) = (true, zeros) := rfl
  have hdigits : ∀ c ∈ zeros, c.isDigit = true := by
    intro c hc
    rw [hzeros c hc]
    rfl
  have hvalue := (Decimal.valueOf_eq_zero_iff hdigits).2 hzeros
  constructor
  · refine (readInteger?_eq_some_iff hsign).2 ⟨hne, hdigits, ?_, by decide, by decide⟩
    rw [hvalue]
    rfl
  · rw [readNumber?, Decimal.read?_of_digits hsign hne hdigits, hvalue]
    rfl

end Calculator
