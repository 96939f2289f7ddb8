import Mathlib.Data.List.TakeWhile
import Calculator.Decimal.Reading

/-!
# Literals

The grammar of literals, with the decimal that each of them denotes. Reading a literal accepts
exactly the texts of the grammar, apart from a minus sign, which belongs to no literal that the
parser meets.
-/

namespace Calculator

/-- Digits with at most one point before, between or after them, and the decimal they denote. -/
inductive Numeral : List Char → Decimal → Prop
  | whole {ds : List Char} (hds : ds ≠ []) (hdigits : ∀ c ∈ ds, c.isDigit = true) :
    Numeral ds ⟨false, Decimal.valueOf ds, 0⟩
  | point {ds fs : List Char} (hne : ds ≠ [] ∨ fs ≠ []) (hds : ∀ c ∈ ds, c.isDigit = true)
    (hfs : ∀ c ∈ fs, c.isDigit = true) :
    Numeral (ds ++ '.' :: fs) ⟨false, Decimal.valueOf (ds ++ fs), -fs.length⟩

/-- A numeral, which a plus sign may stand before. -/
inductive Literal : List Char → Decimal → Prop
  | plain {cs : List Char} {d : Decimal} (h : Numeral cs d) : Literal cs d
  | plus {cs : List Char} {d : Decimal} (h : Numeral cs d) : Literal ('+' :: cs) d

namespace Numeral

/-- Every character of a numeral is a digit or a point. -/
theorem isDigit_or_eq {cs : List Char} {d : Decimal} (h : Numeral cs d) :
    ∀ c ∈ cs, c.isDigit = true ∨ c = '.' := by
  intro c hc
  cases h with
  | whole _ hdigits => exact .inl (hdigits c hc)
  | point _ hds hfs =>
    rcases List.mem_append.1 hc with hc | hc
    · exact .inl (hds c hc)
    · rcases List.mem_cons.1 hc with rfl | hc
      · exact .inr rfl
      · exact .inl (hfs c hc)

/-- A numeral has at least one character. -/
theorem ne_nil {cs : List Char} {d : Decimal} (h : Numeral cs d) : cs ≠ [] := by
  cases h with
  | whole hds _ => exact hds
  | point => simp

/-- The value of a numeral is not negated. -/
theorem negative_eq {cs : List Char} {d : Decimal} (h : Numeral cs d) : d.negative = false := by
  cases h <;> rfl

end Numeral

namespace Decimal

/-- Digits before something else are taken off as they are. -/
theorem takeWhile_isDigit {ds : List Char} (hds : ∀ c ∈ ds, c.isDigit = true) (rest : List Char)
    (hrest : ∀ c ∈ rest.head?, c.isDigit = false) :
    (ds ++ rest).takeWhile Char.isDigit = ds ∧ (ds ++ rest).dropWhile Char.isDigit = rest := by
  rw [List.takeWhile_append_of_pos hds, List.dropWhile_append_of_pos hds]
  cases rest with
  | nil => simp
  | cons c rest =>
    have hc : c.isDigit = false := hrest c rfl
    simp [hc]

/-- A numeral is taken off whole, with the decimal that it denotes. -/
theorem takeDigits?_of_numeral {cs : List Char} {d : Decimal} (h : Numeral cs d) :
    ∃ digits places, takeDigits? cs = some (digits, places, []) ∧
      d = ⟨false, valueOf digits, -places⟩ := by
  cases h with
  | whole hds hdigits =>
    obtain ⟨htake, hdrop⟩ := takeWhile_isDigit hdigits [] (by simp)
    rw [List.append_nil] at htake hdrop
    refine ⟨cs, 0, ?_, rfl⟩
    simp [takeDigits?, htake, hdrop, hds]
  | @point ds fs hne hds hfs =>
    obtain ⟨htake, hdrop⟩ := takeWhile_isDigit hds ('.' :: fs) (by simp)
    obtain ⟨htake', hdrop'⟩ := takeWhile_isDigit hfs [] (by simp)
    rw [List.append_nil] at htake' hdrop'
    refine ⟨ds ++ fs, fs.length, ?_, rfl⟩
    have hnot : (ds.isEmpty && fs.isEmpty) = false := by
      rcases hne with h | h <;> simp [h]
    simp [takeDigits?, htake, hdrop, htake', hdrop', hnot]

/-- What is taken off whole is a numeral. -/
theorem numeral_of_takeDigits? {cs digits : List Char} {places : Nat}
    (h : takeDigits? cs = some (digits, places, [])) :
    Numeral cs ⟨false, valueOf digits, -places⟩ := by
  have hcs := List.takeWhile_append_dropWhile (p := Char.isDigit) (l := cs)
  have hwhole : ∀ c ∈ cs.takeWhile Char.isDigit, c.isDigit = true :=
    fun c hc => List.mem_takeWhile_imp hc
  simp only [takeDigits?] at h
  split at h
  · next more hrest =>
    have hmore := List.takeWhile_append_dropWhile (p := Char.isDigit) (l := more)
    have hfraction : ∀ c ∈ more.takeWhile Char.isDigit, c.isDigit = true :=
      fun c hc => List.mem_takeWhile_imp hc
    split at h
    · simp at h
    · next hne =>
      obtain ⟨rfl, rfl, hdrop⟩ := by simpa using h
      have hdrop' : more.dropWhile Char.isDigit = [] := List.dropWhile_eq_nil_iff.2 hdrop
      rw [hdrop', List.append_nil] at hmore
      rw [hrest] at hcs
      rw [hmore] at hfraction hne ⊢
      have hpoint : Numeral (cs.takeWhile Char.isDigit ++ '.' :: more) _ :=
        .point (by simpa [Classical.or_iff_not_imp_left] using hne) hwhole hfraction
      rwa [hcs] at hpoint
  · split at h
    · simp at h
    · next hne =>
      obtain ⟨rfl, rfl, hdrop⟩ := by simpa using h
      have hdrop' : cs.dropWhile Char.isDigit = [] := List.dropWhile_eq_nil_iff.2 hdrop
      rw [hdrop', List.append_nil] at hcs
      rw [hcs] at hwhole hne ⊢
      exact .whole (by simpa using hne) hwhole

/-- No sign is taken off a numeral. -/
theorem takeSign_of_numeral {cs : List Char} {d : Decimal} (h : Numeral cs d) :
    takeSign cs = (false, cs) := by
  have hmem := h.isDigit_or_eq
  cases cs with
  | nil => rfl
  | cons c cs =>
    have hc := hmem c (by simp)
    have hminus : c ≠ '-' := by rintro rfl; revert hc; decide
    have hplus : c ≠ '+' := by rintro rfl; revert hc; decide
    rw [takeSign]
    · intro ds hds
      exact hminus (List.cons.inj hds).1
    · intro ds hds
      exact hplus (List.cons.inj hds).1

/-- Reading a literal gives the decimal that it denotes. -/
theorem readLiteral?_of_literal {cs : List Char} {d : Decimal} (h : Literal cs d) :
    readLiteral? cs = some d := by
  cases h with
  | plain h =>
    obtain ⟨digits, places, htake, rfl⟩ := takeDigits?_of_numeral h
    simp [readLiteral?, takeSign_of_numeral h, htake]
  | plus h =>
    obtain ⟨digits, places, htake, rfl⟩ := takeDigits?_of_numeral h
    simp [readLiteral?, takeSign, htake]

/-- What is read as a literal is one, unless it starts with a minus sign. -/
theorem literal_of_readLiteral? {cs : List Char} {d : Decimal} (h : readLiteral? cs = some d)
    (hminus : ∀ ds, cs ≠ '-' :: ds) : Literal cs d := by
  rw [readLiteral?] at h
  rcases hsign : takeSign cs with ⟨negative, unsigned⟩
  rw [hsign] at h
  simp only at h
  split at h
  · next digits places htake =>
    have hnumeral := numeral_of_takeDigits? htake
    obtain rfl := Option.some.inj h
    rw [takeSign.eq_def] at hsign
    split at hsign
    · next ds => exact absurd rfl (hminus ds)
    · obtain ⟨rfl, rfl⟩ := Prod.mk.inj hsign
      exact .plus hnumeral
    · obtain ⟨rfl, rfl⟩ := Prod.mk.inj hsign
      exact .plain hnumeral
  · simp at h

end Decimal

end Calculator
