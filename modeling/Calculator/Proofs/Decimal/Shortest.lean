import Mathlib.Tactic.NormNum
import Calculator.Proofs.Decimal.Rounding

/-!
# The shortest decimal reads back

The decimal that a double is written with is one that the double is nearest to: those that are
tried are tested for it, and on the grid of seventeen digits one of the two neighbours passes.
-/

namespace Calculator.Decimal

open Binary64 (Canonical Nearest lowerGap_le two_zpow_eq_quarters zpow_eq_div)

/-- The units that points of a grid and the ends of an interval are compared in. -/
theorem exists_unit (exponent grid : Int) : ∃ w : ℚ, 0 < w ∧
    ((Nat.pow 10 grid.toNat * Nat.pow 2 (2 - exponent).toNat : Nat) : ℚ) = 10 ^ grid * w ∧
    ((Nat.pow 2 (exponent - 2).toNat * Nat.pow 10 (-grid).toNat : Nat) : ℚ) =
      2 ^ (exponent - 2) * w := by
  have hneg : -(exponent - 2) = 2 - exponent := by omega
  refine ⟨2 ^ (2 - exponent).toNat * 10 ^ (-grid).toNat, by positivity, ?_, ?_⟩
  · rw [zpow_eq_div 10 grid]
    simp only [Nat.pow_eq]
    push_cast
    field_simp
  · rw [zpow_eq_div 2 (exponent - 2), hneg]
    simp only [Nat.pow_eq]
    push_cast
    field_simp

/-- A point of the grid in the units that it is compared in. -/
theorem point_eq_scaled {grid : Int} {unit : Nat} {w : ℚ} (hunit : (unit : ℚ) = 10 ^ grid * w)
    (n : Nat) : ((n * unit : Nat) : ℚ) = n * 10 ^ grid * w := by
  rw [Nat.cast_mul, hunit, mul_assoc]

/-- Naturals in a common unit are ordered as what they stand for. -/
theorem le_iff_of_scaled {w x y : ℚ} (hw : 0 < w) {a b : Nat} (ha : (a : ℚ) = x * w)
    (hb : (b : ℚ) = y * w) : a ≤ b ↔ x ≤ y := by
  rw [← Nat.cast_le (α := ℚ), ha, hb, mul_le_mul_iff_of_pos_right hw]

/-- Naturals in a common unit are strictly ordered as what they stand for. -/
theorem lt_iff_of_scaled {w x y : ℚ} (hw : 0 < w) {a b : Nat} (ha : (a : ℚ) = x * w)
    (hb : (b : ℚ) = y * w) : a < b ↔ x < y := by
  rw [← not_le, ← not_le, le_iff_of_scaled hw hb ha]

/-- A point of the grid passes the test if and only if the double is nearest to it. -/
theorem readsBack_iff {mantissa : Nat} {exponent grid : Int} (hpos : 0 < mantissa)
    {unit scale : Nat} {w : ℚ} (hw : 0 < w) (hunit : (unit : ℚ) = 10 ^ grid * w)
    (hscale : (scale : ℚ) = 2 ^ (exponent - 2) * w) (n : Nat) :
    (if mantissa % 2 = 0 then
        decide ((4 * mantissa - lowerGap mantissa exponent) * scale ≤ n * unit) &&
          decide (n * unit ≤ (4 * mantissa + 2) * scale)
      else decide ((4 * mantissa - lowerGap mantissa exponent) * scale < n * unit) &&
        decide (n * unit < (4 * mantissa + 2) * scale)) = true ↔
      Nearest mantissa exponent (n * 10 ^ grid) := by
  have hgap : lowerGap mantissa exponent ≤ 4 * mantissa := by
    unfold lowerGap
    split <;> omega
  have hpoint := point_eq_scaled hunit n
  have hlow : (((4 * mantissa - lowerGap mantissa exponent) * scale : Nat) : ℚ) =
      (4 * mantissa - lowerGap mantissa exponent) * 2 ^ (exponent - 2) * w := by
    rw [Nat.cast_mul, Nat.cast_sub hgap, hscale]
    push_cast
    ring
  have hhigh : (((4 * mantissa + 2) * scale : Nat) : ℚ) =
      (4 * mantissa + 2) * 2 ^ (exponent - 2) * w := by
    push_cast
    rw [hscale]
    ring
  split
  · next heven =>
    rw [Bool.and_eq_true, decide_eq_true_iff, decide_eq_true_iff, le_iff_of_scaled hw hlow hpoint,
      le_iff_of_scaled hw hpoint hhigh]
    constructor
    · rintro ⟨hlower, hupper⟩
      exact ⟨hlower, hupper, fun hodd => by omega⟩
    · intro h
      exact ⟨h.lower, h.upper⟩
  · next hodd =>
    rw [Bool.and_eq_true, decide_eq_true_iff, decide_eq_true_iff, lt_iff_of_scaled hw hlow hpoint,
      lt_iff_of_scaled hw hpoint hhigh]
    constructor
    · rintro ⟨hlower, hupper⟩
      exact ⟨hlower.le, hupper.le, fun _ => ⟨hlower, hupper⟩⟩
    · intro h
      exact h.odd (by omega)

/-- What is found on a grid is a point that the double is nearest to. -/
theorem nearest_of_nearestOnGrid? {mantissa n : Nat} {exponent grid : Int} (hpos : 0 < mantissa)
    (h : nearestOnGrid? mantissa exponent grid = some n) :
    Nearest mantissa exponent (n * 10 ^ grid) := by
  obtain ⟨w, hw, hunit, hscale⟩ := exists_unit exponent grid
  rw [← readsBack_iff hpos hw hunit hscale]
  simp only [nearestOnGrid?] at h
  split at h
  · next hbelow habove =>
    split at h
    · obtain rfl := Option.some.inj h
      exact hbelow
    · obtain rfl := Option.some.inj h
      exact habove
  · next hbelow _ =>
    obtain rfl := Option.some.inj h
    exact hbelow
  · next _ habove =>
    obtain rfl := Option.some.inj h
    exact habove
  · cases h

/-- A point is found on a grid if the double is nearest to one of its two neighbours. -/
theorem isSome_nearestOnGrid? {mantissa : Nat} {exponent grid : Int} (hpos : 0 < mantissa)
    (h : ∀ n : Nat, (n * 10 ^ grid : ℚ) ≤ mantissa * 2 ^ exponent →
      (mantissa * 2 ^ exponent : ℚ) < (n + 1 : Nat) * 10 ^ grid →
        Nearest mantissa exponent (n * 10 ^ grid) ∨
          Nearest mantissa exponent ((n + 1 : Nat) * 10 ^ grid)) :
    ∃ n, nearestOnGrid? mantissa exponent grid = some n := by
  obtain ⟨w, hw, hunit, hscale⟩ := exists_unit exponent grid
  have hneighbour := fun n => readsBack_iff (n := n) hpos hw hunit hscale
  simp only [nearestOnGrid?]
  generalize Nat.pow 10 grid.toNat * Nat.pow 2 (2 - exponent).toNat = unit at hunit hneighbour ⊢
  generalize Nat.pow 2 (exponent - 2).toNat * Nat.pow 10 (-grid).toNat = scale
    at hscale hneighbour ⊢
  have hunitpos : 0 < unit := by
    apply (Nat.cast_pos (α := ℚ)).1
    rw [hunit]
    positivity
  have hvalue : ((4 * mantissa * scale : Nat) : ℚ) = mantissa * 2 ^ exponent * w := by
    rw [two_zpow_eq_quarters]
    push_cast
    rw [hscale]
    ring
  have hbelow := (le_iff_of_scaled hw (point_eq_scaled hunit _) hvalue).1
    (Nat.div_mul_le_self (4 * mantissa * scale) unit)
  have habove := (lt_iff_of_scaled hw hvalue (point_eq_scaled hunit _)).1
    (Nat.lt_mul_of_div_lt (Nat.lt_succ_self (4 * mantissa * scale / unit)) hunitpos)
  have hsome := h _ hbelow habove
  rw [← hneighbour, ← hneighbour] at hsome
  split
  · split <;> exact ⟨_, rfl⟩
  · exact ⟨_, rfl⟩
  · exact ⟨_, rfl⟩
  · next hbelow habove =>
    rw [hbelow, habove] at hsome
    cases hsome <;> contradiction

/-- A number other than zero is at least the power of ten that its first digit stands for. -/
theorem ten_pow_le_of_length {n : Nat} (hn : 0 < n) : 10 ^ ((digitsOf n).length - 1) ≤ n := by
  by_cases hone : (digitsOf n).length - 1 = 0
  · rw [hone]
    exact hn
  · by_contra hlt
    have hle := (Nat.length_toDigits_le_iff (by decide) (Nat.pos_of_ne_zero hone)).2
      (Nat.lt_of_not_le hlt)
    unfold digitsOf at hle hone
    omega

/-- A number is at most a power of ten times another, with as many zeros as their quotient has
digits. -/
theorem le_ten_pow_mul {num : Nat} (den : Nat) (hnum : 0 < num) :
    den ≤ 10 ^ (digitsOf ((den - 1) / num)).length * num := by
  have hlength := Nat.length_toDigits_pos (b := 10) (n := (den - 1) / num)
  have hlt : (den - 1) / num < 10 ^ (digitsOf ((den - 1) / num)).length :=
    (Nat.length_toDigits_le_iff (by decide) hlength).1 (Nat.le_refl _)
  have hmul := (Nat.div_lt_iff_lt_mul hnum).1 hlt
  omega

/-- The magnitude of a number is no more than the number of its digits before the point. -/
theorem ten_zpow_magnitude_le {mantissa : Nat} (exponent : Int) (hpos : 0 < mantissa) :
    (10 : ℚ) ^ (magnitude mantissa exponent - 1) ≤ mantissa * 2 ^ exponent := by
  have hvalue : (mantissa * 2 ^ exponent : ℚ) =
      (mantissa * 2 ^ exponent.toNat : Nat) / (2 ^ (-exponent).toNat : Nat) := by
    rw [zpow_eq_div 2 exponent]
    push_cast
    rw [mul_div_assoc]
  have hnum : 0 < mantissa * 2 ^ exponent.toNat := by positivity
  have hden : 0 < 2 ^ (-exponent).toNat := by positivity
  rw [hvalue, magnitude]
  simp only [Nat.pow_eq]
  generalize mantissa * 2 ^ exponent.toNat = num at *
  generalize 2 ^ (-exponent).toNat = den at *
  have hden' : (0 : ℚ) < den := Nat.cast_pos.2 hden
  split
  · next hle =>
    have hwhole : 0 < num / den := Nat.div_pos hle hden
    have hlength := Nat.length_toDigits_pos (b := 10) (n := num / den)
    have hexponent : ((digitsOf (num / den)).length : Int) - 1 =
        ((digitsOf (num / den)).length - 1 : Nat) := by
      unfold digitsOf
      omega
    have hnat : 10 ^ ((digitsOf (num / den)).length - 1) * den ≤ num :=
      (Nat.le_div_iff_mul_le hden).1 (ten_pow_le_of_length hwhole)
    rw [hexponent, zpow_natCast, le_div_iff₀ hden']
    exact_mod_cast hnat
  · have hnat := le_ten_pow_mul den hnum
    have hexponent : 1 - ((digitsOf ((den - 1) / num)).length : Int) - 1 =
        -((digitsOf ((den - 1) / num)).length : Int) := by omega
    rw [hexponent, zpow_neg, zpow_natCast, inv_eq_one_div, div_le_div_iff₀ (by positivity) hden']
    have hcast : (den : ℚ) ≤ num * 10 ^ (digitsOf ((den - 1) / num)).length := by
      rw [Nat.mul_comm] at hnat
      exact_mod_cast hnat
    linarith

/-- The doubles are wider apart than the points of the grid of seventeen digits. -/
theorem spacing_lt {mantissa : Nat} {exponent : Int} (hcanonical : Canonical mantissa exponent) :
    (10 : ℚ) ^ (magnitude mantissa exponent - 17) <
      2 * (lowerGap mantissa exponent * 2 ^ (exponent - 2)) := by
  have hmagnitude := ten_zpow_magnitude_le exponent hcanonical.pos
  have hspacing : (10 : ℚ) ^ (magnitude mantissa exponent - 1) =
      10 ^ 16 * 10 ^ (magnitude mantissa exponent - 17) := by
    have hsum : magnitude mantissa exponent - 1 = 16 + (magnitude mantissa exponent - 17) := by
      omega
    rw [hsum, zpow_add₀ (by norm_num)]
    rfl
  have hunit : (0 : ℚ) < 2 ^ (exponent - 2) := by positivity
  rw [hspacing, two_zpow_eq_quarters] at hmagnitude
  rw [lowerGap]
  split
  · next hpower =>
    obtain ⟨rfl, -⟩ := hpower
    simp only [Nat.pow_eq] at hmagnitude
    push_cast at hmagnitude ⊢
    linarith
  · have hmantissa : (mantissa : ℚ) < (2 ^ 53 : Nat) := Nat.cast_lt.2 hcanonical.lt
    have hscaled : (mantissa : ℚ) * 2 ^ (exponent - 2) < (2 ^ 53 : Nat) * 2 ^ (exponent - 2) :=
      mul_lt_mul_of_pos_right hmantissa hunit
    push_cast at hscaled ⊢
    linarith

/-- On the grid of seventeen digits a double is nearest to one of its two neighbours. -/
theorem nearest_seventeen {mantissa n : Nat} {exponent : Int}
    (hcanonical : Canonical mantissa exponent)
    (hbelow : (n * 10 ^ (magnitude mantissa exponent - 17) : ℚ) ≤ mantissa * 2 ^ exponent)
    (habove : (mantissa * 2 ^ exponent : ℚ) <
      (n + 1 : Nat) * 10 ^ (magnitude mantissa exponent - 17)) :
    Nearest mantissa exponent (n * 10 ^ (magnitude mantissa exponent - 17)) ∨
      Nearest mantissa exponent ((n + 1 : Nat) * 10 ^ (magnitude mantissa exponent - 17)) := by
  have hspacing := spacing_lt hcanonical
  have hunit : (0 : ℚ) < 2 ^ (exponent - 2) := by positivity
  have hgap : (lowerGap mantissa exponent : ℚ) * 2 ^ (exponent - 2) ≤ 2 * 2 ^ (exponent - 2) :=
    mul_le_mul_of_nonneg_right (lowerGap_le mantissa exponent) hunit.le
  have hstrict {v : ℚ}
      (hlower : (4 * mantissa - lowerGap mantissa exponent : ℚ) * 2 ^ (exponent - 2) < v)
      (hupper : v < (4 * mantissa + 2 : ℚ) * 2 ^ (exponent - 2)) : Nearest mantissa exponent v :=
    ⟨hlower.le, hupper.le, fun _ => ⟨hlower, hupper⟩⟩
  rw [two_zpow_eq_quarters] at hbelow habove
  generalize (10 : ℚ) ^ (magnitude mantissa exponent - 17) = spacing at *
  push_cast at habove ⊢
  -- The nearer of the two neighbours is at most half the spacing away.
  by_cases hnear : 2 * (2 ^ 2 * 2 ^ (exponent - 2) * mantissa - n * spacing) ≤ spacing
  · left
    apply hstrict <;> linarith
  · right
    apply hstrict <;> linarith

/-- Moving zeros into the exponent keeps the value. -/
theorem dropZeros_value (limit n : Nat) (exponent : Int) :
    ((dropZeros limit n exponent).1 * 10 ^ (dropZeros limit n exponent).2 : ℚ) =
      n * 10 ^ exponent := by
  induction limit generalizing n exponent with
  | zero => rfl
  | succ limit ih =>
    rw [dropZeros]
    split
    · next hzero =>
      have hten : n = n / 10 * 10 := by omega
      have hcast : (n : ℚ) = (n / 10 : Nat) * 10 := by exact_mod_cast hten
      rw [ih, zpow_add_one₀ (by norm_num), hcast]
      ring
    · rfl

/-- A positive double is nearest to its shortest decimal. -/
theorem nearest_shortest {mantissa : Nat} {exponent : Int}
    (hcanonical : Canonical mantissa exponent) (negative : Bool) :
    Nearest mantissa exponent ((shortest negative mantissa exponent).coefficient *
      10 ^ (shortest negative mantissa exponent).exponent) := by
  obtain ⟨n, hn⟩ := isSome_nearestOnGrid? hcanonical.pos fun _ => nearest_seventeen hcanonical
  rw [shortest]
  simp only
  generalize hfound : (List.range' 1 17).findSome? (fun digits =>
    (nearestOnGrid? mantissa exponent (magnitude mantissa exponent - (digits : Nat))).map
      fun n => (n, magnitude mantissa exponent - (digits : Nat))) = found
  cases found with
  | none =>
    have hnone := List.findSome?_eq_none_iff.1 hfound 17 (by decide)
    rw [Nat.cast_ofNat, hn] at hnone
    cases hnone
  | some result =>
    obtain ⟨digits, -, hresult⟩ := List.exists_of_findSome?_eq_some hfound
    obtain ⟨n, hgrid, rfl⟩ := Option.map_eq_some_iff.1 hresult
    rw [Option.getD_some, dropZeros_value]
    exact nearest_of_nearestOnGrid? hcanonical.pos hgrid

end Calculator.Decimal
