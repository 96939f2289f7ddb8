import Mathlib.Algebra.Order.Archimedean.Basic
import Mathlib.Algebra.Order.Floor.Semiring
import Calculator.Proofs.Binary64.Rounding

/-!
# Nearest doubles

Doubles are ordered as their values are, and between two neighbours there is a gap. So a number
that lies between the least and the greatest double is nearest to some double, and this double does
not pass any other one that the number does not pass.
-/

namespace Calculator.Binary64

open Float.Model (UnpackedFloat Format)
open Float.Model.UnpackedFloat

section Order

variable {m m' : Nat} {e e' : Int}

/-- The value of a double lies below the power of two that no mantissa reaches. -/
theorem Canonical.lt_zpow (h : Canonical m e) : (m * 2 ^ e : ℚ) < 2 ^ (e + 53) := by
  have hpow : (2 : ℚ) ^ (e + 53) = 2 ^ 53 * 2 ^ e := two_zpow_eq (by omega)
  have hlt : (m : ℚ) < 2 ^ 53 := by exact_mod_cast h.lt
  rw [hpow]
  exact mul_lt_mul_of_pos_right hlt (by positivity)

/-- The value of a double whose exponent is not the least one has all the bits of its mantissa. -/
theorem Canonical.zpow_le (h : Canonical m e) (hleast : -1074 < e) :
    (2 : ℚ) ^ (e + 52) ≤ m * 2 ^ e := by
  have hpow : (2 : ℚ) ^ (e + 52) = 2 ^ 52 * 2 ^ e := two_zpow_eq (by omega)
  have hfull : (2 ^ 52 : ℚ) ≤ m := by exact_mod_cast h.full_or_least.resolve_right (by omega)
  rw [hpow]
  exact mul_le_mul_of_nonneg_right hfull (by positivity)

/-- No double passes the greatest one. -/
theorem Canonical.le_greatest (h : Canonical m e) :
    (m * 2 ^ e : ℚ) ≤ (2 ^ 53 - 1) * 2 ^ (971 : Int) := by
  have hcast : ((m + 1 : Nat) : ℚ) ≤ (2 ^ 53 : Nat) := Nat.cast_le.2 h.lt
  push_cast at hcast
  exact mul_le_mul (by linarith) (two_zpow_le h.exponent_le) (by positivity) (by norm_num)

/-- The double with the greater exponent is the greater one. -/
theorem Canonical.lt_of_exponent_lt (h : Canonical m e) (h' : Canonical m' e') (hlt : e < e') :
    (m * 2 ^ e : ℚ) < m' * 2 ^ e' := by
  have hleast := h.le_exponent
  calc (m * 2 ^ e : ℚ) < 2 ^ (e + 53) := h.lt_zpow
    _ ≤ 2 ^ (e' + 52) := two_zpow_le (by omega)
    _ ≤ m' * 2 ^ e' := h'.zpow_le (by omega)

/-- Doubles are ordered by their exponents, and by their mantissas if these are the same. -/
theorem Canonical.lt_iff (h : Canonical m e) (h' : Canonical m' e') :
    (m * 2 ^ e : ℚ) < m' * 2 ^ e' ↔ e < e' ∨ e = e' ∧ m < m' := by
  obtain hlt | rfl | hgt := Int.lt_trichotomy e e'
  · exact iff_of_true (h.lt_of_exponent_lt h' hlt) (.inl hlt)
  · have hunit : (0 : ℚ) < 2 ^ e := by positivity
    rw [mul_lt_mul_iff_left₀ hunit, Nat.cast_lt]
    simp
  · refine iff_of_false (h'.lt_of_exponent_lt h hgt).asymm ?_
    omega

/-- Doubles of the same value have the same mantissa and the same exponent. -/
theorem Canonical.eq_of_value_eq (h : Canonical m e) (h' : Canonical m' e')
    (heq : (m * 2 ^ e : ℚ) = m' * 2 ^ e') : m = m' ∧ e = e' := by
  have hle := (h.lt_iff h').not.1 heq.not_lt
  have hge := (h'.lt_iff h).not.1 heq.not_gt
  omega

/-- A double that is less than another one is so by the whole gap below that one. -/
theorem Canonical.le_sub_gap (h : Canonical m e) (h' : Canonical m' e')
    (hlt : (m' * 2 ^ e' : ℚ) < m * 2 ^ e) :
    (m' * 2 ^ e' : ℚ) ≤ (4 * m - 2 * Decimal.lowerGap m e) * 2 ^ (e - 2) := by
  have hunit : (0 : ℚ) < 2 ^ (e - 2) := by positivity
  obtain hexponent | ⟨rfl, hmantissa⟩ := (h'.lt_iff h).1 hlt
  · have hleast := h'.le_exponent
    have hfull : 2 ^ 52 ≤ m := h.full_or_least.resolve_right (by omega)
    have hmantissa : (m' : ℚ) ≤ 2 ^ 53 - 1 := by
      have hcast : ((m' + 1 : Nat) : ℚ) ≤ (2 ^ 53 : Nat) := Nat.cast_le.2 h'.lt
      push_cast at hcast
      linarith
    have hpow : (2 : ℚ) ^ (e - 1) = 2 ^ 1 * 2 ^ (e - 2) := two_zpow_eq (by omega)
    -- Below a power of two the next double has all bits set, at half the unit.
    have hgap : (2 ^ 54 - 2 : ℚ) ≤ 4 * m - 2 * Decimal.lowerGap m e := by
      unfold Decimal.lowerGap
      split
      · next hpower =>
        rw [hpower.1]
        norm_num
      · next hpower =>
        have hlarge : ((2 ^ 52 + 1 : Nat) : ℚ) ≤ m := by
          refine Nat.cast_le.2 (Nat.lt_of_le_of_ne hfull fun heq => hpower ⟨heq.symm, ?_⟩)
          omega
        push_cast at hlarge ⊢
        linarith
    calc (m' * 2 ^ e' : ℚ) ≤ (2 ^ 53 - 1) * 2 ^ (e - 1) := by
          gcongr
          · norm_num
          · omega
      _ = (2 ^ 54 - 2) * 2 ^ (e - 2) := by rw [hpow]; ring
      _ ≤ _ := mul_le_mul_of_nonneg_right hgap hunit.le
  · have hgap := lowerGap_le m e'
    have hcast : (m' : ℚ) + 1 ≤ m := by exact_mod_cast hmantissa
    rw [two_zpow_eq_quarters, ← mul_assoc]
    refine mul_le_mul_of_nonneg_right ?_ hunit.le
    linarith

/-- A number that does not pass a double is nearest to one that does not pass it either. -/
theorem Nearest.le {v : ℚ} (hnearest : Nearest m e v) (h : Canonical m e) (h' : Canonical m' e')
    (hle : v ≤ m' * 2 ^ e') : (m * 2 ^ e : ℚ) ≤ m' * 2 ^ e' := by
  have hunit : (0 : ℚ) < 2 ^ (e - 2) := by positivity
  by_contra hlt
  have hbelow := (hnearest.lower.trans hle).trans (h.le_sub_gap h' (not_le.1 hlt))
  have hgap := le_of_mul_le_mul_right hbelow hunit
  have hpos := lowerGap_pos m e
  linarith

/-- Doubles are compared by their numbers. -/
theorem lt_iff_unpack {x y : Float} : x < y ↔ x.toModel.unpack.lt y.toModel.unpack = true :=
  decide_eq_true_iff

/-- Of two positive doubles the one with the lesser value is the lesser one. -/
theorem lt_iff_of_unpack {x y : Float} {hm : 0 < m} {hm' : 0 < m'}
    (hx : x.toModel.unpack = .finite .positive m e hm)
    (hy : y.toModel.unpack = .finite .positive m' e' hm') :
    x < y ↔ (m * 2 ^ e : ℚ) < m' * 2 ^ e' := by
  rw [lt_iff_unpack, hx, hy, (canonical_of_unpack hx).lt_iff (canonical_of_unpack hy)]
  simp [UnpackedFloat.lt, UnpackedFloat.compare, Ordering.then_eq_lt, Int.compare_eq_lt,
    Nat.compare_eq_lt]

end Order

/-- A number of at most fifty-three bits is that of a double. -/
theorem exists_canonical {n : Nat} {unit : Int} (hn : 0 < n) (hlt : n < 2 ^ 53)
    (hleast : -1074 ≤ unit) (hgreatest : unit ≤ 971) :
    ∃ m e, Canonical m e ∧ (m * 2 ^ e : ℚ) = n * 2 ^ unit := by
  have hlog : n.log2 < 53 := (Nat.log2_lt hn.ne').2 hlt
  -- As many places as there is room for in the mantissa and above the least exponent.
  obtain ⟨places, hplaces⟩ : ∃ places, places = min (52 - n.log2) (unit + 1074).toNat := ⟨_, rfl⟩
  have hvalue : ((n * 2 ^ places : Nat) : ℚ) * 2 ^ (unit - places) = n * 2 ^ unit := by
    have hpow : (2 : ℚ) ^ unit = 2 ^ places * 2 ^ (unit - places) := two_zpow_eq (by omega)
    rw [hpow]
    push_cast
    rw [mul_assoc]
  refine ⟨n * 2 ^ places, unit - places, ⟨by positivity, ?_, by omega, by omega, ?_⟩, hvalue⟩
  · calc n * 2 ^ places < 2 ^ (n.log2 + 1) * 2 ^ places := by
          gcongr
          exact Nat.lt_log2_self
      _ = 2 ^ (n.log2 + 1 + places) := (Nat.pow_add _ _ _).symm
      _ ≤ 2 ^ 53 := Nat.pow_le_pow_right (by decide) (by omega)
  · by_cases hroom : unit - places = -1074
    · exact .inr hroom
    · left
      calc 2 ^ 52 = 2 ^ (n.log2 + places) := by congr 1; omega
        _ = 2 ^ n.log2 * 2 ^ places := Nat.pow_add _ _ _
        _ ≤ n * 2 ^ places := Nat.mul_le_mul_right _ (Nat.log2_self_le hn.ne')

/-- Every number that is not negative has a nearest natural number, an even one at a midpoint. -/
theorem exists_nearest_natural {x : ℚ} (hx : 0 ≤ x) : ∃ q : Nat,
    2 * q - 1 ≤ 2 * x ∧ 2 * x ≤ 2 * q + 1 ∧
      (q % 2 = 1 → 2 * q - 1 < 2 * x ∧ 2 * x < 2 * q + 1) := by
  have hfloor := Nat.floor_le hx
  have hsucc := Nat.lt_floor_add_one x
  generalize ⌊x⌋₊ = k at hfloor hsucc
  obtain hlt | heq | hgt := lt_trichotomy (2 * x) (2 * k + 1)
  · exact ⟨k, by linarith, hlt.le, fun _ => ⟨by linarith, hlt⟩⟩
  · obtain heven | hodd := Nat.mod_two_eq_zero_or_one k
    · exact ⟨k, by linarith, heq.le, fun hodd => by omega⟩
    · refine ⟨k + 1, ?_, ?_, fun hodd' => by omega⟩ <;> push_cast <;> linarith
  · refine ⟨k + 1, ?_, ?_, fun _ => ⟨?_, ?_⟩⟩ <;> push_cast <;> linarith

/-- A number of fifty-three bits before the point is nearest to its nearest natural number. -/
theorem nearest_of_rounded {x : ℚ} {q : Nat} {t : Int} (hbelow : 2 * q - 1 ≤ 2 * x)
    (habove : 2 * x ≤ 2 * q + 1) (hodd : q % 2 = 1 → 2 * q - 1 < 2 * x ∧ 2 * x < 2 * q + 1)
    (hfull : t = -1074 ∨ 2 ^ 52 ≤ x) : Nearest q t (x * 2 ^ t) := by
  have hunit : (0 : ℚ) < 2 ^ (t - 2) := by positivity
  have hscale : x * 2 ^ t = 4 * x * 2 ^ (t - 2) := by
    rw [two_zpow_eq_quarters]
    ring
  rw [hscale]
  constructor
  · refine mul_le_mul_of_nonneg_right ?_ hunit.le
    unfold Decimal.lowerGap
    split
    · next hpower =>
      have hfull := hfull.resolve_left (by omega)
      rw [hpower.1]
      push_cast
      linarith
    · push_cast
      linarith
  · exact mul_le_mul_of_nonneg_right (by linarith) hunit.le
  · intro hmod
    have hgap : Decimal.lowerGap q t = 2 := by
      unfold Decimal.lowerGap
      refine if_neg fun hpower => ?_
      rw [hpower.1] at hmod
      exact absurd hmod (by decide)
    obtain ⟨hbelow, habove⟩ := hodd hmod
    rw [hgap]
    push_cast
    exact ⟨mul_lt_mul_of_pos_right (by linarith) hunit,
      mul_lt_mul_of_pos_right (by linarith) hunit⟩

/-- A number that needs a fifty-fourth bit once rounded is nearest to that power of two. -/
theorem nearest_of_carry {x : ℚ} {t : Int} (hbelow : 2 ^ 54 - 1 ≤ 2 * x) (habove : x < 2 ^ 53)
    (hleast : -1074 ≤ t) : Nearest (2 ^ 52) (t + 1) (x * 2 ^ t) := by
  have hunit : (0 : ℚ) < 2 ^ (t + 1 - 2) := by positivity
  have hpow : (2 : ℚ) ^ t = 2 ^ 1 * 2 ^ (t + 1 - 2) := two_zpow_eq (by omega)
  have hscale : x * 2 ^ t = 2 * x * 2 ^ (t + 1 - 2) := by
    rw [hpow]
    ring
  have hgap : Decimal.lowerGap (2 ^ 52) (t + 1) = 1 := if_pos ⟨rfl, by omega⟩
  rw [hscale]
  refine ⟨mul_le_mul_of_nonneg_right ?_ hunit.le, mul_le_mul_of_nonneg_right ?_ hunit.le,
    fun hmod => absurd hmod (by decide)⟩
  · rw [hgap]
    push_cast
    linarith
  · push_cast
    linarith

/-- A number within the range of the doubles has a number of units at the exponent that gives it
fifty-three bits, or at the least exponent. -/
theorem exists_units {v : ℚ} (hleast : (2 : ℚ) ^ (-1074 : Int) ≤ v)
    (hgreatest : v ≤ (2 ^ 53 - 1) * 2 ^ (971 : Int)) :
    ∃ (x : ℚ) (t : Int), v = x * 2 ^ t ∧ -1074 ≤ t ∧ t ≤ 971 ∧ 1 ≤ x ∧ x < 2 ^ 53 ∧
      (t = -1074 ∨ 2 ^ 52 ≤ x) := by
  have hpos : 0 < v := lt_of_lt_of_le (by positivity) hleast
  obtain ⟨n, hlow, hhigh⟩ := exists_mem_Ico_zpow hpos (by norm_num : (1 : ℚ) < 2)
  obtain ⟨t, ht⟩ : ∃ t, t = max (n - 52) (-1074) := ⟨_, rfl⟩
  have hunit : (0 : ℚ) < 2 ^ t := by positivity
  obtain ⟨x, hx⟩ : ∃ x, x = v / 2 ^ t := ⟨_, rfl⟩
  obtain rfl : v = x * 2 ^ t := by rw [hx, div_mul_cancel₀ _ hunit.ne']
  have hupper : x < 2 ^ 53 := by
    have hpow : (2 : ℚ) ^ (t + 53) = 2 ^ 53 * 2 ^ t := two_zpow_eq (by omega)
    have hlt := hhigh.trans_le (two_zpow_le (b := t + 53) (by omega))
    rw [hpow] at hlt
    exact lt_of_mul_lt_mul_right hlt hunit.le
  have hlower : t = -1074 ∨ 2 ^ 52 ≤ x := by
    by_cases heq : t = -1074
    · exact .inl heq
    · have hpow : (2 : ℚ) ^ n = 2 ^ 52 * 2 ^ t := two_zpow_eq (by omega)
      rw [hpow] at hlow
      exact .inr (le_of_mul_le_mul_right hlow hunit)
  have hone : 1 ≤ x := by
    obtain rfl | hfull := hlower
    · exact le_of_mul_le_mul_right (by simpa using hleast) hunit
    · exact le_trans (by norm_num) hfull
  have hbound : x * 2 ^ t < 2 ^ (1024 : Int) := by
    have hpow : (2 : ℚ) ^ (1024 : Int) = 2 ^ 53 * 2 ^ (971 : Int) := two_zpow_eq (by omega)
    rw [hpow]
    exact hgreatest.trans_lt (mul_lt_mul_of_pos_right (by norm_num) (by positivity))
  have hn := (zpow_lt_zpow_iff_right₀ (by norm_num : (1 : ℚ) < 2)).1 (hlow.trans_lt hbound)
  exact ⟨x, t, rfl, by omega, by omega, hone, hupper, hlower⟩

/-- Every number between the least and the greatest double is nearest to some double. -/
theorem exists_nearest {v : ℚ} (hleast : (2 : ℚ) ^ (-1074 : Int) ≤ v)
    (hgreatest : v ≤ (2 ^ 53 - 1) * 2 ^ (971 : Int)) :
    ∃ m e, Canonical m e ∧ Nearest m e v := by
  obtain ⟨x, t, rfl, hleast, hexponent, hone, hupper, hlower⟩ := exists_units hleast hgreatest
  have hunit : (0 : ℚ) < 2 ^ t := by positivity
  obtain ⟨q, hbelow, habove, hodd⟩ := exists_nearest_natural (zero_le_one.trans hone)
  have hq : q ≤ 2 ^ 53 := by
    have hlt : (q : ℚ) < (2 ^ 53 + 1 : Nat) := by
      push_cast
      linarith
    exact Nat.le_of_lt_succ (Nat.cast_lt.1 hlt)
  by_cases hcarry : q = 2 ^ 53
  · rw [hcarry] at hbelow
    push_cast at hbelow
    -- At the greatest exponent the carry would take the number past the greatest double.
    have hne : t ≠ 971 := by
      rintro rfl
      have hle := le_of_mul_le_mul_right hgreatest hunit
      linarith only [hbelow, hle]
    refine ⟨2 ^ 52, t + 1, ⟨by decide, by decide, by omega, by omega, .inl le_rfl⟩, ?_⟩
    exact nearest_of_carry (by linarith) hupper (by omega)
  · refine ⟨q, t, ⟨?_, by omega, by omega, hexponent, ?_⟩,
      nearest_of_rounded hbelow habove hodd hlower⟩
    · have hlt : (0 : ℚ) < q := by linarith
      exact Nat.cast_pos.1 hlt
    · refine hlower.symm.imp_left fun hfull => ?_
      have hlt : ((2 ^ 52 : Nat) : ℚ) < (q + 1 : Nat) := by
        push_cast
        linarith
      exact Nat.le_of_lt_succ (Nat.cast_lt.1 hlt)

end Calculator.Binary64
