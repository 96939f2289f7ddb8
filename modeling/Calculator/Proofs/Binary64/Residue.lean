import Calculator.Evaluation.Operator
import Calculator.Proofs.Binary64.Laws
import Calculator.Proofs.Binary64.Remainder

/-!
# Residues of doubles

The residue of a double is its remainder or, if that is negative, the rounded sum of the remainder
and the modulus. So it is the double nearest to the exact residue. The exact residue lies below the
modulus, but if it is close enough to it, it is rounded up to the modulus.
-/

namespace Calculator.Binary64

open Float.Model (UnpackedFloat Format)
open Float.Model.UnpackedFloat

/-- The double is the one nearest to the number, and zero only if the number is. -/
def NearestTo (v : Float) (x : ℚ) : Prop :=
  match v.toModel.unpack with
  | .zero _ => x = 0
  | .finite .positive mantissa exponent _ => Nearest mantissa exponent x
  | .finite .negative mantissa exponent _ => Nearest mantissa exponent (-x)
  | _ => False

/-- A double is less than zero if its number is. -/
theorem lt_zero_iff {x : Float} : x < 0 ↔ x.toModel.unpack.lt (.zero .positive) = true :=
  lt_iff_unpack

/-- A double is zero or more if its number is. -/
theorem zero_le_iff {x : Float} :
    0 ≤ x ↔ (UnpackedFloat.zero .positive).le x.toModel.unpack = true :=
  decide_eq_true_iff

/-- A finite double that does not equal zero has a mantissa. -/
theorem exists_unpack_eq_finite {x : Float} (hfinite : x.isFinite = true)
    (hne : (x == 0) = false) : ∃ sign m e hm, x.toModel.unpack = .finite sign m e hm := by
  have hnumber : x.toModel.unpack.isFinite = true := hfinite
  cases hx : x.toModel.unpack with
  | notANumber | infinity =>
    rw [hx] at hnumber
    cases hnumber
  | zero sign =>
    rw [beq_zero_iff.2 ⟨sign, hx⟩] at hne
    cases hne
  | finite sign m e hm => exact ⟨sign, m, e, hm, rfl⟩

/-- The magnitude of a double has its number without the sign. -/
theorem unpack_abs {x : Float} {sign : Sign} {m : Nat} {e : Int} {hm : 0 < m}
    (h : x.toModel.unpack = .finite sign m e hm) :
    x.abs.toModel.unpack = .finite .positive m e hm := by
  have habs : x.abs.toModel.unpack =
      UnpackedFloat.unpack .binary64 (UnpackedFloat.pack .binary64 x.toModel.unpack.abs) := rfl
  rw [habs, h]
  exact (canonical_of_unpack h).unpack_pack .positive

/-- A remainder that is not negative is the residue. -/
theorem modulo_eq_remainder {x y : Float}
    (h : (remainder x y).toModel.unpack.lt (.zero .positive) = false) :
    modulo x y = remainder x y := by
  rw [modulo]
  exact if_neg (by rw [lt_zero_iff, h]; exact Bool.false_ne_true)

/-- The residue of a zero is that zero. -/
theorem modulo_zero {x y : Float} {sign sign' : Sign} {m' : Nat} {e' : Int} {hm' : 0 < m'}
    (hx : x.toModel.unpack = .zero sign) (hy : y.toModel.unpack = .finite sign' m' e' hm') :
    modulo x y = x := by
  have hremainder : remainder x y = x := by simp only [remainder, hx, hy]
  rw [modulo_eq_remainder (by rw [hremainder, hx]; rfl), hremainder]

/-- A negative remainder is moved up by the modulus, and the sum is rounded. -/
theorem exists_unpack_modulo {x y : Float} {sign' : Sign} {n m' : Nat} {k e' : Int} {hn : 0 < n}
    {hm' : 0 < m'} (hx : (remainder x y).toModel.unpack = .finite .negative n k hn)
    (hy : y.toModel.unpack = .finite sign' m' e' hm') (hlt : (n * 2 ^ k : ℚ) < m' * 2 ^ e') :
    ∃ n' k' hn', (modulo x y).toModel.unpack = .finite .positive n' k' hn' ∧
      Nearest n' k' (m' * 2 ^ e' - n * 2 ^ k) := by
  have hsum : modulo x y = remainder x y + y.abs := by
    rw [modulo]
    exact if_pos (lt_zero_iff.2 (by rw [hx]; rfl))
  have hadd : (modulo x y).toModel.unpack = UnpackedFloat.unpack .binary64
      (UnpackedFloat.pack .binary64 (UnpackedFloat.add .binary64
        (remainder x y).toModel.unpack y.abs.toModel.unpack)) := by
    rw [hsum]
    rfl
  obtain ⟨n', k', hcanonical, hrounded, hnearest⟩ :=
    exists_add_negative (canonical_of_unpack hx) (canonical_of_unpack hy) hlt
  rw [hx, unpack_abs hy, hrounded] at hadd
  exact ⟨n', k', hcanonical.pos, hadd.trans (hcanonical.unpack_pack .positive), hnearest⟩

/-- A residue is zero, or a positive double that is nearest to the exact residue. -/
theorem modulo_cases {x y : Float} {sign' : Sign} {m' : Nat} {e' : Int} {hm' : 0 < m'}
    (hx : x.isFinite = true) (hy : y.toModel.unpack = .finite sign' m' e' hm') :
    (∃ sign, (modulo x y).toModel.unpack = .zero sign ∧ residue (value x) (value y) = 0) ∨
      ∃ n k hn, (modulo x y).toModel.unpack = .finite .positive n k hn ∧
        Nearest n k (residue (value x) (value y)) := by
  have hne := value_ne_zero hy
  have hfinite : x.toModel.unpack.isFinite = true := hx
  cases hu : x.toModel.unpack with
  | notANumber | infinity =>
    rw [hu] at hfinite
    cases hfinite
  | zero sign =>
    have hvalue : value x = 0 := by simp only [value, hu]
    rw [modulo_zero hu hy, hvalue]
    exact .inl ⟨sign, hu, residue_eq_self le_rfl (abs_pos.2 hne)⟩
  | finite sign m e hm =>
    obtain ⟨hzero, hremainder⟩ | ⟨n, k, hn, hremainder, hvalue⟩ := unpack_remainder hu hy
    · left
      rw [modulo_eq_remainder (by rw [hremainder]; rfl)]
      refine ⟨sign, hremainder, ?_⟩
      cases sign with
      | positive => rw [value_positive hu, hzero]
      | negative => rw [value_negative hu, residue_neg_of_eq_zero hne hzero]
    · right
      cases sign with
      | positive =>
        rw [modulo_eq_remainder (by rw [hremainder]; rfl), value_positive hu, ← hvalue]
        exact ⟨n, k, hn, hremainder, nearest_self n k⟩
      | negative =>
        have hpos : (0 : ℚ) < n * 2 ^ k := by positivity
        have hnonzero : residue |value x| (value y) ≠ 0 := hvalue ▸ hpos.ne'
        have hlt : (n * 2 ^ k : ℚ) < m' * 2 ^ e' := by
          rw [hvalue, ← abs_value hy]
          exact residue_lt hne
        rw [value_negative hu, residue_neg_of_ne_zero hne hnonzero, abs_value hy, ← hvalue]
        exact exists_unpack_modulo hremainder hy hlt

/-- A double below the modulus is its own residue. -/
theorem modulo_eq_self {v y : Float} {sign' : Sign} {n m' : Nat} {k e' : Int} {hn : 0 < n}
    {hm' : 0 < m'} (hv : v.toModel.unpack = .finite .positive n k hn)
    (hy : y.toModel.unpack = .finite sign' m' e' hm') (hlt : (n * 2 ^ k : ℚ) < m' * 2 ^ e') :
    modulo v y = v := by
  have hpos : (0 : ℚ) < n * 2 ^ k := by positivity
  have hself : residue |value v| (value y) = n * 2 ^ k := by
    rw [abs_value hv]
    exact residue_eq_self hpos.le (by rwa [abs_value hy])
  obtain ⟨hzero, -⟩ | ⟨n', k', hn', hremainder, hvalue⟩ := unpack_remainder hv hy
  · exact absurd (hself.symm.trans hzero) hpos.ne'
  · rw [modulo_eq_remainder (by rw [hremainder]; rfl)]
    obtain ⟨rfl, rfl⟩ := (canonical_of_unpack hremainder).eq_of_value_eq (canonical_of_unpack hv)
      (hvalue.trans hself)
    exact eq_of_unpack_eq (hremainder.trans hv.symm)

/-- The residue of the magnitude of the modulus is zero. -/
theorem modulo_abs_self {y : Float} {sign' : Sign} {m' : Nat} {e' : Int} {hm' : 0 < m'}
    (hy : y.toModel.unpack = .finite sign' m' e' hm') : modulo y.abs y = 0 := by
  have habs : |value y.abs| = |value y| := by rw [abs_value (unpack_abs hy), abs_value hy]
  have hself := residue_self (value_ne_zero hy)
  obtain ⟨-, hremainder⟩ | ⟨n, k, hn, -, hvalue⟩ := unpack_remainder (unpack_abs hy) hy
  · rw [modulo_eq_remainder (by rw [hremainder]; rfl)]
    exact eq_of_unpack_eq hremainder
  · rw [habs, hself] at hvalue
    have hpos : (0 : ℚ) < n * 2 ^ k := by positivity
    exact absurd hvalue hpos.ne'

/-- The remainder operator returns the residue unless the modulus is zero. -/
theorem apply_mod (x : Float) {y : Float} (hne : (y == 0) = false) :
    Operator.mod.apply x y = .ok (modulo x y) := by
  rw [Operator.apply, hne]
  rfl

/-- The remainder operator returns a residue. Zero is refused as the modulus, and for finite
operands the result is the double nearest to the exact residue. It is not negative and below the
magnitude of the modulus, and then it is its own residue, unless it was rounded to this magnitude,
and then its residue is zero. -/
theorem apply_mod_nearestTo (x y : Float) :
    ((y == 0) = true → Operator.mod.apply x y = .error .moduloByZero) ∧
      (x.isFinite = true → y.isFinite = true → (y == 0) = false →
        ∃ v, Operator.mod.apply x y = .ok v ∧ NearestTo v (residue (value x) (value y)) ∧ 0 ≤ v ∧
          (v < y.abs ∧ Operator.mod.apply v y = .ok v ∨
            v = y.abs ∧ Operator.mod.apply v y = .ok 0)) := by
  refine ⟨fun hzero => by rw [Operator.apply, if_pos hzero], fun hx hy hne => ?_⟩
  obtain ⟨sign', m', e', hm', hy'⟩ := exists_unpack_eq_finite hy hne
  refine ⟨modulo x y, apply_mod x hne, ?_⟩
  rw [apply_mod _ hne]
  obtain ⟨sign, hv, hzero⟩ | ⟨n, k, hn, hv, hnearest⟩ := modulo_cases hx hy'
  · have hlt : modulo x y < y.abs := lt_iff_unpack.2 (by rw [hv, unpack_abs hy']; rfl)
    refine ⟨?_, zero_le_iff.2 (by rw [hv]; rfl), .inl ⟨hlt, by rw [modulo_zero hv hy']⟩⟩
    rw [NearestTo, hv]
    exact hzero
  · refine ⟨?_, zero_le_iff.2 (by rw [hv]; rfl), ?_⟩
    · rw [NearestTo, hv]
      exact hnearest
    · have hbelow := residue_lt (x := value x) (value_ne_zero hy')
      rw [abs_value hy'] at hbelow
      have hcanonical := canonical_of_unpack hv
      obtain hlt | heq :=
        (hnearest.le hcanonical (canonical_of_unpack hy') hbelow.le).lt_or_eq
      · exact .inl ⟨(lt_iff_of_unpack hv (unpack_abs hy')).2 hlt, by rw [modulo_eq_self hv hy' hlt]⟩
      · obtain ⟨rfl, rfl⟩ := hcanonical.eq_of_value_eq (canonical_of_unpack hy') heq
        have habs : modulo x y = y.abs := eq_of_unpack_eq (hv.trans (unpack_abs hy').symm)
        exact .inr ⟨habs, by rw [habs, modulo_abs_self hy']⟩

/-- Two is nearest to the residue of minus four modulo three. -/
theorem apply_mod_minusFour : Operator.mod.apply (-4 : Float) 3 = .ok 2 ∧
    NearestTo 2 (residue (value (-4)) (value 3)) := by
  have hmodulo : modulo (-4) 3 = 2 := by decide +kernel
  obtain ⟨v, hv, hnearest, -⟩ := (apply_mod_nearestTo (-4) 3).2
    (by decide +kernel) (by decide +kernel) (by decide +kernel)
  rw [apply_mod _ (by decide +kernel), hmodulo] at hv ⊢
  obtain rfl := Except.ok.inj hv
  exact ⟨rfl, hnearest⟩

/-- The residue of a number just below zero is rounded up to the modulus. -/
theorem not_forall_apply_mod_lt_abs :
    ¬∀ x y : Float, x.isFinite = true → y.isFinite = true → (y == 0) = false →
      ∃ v, Operator.mod.apply x y = .ok v ∧ 0 ≤ v ∧ v < y.abs := by
  have hmodulo : modulo (-1e-300) 1 = 1 := by decide +kernel
  have hirrefl : ¬(1 : Float) < (1 : Float).abs := by decide +kernel
  intro h
  obtain ⟨v, hv, -, hlt⟩ := h (-1e-300) 1 (by decide +kernel) (by decide +kernel)
    (by decide +kernel)
  rw [apply_mod _ (by decide +kernel), hmodulo] at hv
  obtain rfl := Except.ok.inj hv
  exact hirrefl hlt

end Calculator.Binary64
