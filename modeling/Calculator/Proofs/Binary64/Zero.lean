import Calculator.Proofs.Binary64.Laws

/-!
# Zeros of doubles

A zero is neutral for addition up to its sign, and no operation of arithmetic but the division by a
zero tells the two zeros apart. So doubles that compare equal, or are both undefined, have results
that do.
-/

namespace Calculator.Binary64

open Float.Model (UnpackedFloat Format)
open Float.Model.UnpackedFloat

variable {x y x' y' : Float}

/-- Two doubles that compare equal, or are both undefined. -/
def Agree (x y : Float) : Prop :=
  (x == y) = true ∨ x.isNaN = true ∧ y.isNaN = true

instance Agree.decidable (x y : Float) : Decidable (Agree x y) :=
  inferInstanceAs (Decidable (_ ∨ _))

/-- The doubles that equal zero are zero with either sign. -/
theorem eq_zero_or_eq_neg_zero (h : (x == 0) = true) : x = 0 ∨ x = -0 := by
  obtain ⟨-, -, rfl | ⟨rfl, -⟩ | ⟨rfl, -⟩⟩ := Float.beq_iff_ne_nan_and_eq.1 h
  · exact .inl rfl
  · exact .inl rfl
  · exact .inr rfl

/-- What equals zero does not differ from it. -/
theorem bne_zero_of_beq (h : (x == 0) = true) : (x != 0) = false := by
  rw [bne, h]
  rfl

/-- What does not equal zero differs from it. -/
theorem bne_zero_of_beq_eq_false (h : (x == 0) = false) : (x != 0) = true := by
  rw [bne, h]
  rfl

/-- Two doubles agree if they are the same or both equal zero. -/
theorem agree_iff : Agree x y ↔ x = y ∨ (x == 0) = true ∧ (y == 0) = true := by
  have hzero : ((0 : Float) == 0) = true := by decide +kernel
  have hminus : ((-0 : Float) == 0) = true := by decide +kernel
  rw [Agree, Float.isNaN_eq_decide_eq_nan, Float.isNaN_eq_decide_eq_nan, decide_eq_true_eq,
    decide_eq_true_eq]
  constructor
  · rintro (h | ⟨rfl, rfl⟩)
    · obtain ⟨-, -, heq | ⟨rfl, rfl⟩ | ⟨rfl, rfl⟩⟩ := Float.beq_iff_ne_nan_and_eq.1 h
      · exact .inl heq
      · exact .inr ⟨hzero, hminus⟩
      · exact .inr ⟨hminus, hzero⟩
    · exact .inl rfl
  · rintro (rfl | ⟨hx, hy⟩)
    · by_cases hnan : x = Float.nan
      · exact .inr ⟨hnan, hnan⟩
      · exact .inl (Float.beq_self_iff.2 hnan)
    · left
      obtain rfl | rfl := eq_zero_or_eq_neg_zero hx <;>
        obtain rfl | rfl := eq_zero_or_eq_neg_zero hy <;> decide +kernel

/-- Every double agrees with itself. -/
theorem Agree.refl (x : Float) : Agree x x :=
  agree_iff.2 (.inl rfl)

/-- Two doubles that equal zero agree. -/
theorem Agree.of_zeros (hx : (x == 0) = true) (hy : (y == 0) = true) : Agree x y :=
  agree_iff.2 (.inr ⟨hx, hy⟩)

/-- What agrees with a double agrees with what that agrees with. -/
theorem Agree.trans {z : Float} (hxy : Agree x y) (hyz : Agree y z) : Agree x z := by
  obtain rfl | ⟨hx, hy⟩ := agree_iff.1 hxy
  · exact hyz
  · obtain rfl | ⟨-, hz⟩ := agree_iff.1 hyz
    · exact hxy
    · exact .of_zeros hx hz

/-- What agrees with a double that does not equal zero is that double. -/
theorem Agree.eq_of_ne (h : Agree x y) (hx : (x == 0) = false) : x = y := by
  obtain heq | ⟨hzero, -⟩ := agree_iff.1 h
  · exact heq
  · rw [hx] at hzero
    cases hzero

/-- Doubles that agree and are no negative zeros are the same. -/
theorem Agree.eq_of_ne_neg_zero (h : Agree x y) (hx : x ≠ -0) (hy : y ≠ -0) : x = y := by
  obtain heq | ⟨hxzero, hyzero⟩ := agree_iff.1 h
  · exact heq
  · rw [(eq_zero_or_eq_neg_zero hxzero).resolve_right hx,
      (eq_zero_or_eq_neg_zero hyzero).resolve_right hy]

/-- Of two doubles that agree both equal zero or none does. -/
theorem Agree.beq_zero_eq (h : Agree x y) : (x == 0) = (y == 0) := by
  obtain rfl | ⟨hx, hy⟩ := agree_iff.1 h
  · rfl
  · rw [hx, hy]

/-- A number that is a zero is packed to a double that equals zero. -/
theorem pack_zero_beq (sign : Sign) :
    (Float.ofModel (.pack (.zero sign)) == 0) = true := by
  cases sign <;> decide +kernel

section Neutral

/-- A zero on the left of a sum is neutral. -/
theorem zero_add (hx : (x == 0) = true) (hy : (y == 0) = false) : x + y = y := by
  obtain ⟨sign, hx⟩ := beq_zero_iff.1 hx
  have hsum : x + y = .ofModel (.pack (UnpackedFloat.add .binary64 (.zero sign)
      y.toModel.unpack)) := by rw [← hx]; rfl
  refine hsum.trans (Eq.trans ?_ (pack_unpack y))
  congr 2
  generalize hu : y.toModel.unpack = u
  cases u with
  | zero sign' =>
    rw [beq_zero_iff.2 ⟨sign', hu⟩] at hy
    cases hy
  | _ => rfl

/-- A zero on the right of a sum is neutral. -/
theorem add_zero (hx : (x == 0) = false) (hy : (y == 0) = true) : x + y = x := by
  obtain ⟨sign, hy⟩ := beq_zero_iff.1 hy
  have hsum : x + y = .ofModel (.pack (UnpackedFloat.add .binary64 x.toModel.unpack
      (.zero sign))) := by rw [← hy]; rfl
  refine hsum.trans (Eq.trans ?_ (pack_unpack x))
  congr 2
  generalize hu : x.toModel.unpack = u
  cases u with
  | zero sign' =>
    rw [beq_zero_iff.2 ⟨sign', hu⟩] at hx
    cases hx
  | _ => rfl

/-- A sum of zeros equals zero. -/
theorem zero_add_zero (hx : (x == 0) = true) (hy : (y == 0) = true) : (x + y == 0) = true := by
  obtain rfl | rfl := eq_zero_or_eq_neg_zero hx <;>
    obtain rfl | rfl := eq_zero_or_eq_neg_zero hy <;> decide +kernel

/-- A difference is the sum with the negated double. -/
theorem sub_eq_add_neg (x y : Float) : x - y = x + -y := by
  have happly (sign : Sign) (m : Nat) : (-sign).apply m = -sign.apply m := by
    cases sign with
    | positive => rfl
    | negative => exact (Int.neg_neg _).symm
  have hsum : x + -y = .ofModel (.pack (UnpackedFloat.add .binary64 x.toModel.unpack
      (-y).toModel.unpack)) := rfl
  rw [hsum, unpack_neg]
  have hdifference : x - y = .ofModel (.pack (UnpackedFloat.sub .binary64 x.toModel.unpack
      y.toModel.unpack)) := rfl
  rw [hdifference]
  congr 2
  cases x.toModel.unpack <;> cases y.toModel.unpack <;>
    simp [UnpackedFloat.add, UnpackedFloat.sub, UnpackedFloat.neg, happly, Int.sub_eq_add_neg]

/-- The negation of a double equals zero if the double does. -/
theorem neg_beq_zero (x : Float) : (-x == 0) = (x == 0) := by
  have hne := neg_bne_zero x
  rwa [bne, bne, Bool.not_inj_iff] at hne

end Neutral

section Congruence

/-- Sums of doubles that agree agree. -/
theorem Agree.add (hx : Agree x x') (hy : Agree y y') : Agree (x + y) (x' + y') := by
  obtain rfl | ⟨hx, hx'⟩ := agree_iff.1 hx
  · obtain rfl | ⟨hy, hy'⟩ := agree_iff.1 hy
    · exact .refl _
    · by_cases hzero : (x == 0) = true
      · exact .of_zeros (zero_add_zero hzero hy) (zero_add_zero hzero hy')
      · have hne := eq_false_of_ne_true hzero
        rw [add_zero hne hy, add_zero hne hy']
        exact .refl x
  · by_cases hzero : (y == 0) = true
    · exact .of_zeros (zero_add_zero hx hzero) (zero_add_zero hx' (hy.beq_zero_eq ▸ hzero))
    · have hne := eq_false_of_ne_true hzero
      obtain rfl := hy.eq_of_ne hne
      rw [zero_add hx hne, zero_add hx' hne]
      exact .refl y

/-- Negations of doubles that agree agree. -/
theorem Agree.neg (h : Agree x y) : Agree (-x) (-y) := by
  obtain rfl | ⟨hx, hy⟩ := agree_iff.1 h
  · exact .refl _
  · exact .of_zeros ((neg_beq_zero x).trans hx) ((neg_beq_zero y).trans hy)

/-- Differences of doubles that agree agree. -/
theorem Agree.sub (hx : Agree x x') (hy : Agree y y') : Agree (x - y) (x' - y') := by
  rw [sub_eq_add_neg, sub_eq_add_neg]
  exact hx.add hy.neg

/-- Products of two zeros with a double agree. -/
theorem zero_mul_agree (hx : (x == 0) = true) (hx' : (x' == 0) = true) (y : Float) :
    Agree (x * y) (x' * y) := by
  have hproduct {x : Float} {sign : Sign} (hx : x.toModel.unpack = .zero sign) : x * y =
      .ofModel (.pack (UnpackedFloat.mul .binary64 (.zero sign) y.toModel.unpack)) := by
    rw [← hx]
    rfl
  obtain ⟨sign, hx⟩ := beq_zero_iff.1 hx
  obtain ⟨sign', hx'⟩ := beq_zero_iff.1 hx'
  rw [hproduct hx, hproduct hx']
  cases y.toModel.unpack with
  | notANumber => exact .refl _
  | infinity => exact .refl _
  | zero => exact .of_zeros (pack_zero_beq _) (pack_zero_beq _)
  | finite => exact .of_zeros (pack_zero_beq _) (pack_zero_beq _)

/-- The factors of a product may be exchanged. -/
theorem mul_comm (x y : Float) : x * y = y * x := by
  have hsign (s s' : Sign) : s * s' = s' * s := by cases s <;> cases s' <;> rfl
  have hproduct (x y : Float) : x * y = .ofModel (.pack (UnpackedFloat.mul .binary64
      x.toModel.unpack y.toModel.unpack)) := rfl
  rw [hproduct, hproduct]
  congr 2
  cases x.toModel.unpack <;> cases y.toModel.unpack <;>
    simp [UnpackedFloat.mul, hsign, Nat.mul_comm, Int.add_comm]

/-- Products of doubles that agree agree. -/
theorem Agree.mul (hx : Agree x x') (hy : Agree y y') : Agree (x * y) (x' * y') := by
  have hleft {x x' : Float} (h : Agree x x') (y : Float) : Agree (x * y) (x' * y) := by
    obtain rfl | ⟨hx, hx'⟩ := agree_iff.1 h
    · exact .refl _
    · exact zero_mul_agree hx hx' y
  have hright : Agree (x' * y) (x' * y') := by
    rw [mul_comm x' y, mul_comm x' y']
    exact hleft hy x'
  exact (hleft hx y).trans hright

/-- Quotients of two zeros by a double agree. -/
theorem zero_div_agree (hx : (x == 0) = true) (hx' : (x' == 0) = true) (y : Float) :
    Agree (x / y) (x' / y) := by
  have hquotient {x : Float} {sign : Sign} (hx : x.toModel.unpack = .zero sign) : x / y =
      .ofModel (.pack (UnpackedFloat.div .binary64 (.zero sign) y.toModel.unpack)) := by
    rw [← hx]
    rfl
  obtain ⟨sign, hx⟩ := beq_zero_iff.1 hx
  obtain ⟨sign', hx'⟩ := beq_zero_iff.1 hx'
  rw [hquotient hx, hquotient hx']
  cases y.toModel.unpack with
  | notANumber => exact .refl _
  | infinity => exact .of_zeros (pack_zero_beq _) (pack_zero_beq _)
  | zero => exact .refl _
  | finite => exact .of_zeros (pack_zero_beq _) (pack_zero_beq _)

/-- Quotients of doubles that agree agree, unless the divisors equal zero. -/
theorem Agree.div (hx : Agree x x') (hy : Agree y y') (hne : (y == 0) = false) :
    Agree (x / y) (x' / y') := by
  obtain rfl := hy.eq_of_ne hne
  obtain rfl | ⟨hx, hx'⟩ := agree_iff.1 hx
  · exact .refl _
  · exact zero_div_agree hx hx' y

/-- Residues of doubles that agree agree, unless the moduli equal zero. -/
theorem Agree.modulo (hx : Agree x x') (hy : Agree y y') (hne : (y == 0) = false) :
    Agree (modulo x y) (modulo x' y') := by
  obtain rfl := hy.eq_of_ne hne
  obtain rfl | ⟨hx, hx'⟩ := agree_iff.1 hx
  · exact .refl _
  · cases hu : y.toModel.unpack with
    | finite | infinity =>
      have hself {x : Float} (hx : (x == 0) = true) : Binary64.modulo x y = x := by
        have hnonneg : ¬ x < 0 := by
          obtain rfl | rfl := eq_zero_or_eq_neg_zero hx <;> decide +kernel
        obtain ⟨sign, hx⟩ := beq_zero_iff.1 hx
        have hremainder : remainder x y = x := by rw [remainder, hx, hu]
        rw [Binary64.modulo, hremainder]
        exact if_neg hnonneg
      rw [hself hx, hself hx']
      exact .of_zeros hx hx'
    | notANumber | zero =>
      have hnan {x : Float} (hx : (x == 0) = true) : remainder x y = nan := by
        obtain ⟨sign, hx⟩ := beq_zero_iff.1 hx
        rw [remainder, hx, hu]
      rw [Binary64.modulo, Binary64.modulo, hnan hx, hnan hx']
      exact .refl _

/-- The doubles that equal zero are the natural number zero. -/
theorem natural?_of_beq_zero (hx : (x == 0) = true) : natural? x = some 0 := by
  obtain rfl | rfl := eq_zero_or_eq_neg_zero hx <;> decide +kernel

end Congruence

section Powers

/-- Powers by repeated squaring of bases that agree agree. -/
theorem Agree.powerOnto (hx : Agree x x') (hy : Agree y y') (n : Nat) :
    Agree (powerOnto x y n) (powerOnto x' y' n) := by
  induction n using Nat.strongRecOn generalizing x x' y y' with
  | ind n ih =>
    have hresult : Agree (if n % 2 = 1 then x * y else x) (if n % 2 = 1 then x' * y' else x') := by
      split
      · exact hx.mul hy
      · exact hx
    rw [Calculator.powerOnto.eq_def x, Calculator.powerOnto.eq_def x']
    by_cases hlast : n / 2 = 0
    · simpa only [dif_pos hlast] using hresult
    · simpa only [dif_neg hlast] using ih (n / 2) (by omega) hresult (hy.mul hy)

/-- Powers with exponents that agree are the same. -/
theorem Agree.pow_eq (h : Agree y y') (x : Float) : pow x y = pow x y' := by
  have hzero {y : Float} (hy : (y == 0) = true) : pow x y = power x 0 := by
    have hinteger : integer? y = some 0 := by
      obtain rfl | rfl := eq_zero_or_eq_neg_zero hy <;> decide +kernel
    rw [pow, hinteger]
    exact if_pos (Nat.zero_le _)
  obtain rfl | ⟨hy, hy'⟩ := agree_iff.1 h
  · rfl
  · rw [hzero hy, hzero hy']

/-- An exponent whose powers do not tell the two zeros apart: a whole number that is natural or
even, of a magnitude up to which powers are computed by repeated squaring. -/
def IgnoresSign (exponent : Float) : Prop :=
  ∃ n, integer? exponent = some n ∧ n.natAbs ≤ squaringLimit ∧ (0 ≤ n ∨ n % 2 = 0)

/-- Powers of bases that agree agree, if the exponent does not tell the two zeros apart. -/
theorem Agree.pow (hx : Agree x x') (hy : IgnoresSign y) : Agree (pow x y) (pow x' y) := by
  obtain ⟨n, hinteger, hlimit, hsign⟩ := hy
  obtain rfl | ⟨hzero, hzero'⟩ := agree_iff.1 hx
  · exact .refl _
  have hpower (x : Float) : Binary64.pow x y = power x n := by
    rw [Binary64.pow, hinteger]
    exact if_pos hlimit
  rw [hpower, hpower, power, power]
  split
  · next hneg =>
    -- the exponent is even, and the squares of the zeros are the same
    have hsquare : x * x = x' * x' := by
      obtain rfl | rfl := eq_zero_or_eq_neg_zero hzero <;>
        obtain rfl | rfl := eq_zero_or_eq_neg_zero hzero' <;> decide +kernel
    have heven : n.natAbs % 2 ≠ 1 := by omega
    have hhalf : n.natAbs / 2 ≠ 0 := by omega
    have honto (x : Float) : Calculator.powerOnto 1 x n.natAbs =
        Calculator.powerOnto 1 (x * x) (n.natAbs / 2) := by
      rw [Calculator.powerOnto]
      simp only [if_neg heven, dif_neg hhalf]
    rw [honto, honto, hsquare]
    exact .refl _
  · exact (Agree.refl 1).powerOnto hx _

end Powers

end Calculator.Binary64
