import Calculator.Proofs.Binary64.Laws

/-!
# Signs of doubles

Products, quotients and decimals of numbers without a minus sign have none.
-/

namespace Calculator.Binary64

open Float.Model (UnpackedFloat Format)
open Float.Model.UnpackedFloat

/-- A number without a minus sign. -/
def Unsigned : UnpackedFloat → Prop
  | .notANumber => True
  | .infinity sign | .zero sign | .finite sign _ _ _ => sign = .positive

/-- A double has no minus sign if its number has none. -/
theorem isNegative_eq_false_iff {x : Float} :
    isNegative x = false ↔ Unsigned x.toModel.unpack := by
  have hsign (sign : Sign) : (sign == .negative) = false ↔ sign = .positive := by
    cases sign with
    | positive => exact ⟨fun _ => rfl, fun _ => rfl⟩
    | negative => exact ⟨nofun, nofun⟩
  unfold isNegative Unsigned
  cases x.toModel.unpack with
  | notANumber => simp
  | infinity sign => exact hsign sign
  | zero sign => exact hsign sign
  | finite sign => exact hsign sign

/-- A number without a minus sign is packed with a positive sign. -/
theorem exists_pack_eq {u : UnpackedFloat} (h : Unsigned u) : ∃ exponent mantissa,
    UnpackedFloat.pack .binary64 u = packComponents .binary64 .positive exponent mantissa := by
  cases u with
  | notANumber => exact ⟨_, _, rfl⟩
  | infinity sign =>
    obtain rfl : sign = .positive := h
    exact ⟨_, _, rfl⟩
  | zero sign =>
    obtain rfl : sign = .positive := h
    exact ⟨_, _, rfl⟩
  | finite sign mantissa exponent hpos =>
    obtain rfl : sign = .positive := h
    rw [UnpackedFloat.pack]
    simp only
    split
    · exact ⟨_, _, rfl⟩
    · split <;> exact ⟨_, _, rfl⟩

/-- The parts with a positive sign are those of a number without a minus sign. -/
theorem unsigned_ofParts (exponent : BitVec 11) (mantissa : BitVec 52) :
    Unsigned (ofParts 0#1 exponent mantissa) := by
  unfold ofParts
  split
  · split
    · rfl
    · trivial
  · split
    · split <;> rfl
    · rfl

/-- The double of a number without a minus sign has none. -/
theorem isNegative_pack {u : UnpackedFloat} (h : Unsigned u) :
    isNegative (.ofModel (.pack u)) = false := by
  obtain ⟨exponent, mantissa, hpack⟩ := exists_pack_eq h
  have hunpack : (Float.Model.pack u).unpack = ofParts 0#1 exponent mantissa :=
    (congrArg (UnpackedFloat.unpack .binary64) hpack).trans
      (unpack_packComponents .positive exponent mantissa)
  rw [isNegative_eq_false_iff, hunpack]
  exact unsigned_ofParts exponent mantissa

/-- Rounding keeps a positive sign. -/
theorem unsigned_roundWithAccuracy (mantissa : Nat) (exponent : Int) (accuracy : Accuracy) :
    Unsigned (roundWithAccuracy .binary64 .positive mantissa exponent accuracy) := by
  unfold roundWithAccuracy
  simp only
  split <;> rfl

/-- A product of numbers without a minus sign has none. -/
theorem Unsigned.mul {u v : UnpackedFloat} (hu : Unsigned u) (hv : Unsigned v) :
    Unsigned (UnpackedFloat.mul .binary64 u v) := by
  have hsign {s s' : Sign} (hs : s = .positive) (hs' : s' = .positive) : s * s' = .positive := by
    rw [hs, hs']
    rfl
  cases u with
  | notANumber => trivial
  | infinity sign =>
    cases v with
    | infinity => exact hsign hu hv
    | finite => exact hsign hu hv
    | _ => trivial
  | zero sign =>
    cases v with
    | zero => exact hsign hu hv
    | finite => exact hsign hu hv
    | _ => trivial
  | finite sign m e hm =>
    cases v with
    | notANumber => trivial
    | infinity => exact hsign hu hv
    | zero => exact hsign hu hv
    | finite sign' m' e' hm' =>
      rw [UnpackedFloat.mul, hsign hu hv]
      exact unsigned_roundWithAccuracy _ _ _

/-- A quotient of numbers without a minus sign has none. -/
theorem Unsigned.div {u v : UnpackedFloat} (hu : Unsigned u) (hv : Unsigned v) :
    Unsigned (UnpackedFloat.div .binary64 u v) := by
  have hsign {s s' : Sign} (hs : s = .positive) (hs' : s' = .positive) : s / s' = .positive := by
    rw [hs, hs']
    rfl
  cases u with
  | notANumber => trivial
  | infinity sign =>
    cases v with
    | zero => exact hsign hu hv
    | finite => exact hsign hu hv
    | _ => trivial
  | zero sign =>
    cases v with
    | infinity => exact hsign hu hv
    | finite => exact hsign hu hv
    | _ => trivial
  | finite sign m e hm =>
    cases v with
    | notANumber => trivial
    | infinity => exact hsign hu hv
    | zero => exact hsign hu hv
    | finite sign' m' e' hm' =>
      rw [UnpackedFloat.div, hsign hu hv]
      exact unsigned_roundWithAccuracy _ _ _

/-- A natural number has no minus sign. -/
theorem unsigned_ofNat (n : Nat) : Unsigned (UnpackedFloat.ofNat .binary64 n) := by
  rw [UnpackedFloat.ofNat, UnpackedFloat.ofInt, UnpackedFloat.normalize]
  obtain heq | hgt := Nat.eq_zero_or_pos n
  · rw [heq]
    rfl
  · have hcompare : compare (n : Int) 0 = .gt := Int.compare_eq_gt.2 (by omega)
    rw [hcompare]
    exact unsigned_roundWithAccuracy _ _ _

/-- A decimal in scientific notation has no minus sign. -/
theorem unsigned_ofScientific (n : Nat) (e : Int) :
    Unsigned (UnpackedFloat.ofScientific .binary64 n e) := by
  have hfinite (m : Nat) (e : Int) (hm : 0 < m) : Unsigned (.finite .positive m e hm) := rfl
  unfold UnpackedFloat.ofScientific
  split
  · rfl
  · split
    · rfl
    · split
      · rfl
      · split
        · exact (hfinite _ _ _).mul (hfinite _ _ _)
        · exact (hfinite _ _ _).div (hfinite _ _ _)

/-- The double of a decimal in scientific notation has no minus sign. -/
theorem isNegative_ofScientific (n : Nat) (sign : Bool) (places : Nat) :
    isNegative (Float.ofScientific n sign places) = false := by
  have htable : ∀ k : Fin Float.exactlyRepresentablePowersOfTen.size,
      isNegative Float.exactlyRepresentablePowersOfTen[k.val] = false := by decide +kernel
  have hnatural : Unsigned n.toUInt64.toFloat.toModel.unpack :=
    isNegative_eq_false_iff.1 (isNegative_pack (unsigned_ofNat _))
  rw [Float.ofScientific]
  split
  · next hfast =>
    have hpower := isNegative_eq_false_iff.1 (htable ⟨places, Nat.lt_succ_of_le hfast.2⟩)
    simp only
    split
    · exact isNegative_pack (hnatural.div hpower)
    · exact isNegative_pack (hnatural.mul hpower)
  · exact isNegative_pack (unsigned_ofScientific _ _)

end Calculator.Binary64
