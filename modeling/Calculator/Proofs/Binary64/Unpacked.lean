import Mathlib
import Calculator.Binary64.Basic

/-!
# Doubles and their parts

A double is a sign, an exponent and a mantissa in sixty-four bits. Unpacking reads the number off
these parts and packing puts it back, so that no two doubles unpack to the same number. A finite
number that a double unpacks to is canonical: its mantissa has fifty-three bits, or the exponent
is the least one.
-/

namespace Calculator.Binary64

open Float.Model (UnpackedFloat Format)
open Float.Model.UnpackedFloat

/-- A mantissa has fifty-three bits with the implicit one. -/
theorem mantissaBits_binary64 : Format.binary64.mantissaBits = 53 := rfl

/-- The number of the three parts of a double. -/
def ofParts (sign : BitVec 1) (exponent : BitVec 11) (mantissa : BitVec 52) : UnpackedFloat :=
  if exponent = -1#11 then
    if mantissa = 0#52 then .infinity (.ofBitVec sign) else .notANumber
  else if exponent = 0#11 then
    if h : mantissa = 0#52 then .zero (.ofBitVec sign)
    else
      .finite (.ofBitVec sign) mantissa.toNat ((exponent.toNat : Int) - 1075 + 1)
        (by simpa [BitVec.toNat_pos, BitVec.pos_iff_ne_zero])
  else .finite (.ofBitVec sign) (2 ^ 52 + mantissa.toNat) ((exponent.toNat : Int) - 1075) (by omega)

/-- The mantissa of a normal double has fifty-three bits. -/
theorem toNat_implicit (mantissa : BitVec 52) :
    (1#1 ++ mantissa).toNat = 2 ^ 52 + mantissa.toNat := by
  have hlt := mantissa.isLt
  rw [BitVec.toNat_append, ← Nat.shiftLeft_add_eq_or_of_lt hlt]
  rfl

/-- Unpacking reads the number off the parts. -/
theorem unpack_eq_ofParts (b : BitVec Format.binary64.numBits) :
    UnpackedFloat.unpack .binary64 b =
      ofParts (unpackSign b) (unpackExponent b) (unpackMantissa b) := by
  rw [UnpackedFloat.unpack, ofParts]
  simp only [toNat_implicit]
  rfl

/-- Unpacking packed parts gives the number of the parts. -/
theorem unpack_packComponents (sign exponent mantissa) :
    UnpackedFloat.unpack .binary64 (packComponents .binary64 sign exponent mantissa) =
      ofParts sign.toBitVec exponent mantissa := by
  rw [unpack_eq_ofParts, unpackSign_packComponents, unpackExponent_packComponents,
    unpackMantissa_packComponents]

/-- Unpacking the number of some parts once packed gives it back. -/
theorem unpack_pack_ofParts (sign : BitVec 1) (exponent : BitVec 11) (mantissa : BitVec 52) :
    UnpackedFloat.unpack .binary64 (UnpackedFloat.pack .binary64 (ofParts sign exponent mantissa)) =
      ofParts sign exponent mantissa := by
  have hparts := unpack_packComponents (.ofBitVec sign) exponent mantissa
  rw [Sign.toBitVec_ofBitVec] at hparts
  rw [← hparts, UnpackedFloat.pack_unpack]
  split
  · next hundefined =>
    rw [isNaNBits, decide_eq_true_eq] at hundefined
    rw [unpack_packedNaN, unpack_eq_ofParts, ofParts, if_pos hundefined.1, if_neg hundefined.2]
  · rfl

/-- A double is the packed form of its number. -/
theorem pack_unpack (x : Float) : Float.ofModel (.pack x.toModel.unpack) = x :=
  Float.toBits_inj.1 (UInt64.toBitVec_inj.1 (pack_unpack_of_valid x.toModel.valid))

/-- Doubles of the same number are the same. -/
theorem eq_of_unpack_eq {x y : Float} (h : x.toModel.unpack = y.toModel.unpack) : x = y := by
  rw [← pack_unpack x, h, pack_unpack]

/-- The parts of a negated number have the other sign. -/
theorem neg_ofParts (sign : BitVec 1) (exponent : BitVec 11) (mantissa : BitVec 52) :
    (ofParts sign exponent mantissa).neg = ofParts (~~~sign) exponent mantissa := by
  have hsign : -Sign.ofBitVec sign = .ofBitVec (~~~sign) := by
    obtain rfl | rfl := BitVec.eq_zero_or_eq_one sign <;> rfl
  by_cases hmax : exponent = -1#11
  · by_cases hzero : mantissa = 0#52 <;> simp [ofParts, UnpackedFloat.neg, hmax, hzero, hsign]
  · by_cases hmin : exponent = 0#11
    · by_cases hzero : mantissa = 0#52 <;>
        simp [ofParts, UnpackedFloat.neg, hmin, hzero, hsign]
    · simp only [ofParts, UnpackedFloat.neg, if_neg hmax, if_neg hmin, hsign]

/-- The number of a negated double is the negated number. -/
theorem unpack_neg (x : Float) : (-x).toModel.unpack = x.toModel.unpack.neg := by
  have hneg : (-x).toModel.unpack =
      UnpackedFloat.unpack .binary64 (UnpackedFloat.pack .binary64 x.toModel.unpack.neg) := rfl
  obtain ⟨sign, exponent, mantissa, hparts⟩ :
      ∃ sign exponent mantissa, x.toModel.unpack = ofParts sign exponent mantissa :=
    ⟨_, _, _, unpack_eq_ofParts x.toModel.toBits.toBitVec⟩
  rw [hneg, hparts, neg_ofParts, unpack_pack_ofParts]

/-- A mantissa and an exponent as doubles store them. -/
structure Canonical (mantissa : Nat) (exponent : Int) : Prop where
  pos : 0 < mantissa
  lt : mantissa < 2 ^ 53
  le_exponent : -1074 ≤ exponent
  exponent_le : exponent ≤ 971
  full_or_least : 2 ^ 52 ≤ mantissa ∨ exponent = -1074

/-- The mantissa and the exponent of the number of some parts are canonical. -/
theorem canonical_of_ofParts {sign : BitVec 1} {biased : BitVec 11} {fraction : BitVec 52}
    {sign' : Sign} {mantissa : Nat} {exponent : Int} {hpos : 0 < mantissa}
    (h : ofParts sign biased fraction = .finite sign' mantissa exponent hpos) :
    Canonical mantissa exponent := by
  have hfraction := fraction.isLt
  by_cases hmax : biased = -1#11
  · rw [ofParts, if_pos hmax] at h
    split at h <;> cases h
  · by_cases hmin : biased = 0#11
    · rw [ofParts, if_neg hmax, if_pos hmin] at h
      split at h
      · cases h
      · obtain ⟨-, rfl, rfl⟩ := UnpackedFloat.finite.inj h
        subst hmin
        exact ⟨hpos, by omega, by decide, by decide, .inr rfl⟩
    · rw [ofParts, if_neg hmax, if_neg hmin] at h
      obtain ⟨-, rfl, rfl⟩ := UnpackedFloat.finite.inj h
      have hbiased := biased.isLt
      have hle : biased.toNat ≠ 2047 := fun heq => hmax (BitVec.eq_of_toNat_eq heq)
      have hne : biased.toNat ≠ 0 := fun heq => hmin (BitVec.eq_of_toNat_eq heq)
      constructor <;> omega

/-- The mantissa and the exponent of a double are canonical. -/
theorem canonical_of_unpack {x : Float} {sign : Sign} {mantissa : Nat} {exponent : Int}
    {hpos : 0 < mantissa} (h : x.toModel.unpack = .finite sign mantissa exponent hpos) :
    Canonical mantissa exponent :=
  canonical_of_ofParts ((unpack_eq_ofParts x.toModel.toBits.toBitVec).symm.trans h)

/-- Every canonical mantissa and exponent are those of some parts. -/
theorem Canonical.exists_ofParts {mantissa : Nat} {exponent : Int} (h : Canonical mantissa exponent)
    (sign : BitVec 1) : ∃ biased fraction,
      ofParts sign biased fraction = .finite (.ofBitVec sign) mantissa exponent h.pos := by
  have hlt := h.lt
  have hle := h.le_exponent
  have hge := h.exponent_le
  by_cases hfull : 2 ^ 52 ≤ mantissa
  · have hbiased : (BitVec.ofNat 11 (exponent + 1075).toNat).toNat = (exponent + 1075).toNat := by
      rw [BitVec.toNat_ofNat]
      omega
    have hfraction : (BitVec.ofNat 52 (mantissa - 2 ^ 52)).toNat = mantissa - 2 ^ 52 := by
      rw [BitVec.toNat_ofNat]
      omega
    have hmax : BitVec.ofNat 11 (exponent + 1075).toNat ≠ -1#11 := by
      intro heq
      have hnat : (BitVec.ofNat 11 (exponent + 1075).toNat).toNat = 2047 := by rw [heq]; rfl
      omega
    have hmin : BitVec.ofNat 11 (exponent + 1075).toNat ≠ 0#11 := by
      intro heq
      have hnat : (BitVec.ofNat 11 (exponent + 1075).toNat).toNat = 0 := by rw [heq]; rfl
      omega
    refine ⟨BitVec.ofNat 11 (exponent + 1075).toNat, BitVec.ofNat 52 (mantissa - 2 ^ 52), ?_⟩
    rw [ofParts, if_neg hmax, if_neg hmin, UnpackedFloat.finite.injEq, hbiased, hfraction]
    exact ⟨rfl, by omega, by omega⟩
  · have hleast : exponent = -1074 := h.full_or_least.resolve_left hfull
    have hfraction : (BitVec.ofNat 52 mantissa).toNat = mantissa := by
      rw [BitVec.toNat_ofNat]
      omega
    have hzero : BitVec.ofNat 52 mantissa ≠ 0#52 := by
      intro heq
      have hnat : (BitVec.ofNat 52 mantissa).toNat = 0 := by rw [heq]; rfl
      have hpos := h.pos
      omega
    refine ⟨0#11, BitVec.ofNat 52 mantissa, ?_⟩
    rw [ofParts, if_neg (by decide), if_pos rfl, dif_neg hzero, UnpackedFloat.finite.injEq,
      hfraction, hleast]
    exact ⟨rfl, rfl, rfl⟩

/-- A double made from a canonical mantissa and exponent has them. -/
theorem Canonical.unpack_pack {mantissa : Nat} {exponent : Int} (h : Canonical mantissa exponent)
    (sign : Sign) :
    (Float.Model.pack (.finite sign mantissa exponent h.pos)).unpack =
      .finite sign mantissa exponent h.pos := by
  obtain ⟨biased, fraction, hparts⟩ := h.exists_ofParts sign.toBitVec
  have hsign : Sign.ofBitVec sign.toBitVec = sign := by cases sign <;> rfl
  rw [← hsign, ← hparts]
  exact unpack_pack_ofParts _ _ _

end Calculator.Binary64
