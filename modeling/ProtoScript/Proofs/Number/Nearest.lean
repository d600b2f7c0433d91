import Mathlib
import ProtoScript.Number.Binary

/-!
# The binary64 number nearest to an integer

Rounding an integer to a binary64 number loses bits at its end and never the first one, so the number
is zero only if the integer is.  The proof follows the conversion: a mantissa is shifted until it has
53 bits, rounded, and shifted again if rounding made it longer; then sign, exponent and mantissa are
packed into a word.  Mantissas that fit and exponents that are not too small survive the packing.
-/

namespace ProtoScript.Number

open Float.Model (Format totalExponent UnpackedFloat)
open Float.Model.UnpackedFloat (Accuracy ExtendedMantissa Sign packComponents
  roundWithAccuracy shiftToExponent shiftToTargetExponent)

/-! ## Shifting and rounding -/

/-- Shifting divides the mantissa by a power of two. -/
theorem mantissa_shiftRight (em : ExtendedMantissa) (n : Nat) :
    (em >>> n).mantissa = em.mantissa / 2 ^ n := by
  change (n.repeat ExtendedMantissa.shiftRightOne em).mantissa = em.mantissa / 2 ^ n
  induction n with
  | zero => simp [Nat.repeat]
  | succ n ih =>
    rw [Nat.repeat, ExtendedMantissa.shiftRightOne, ih, Nat.div_div_eq_div_mul, ← Nat.pow_succ]

/-- Rounding a mantissa does not make it smaller. -/
theorem le_roundedMantissa (em : ExtendedMantissa) : em.mantissa ≤ em.roundedMantissa := by
  unfold ExtendedMantissa.roundedMantissa Accuracy.roundToNearestEven
  split <;> omega

theorem mantissa_ofMantissaAndAccuracy (m : Nat) (a : Accuracy) :
    (ExtendedMantissa.ofMantissaAndAccuracy m a).mantissa = m := by
  unfold ExtendedMantissa.ofMantissaAndAccuracy
  split <;> rfl

/-- Shifting cuts a mantissa to 53 bits, as long as the exponent is not below the least one. -/
theorem shiftToTargetExponent_binary64 (m : Nat) {e : Int} (he : -1074 ≤ e) (a : Accuracy) :
    (shiftToTargetExponent .binary64 m e a).1.mantissa = m / 2 ^ (m.log2 - 52) ∧
      (shiftToTargetExponent .binary64 m e a).2 = e + (m.log2 - 52 : Nat) := by
  have hshift : (Format.binary64.targetExponent (totalExponent m e) - e).toNat = m.log2 - 52 := by
    simp only [Format.targetExponent, totalExponent, Format.mantissaBits, Format.minExponent]
    omega
  unfold shiftToTargetExponent shiftToExponent
  simp only [hshift, mantissa_shiftRight, mantissa_ofMantissaAndAccuracy, and_self]

/-- A mantissa that is shifted to 53 bits does not vanish. -/
theorem shifted_pos {m : Nat} (hm : 0 < m) : 0 < m / 2 ^ (m.log2 - 52) := by
  apply Nat.div_pos _ (Nat.two_pow_pos _)
  calc 2 ^ (m.log2 - 52) ≤ 2 ^ m.log2 := Nat.pow_le_pow_right (by omega) (by omega)
    _ ≤ m := Nat.log2_self_le (by omega)

/-- A mantissa that is shifted to 53 bits fits into them. -/
theorem shifted_lt (m : Nat) : m / 2 ^ (m.log2 - 52) < 2 ^ 53 := by
  rw [Nat.div_lt_iff_lt_mul (Nat.two_pow_pos _), ← Nat.pow_add]
  calc m < 2 ^ (m.log2 + 1) := Nat.lt_log2_self
    _ ≤ 2 ^ (53 + (m.log2 - 52)) := Nat.pow_le_pow_right (by omega) (by omega)

/-! ## Numbers that are packed without becoming zero -/

/-- Whether an unpacked number is zero. -/
def isZero : UnpackedFloat → Bool
  | .zero _ => true
  | _ => false

/-- A finite number has at most 53 bits and an exponent that binary64 has. -/
def Representable : UnpackedFloat → Prop
  | .finite _ m e _ => m < 2 ^ 53 ∧ -1074 ≤ e
  | _ => True

/-- Rounding a mantissa that is not zero leaves one that is not zero. -/
theorem roundWithAccuracy_of_pos {m : Nat} (hm : 0 < m) {e : Int} (he : -1074 ≤ e) (s : Sign)
    (a : Accuracy) :
    Representable (roundWithAccuracy .binary64 s m e a) ∧
      isZero (roundWithAccuracy .binary64 s m e a) = false := by
  obtain ⟨hmantissa, hexponent⟩ := shiftToTargetExponent_binary64 m he a
  rcases hfirst : shiftToTargetExponent .binary64 m e a with ⟨em, e₁⟩
  simp only [hfirst] at hmantissa hexponent
  have hrounded : 0 < em.roundedMantissa := by
    have hle := le_roundedMantissa em
    have hpos := shifted_pos hm
    omega
  have he₁ : -1074 ≤ e₁ := by omega
  obtain ⟨hmantissa₁, hexponent₁⟩ := shiftToTargetExponent_binary64 em.roundedMantissa he₁ .exact
  have hne := Nat.ne_of_gt (shifted_pos hrounded)
  unfold roundWithAccuracy
  simp only [hfirst, hmantissa₁, hexponent₁, hne, ↓reduceDIte]
  exact ⟨⟨shifted_lt _, by omega⟩, rfl⟩

/-- An integer that is not zero is rounded to a number that is not zero. -/
theorem ofNat_of_pos {n : Nat} (hn : 0 < n) :
    Representable (.ofNat .binary64 n) ∧ isZero (.ofNat .binary64 n) = false := by
  have hcompare : compare (n : Int) 0 = .gt := by
    rw [Int.compare_eq_gt]
    omega
  unfold UnpackedFloat.ofNat UnpackedFloat.ofInt UnpackedFloat.normalize
  rw [hcompare]
  unfold UnpackedFloat.round UnpackedFloat.decreaseExponent
  refine roundWithAccuracy_of_pos ?_ ?_ _ _
  · rw [Nat.shiftLeft_eq]
    exact Nat.mul_pos (by omega) (Nat.two_pow_pos _)
  · simp only [Format.targetExponent, totalExponent, Format.mantissaBits, Format.minExponent]
    omega

theorem representable_neg {x : UnpackedFloat} (hx : Representable x) : Representable x.neg := by
  cases x <;> exact hx

/-- The negative of a zero is a zero, and only that. -/
theorem isZero_neg (x : UnpackedFloat) : isZero x.neg = isZero x := by
  cases x <;> rfl

/-- A float is a zero if its exponent and mantissa are. -/
theorem isZero_unpack_packComponents (s : Sign) (e : BitVec 11) (m : BitVec 52) :
    isZero (.unpack .binary64 (packComponents .binary64 s e m)) = decide (e = 0#11 ∧ m = 0#52) := by
  unfold UnpackedFloat.unpack
  simp only [UnpackedFloat.unpackMantissa_packComponents, UnpackedFloat.unpackExponent_packComponents]
  split
  · rename_i he
    subst he
    split <;> simp [isZero]
  · split
    · split <;> simp_all [isZero]
    · simp_all [isZero]

/-- Packing a number that fits into a word keeps whether it is zero. -/
theorem isZero_unpack_pack {x : UnpackedFloat} (hx : Representable x) :
    isZero (Float.Model.pack x).unpack = isZero x := by
  change isZero (.unpack .binary64 (UnpackedFloat.pack .binary64 x)) = isZero x
  cases x with
  | infinity s => exact isZero_unpack_packComponents s _ _
  | notANumber => exact isZero_unpack_packComponents .positive _ _
  | zero s => exact isZero_unpack_packComponents s _ _
  | finite s m e hm =>
    obtain ⟨hlt, he⟩ := hx
    change isZero (.unpack .binary64 (UnpackedFloat.pack .binary64 (.finite s m e hm))) = false
    unfold UnpackedFloat.pack
    simp only
    split
    · exact isZero_unpack_packComponents s _ _
    · rename_i hsmall
      split
      · rw [isZero_unpack_packComponents, decide_eq_false_iff_not]
        rintro ⟨hexponent, -⟩
        rw [← BitVec.toNat_inj, BitVec.toNat_ofNat] at hexponent
        simp only [Format.exponentBias] at hexponent hsmall
        simp at hexponent hsmall
        omega
      · rename_i hlog
        rw [isZero_unpack_packComponents, decide_eq_false_iff_not]
        rintro ⟨-, hmantissa⟩
        have hlog' : m.log2 < 52 := by
          have hlt' : m.log2 < 53 := (Nat.log2_lt (by omega)).mpr hlt
          simp only [Format.mantissaBits] at hlog
          omega
        have hm' : m < 2 ^ 52 := (Nat.log2_lt (by omega)).mp hlog'
        rw [← BitVec.toNat_inj, BitVec.toNat_ofNat, Nat.mod_eq_of_lt hm'] at hmantissa
        simp at hmantissa
        omega

/-- What is read from a word fits into one. -/
theorem representable_unpack (b : BitVec Format.binary64.numBits) :
    Representable (.unpack .binary64 b) := by
  unfold UnpackedFloat.unpack
  simp only
  split
  · split <;> trivial
  · split
    · split
      · trivial
      · rename_i hexponent _
        refine ⟨?_, ?_⟩
        · exact Nat.lt_trans (BitVec.isLt _) (by decide)
        · simp [hexponent, Format.exponentBias]
    · rename_i hexponent
      refine ⟨BitVec.isLt _, ?_⟩
      have hpos : 0 < (UnpackedFloat.unpackExponent b).toNat := by
        rw [BitVec.toNat_pos, BitVec.pos_iff_ne_zero]
        exact hexponent
      simp only [Format.exponentBias]
      omega

/-! ## Comparing with zero -/

/-- What equals zero is a zero, of either sign. -/
theorem beq_zero (x : UnpackedFloat) (s : Sign) : x.beq (.zero s) = isZero x := by
  cases x with
  | infinity t => cases t <;> rfl
  | notANumber => rfl
  | zero t => rfl
  | finite t m e hm => cases t <;> rfl

theorem float_beq_zero (x : Float) : (x == 0.0) = isZero x.toModel.unpack :=
  beq_zero x.toModel.unpack .positive

/-- The negative of a float equals zero if the float does. -/
theorem neg_beq_zero (x : Float) : (-x == 0.0) = (x == 0.0) := by
  rw [float_beq_zero, float_beq_zero]
  calc isZero (Float.Model.pack x.toModel.unpack.neg).unpack
      = isZero x.toModel.unpack.neg := isZero_unpack_pack (representable_neg (representable_unpack _))
    _ = isZero x.toModel.unpack := isZero_neg _

/-- The float of a word equals zero if the word does. -/
theorem toFloat_beq_zero (n : UInt64) : (n.toFloat == 0.0) = (n == 0) := by
  rw [float_beq_zero]
  by_cases hn : n = 0
  · subst hn
    rfl
  · have hpos : 0 < n.toNat := by
      rw [Nat.pos_iff_ne_zero]
      intro hzero
      exact hn (UInt64.toNat_inj.mp hzero)
    obtain ⟨hrep, hzero⟩ := ofNat_of_pos hpos
    calc isZero (Float.Model.pack (.ofNat .binary64 n.toNat)).unpack
        = isZero (.ofNat .binary64 n.toNat) := isZero_unpack_pack hrep
      _ = (n == 0) := by rw [hzero, beq_eq_false_iff_ne.mpr hn]

/-- Only zero is converted to a binary64 number that equals zero. -/
theorem ofInt64_beq_zero (i : Int64) : (ofInt64 i == 0.0) = (i == 0) := by
  have hsize : (i.toInt.natAbs.toUInt64 == 0) = (i == 0) := by
    have hlow := i.le_toInt
    have hhigh := i.toInt_lt
    rw [Bool.eq_iff_iff, beq_iff_eq, beq_iff_eq, ← UInt64.toNat_inj, ← Int64.toInt_inj]
    simp only [Nat.toUInt64, UInt64.toNat_ofNat', UInt64.toNat_zero, Int64.toInt_zero]
    have hfits : i.toInt.natAbs % 2 ^ 64 = i.toInt.natAbs := by
      apply Nat.mod_eq_of_lt
      omega
    rw [hfits]
    exact Int.natAbs_eq_zero
  unfold ofInt64
  split
  · rw [neg_beq_zero, toFloat_beq_zero, hsize]
  · rw [toFloat_beq_zero, hsize]

end ProtoScript.Number
