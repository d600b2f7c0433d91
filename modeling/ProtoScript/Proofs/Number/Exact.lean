import Mathlib.Data.Rat.Floor
import Mathlib.Tactic.FieldSimp
import Mathlib.Tactic.Ring
import ProtoScript.Number.Checked

/-!
# Checked arithmetic is exact

The operations on words give the exact result if that is the value of a word, and otherwise nothing.  Sums,
differences, products and negations are defined that way.  The quotient and the remainder are corrected word
operations: what has to be seen is that the corrections lead from rounding toward zero to rounding to the
floor, and that none of the steps on the way leaves the range of the words.  The one pair for which the steps
do leave it is refused beforehand; its quotient is indeed no word, but its remainder is zero.
-/

namespace ProtoScript

namespace Number

/-! ## Definitions -/

/-- The integers that are values of words. -/
def Fits (i : Int) : Prop :=
  -2 ^ 63 ≤ i ∧ i < 2 ^ 63

/-- A checked result is the word with the value `i`, or nothing if there is no such word. -/
structure Exact (result : Option Int64) (i : Int) : Prop where
  some_iff : ∀ w : Int64, result = some w ↔ w.toInt = i
  none_iff : result = none ↔ ¬ Fits i

/-- The steps of a division of words have the values that they have for integers: the quotient and the
remainder toward zero, and the corrections that are made to them. -/
structure StepsFit (a b : Int64) : Prop where
  quotient : (a / b).toInt = a.toInt.tdiv b.toInt
  remainder : (a % b).toInt = a.toInt.tmod b.toInt
  lowered : a % b ≠ 0 → signsDiffer a b = true → (a / b - 1).toInt = (a / b).toInt - 1
  moved : a % b ≠ 0 → signsDiffer (a % b) b = true → (a % b + b).toInt = (a % b).toInt + b.toInt

/-! ## Words and their values -/

/-- What a word stands for fits into a word. -/
theorem fits_toInt (w : Int64) : Fits w.toInt :=
  ⟨w.le_toInt, w.toInt_lt⟩

/-- An integer that fits is what its word stands for. -/
theorem toInt_ofInt_of_fits {i : Int} (h : Fits i) : (Int64.ofInt i).toInt = i :=
  Int64.toInt_ofInt_of_le h.1 h.2

/-- A result with the value `i` is exact. -/
theorem exact_of_toInt {w : Int64} {i : Int} (h : w.toInt = i) : Exact (some w) i := by
  refine ⟨fun w' => ?_, ⟨nofun, fun hi => absurd (h ▸ fits_toInt w) hi⟩⟩
  rw [Option.some.injEq, ← Int64.toInt_inj, h]
  exact eq_comm

/-- No result is exact if no word has the value `i`. -/
theorem exact_none {i : Int} (h : ¬ Fits i) : Exact none i :=
  ⟨fun w => ⟨nofun, fun hw => absurd (hw ▸ fits_toInt w) h⟩, fun _ => h, fun _ => rfl⟩

/-- The word with the given value, if there is one, is exact. -/
theorem fit?_exact (i : Int) : Exact (fit? i) i := by
  have hiff : (Int64.minValue.toInt ≤ i ∧ i ≤ Int64.maxValue.toInt) ↔ Fits i := by
    have hlow : Int64.minValue.toInt = -2 ^ 63 := rfl
    have hhigh : Int64.maxValue.toInt = 2 ^ 63 - 1 := rfl
    unfold Fits
    omega
  unfold fit?
  by_cases hi : Fits i
  · rw [if_pos (hiff.mpr hi)]
    exact exact_of_toInt (toInt_ofInt_of_fits hi)
  · rw [if_neg fun h => hi (hiff.mp h)]
    exact exact_none hi

/-- A sum or a difference of words has the value of the sum or difference if that fits. -/
theorem toInt_add_of_fits {a b : Int64} (h : Fits (a.toInt + b.toInt)) :
    (a + b).toInt = a.toInt + b.toInt := by
  obtain ⟨hlow, hhigh⟩ := h
  rw [Int64.toInt_add, Int.bmod_eq_of_le_mul_two (by omega) (by omega)]

/-- A difference that fits is exact. -/
theorem toInt_sub_of_fits {a b : Int64} (h : Fits (a.toInt - b.toInt)) :
    (a - b).toInt = a.toInt - b.toInt := by
  obtain ⟨hlow, hhigh⟩ := h
  rw [Int64.toInt_sub, Int.bmod_eq_of_le_mul_two (by omega) (by omega)]

/-- Signs differ if just one of two words is negative. -/
theorem signsDiffer_iff (a b : Int64) :
    signsDiffer a b = true ↔ ¬ (a.toInt < 0 ↔ b.toInt < 0) := by
  simp [signsDiffer, Int64.lt_iff_toInt_lt]

theorem ne_zero_iff (a : Int64) : a ≠ 0 ↔ a.toInt ≠ 0 := by
  rw [ne_eq, ← Int64.toInt_inj]
  exact Iff.rfl

/-! ## Rounding to the floor -/

/-- What makes a remainder belong to the floor of a quotient: it lies between zero and the divisor, on the
divisor's side of zero. -/
def IsFloorRemainder (b r : Int) : Prop :=
  (0 ≤ r ∧ r < b) ∨ (b < r ∧ r ≤ 0)

/-- A floor remainder is zero or has the sign of the divisor. -/
theorem IsFloorRemainder.eq_zero_or_sign_eq {b : Int} {r : Int64} (h : IsFloorRemainder b r.toInt) :
    r = 0 ∨ r.toInt.sign = b.sign := by
  by_cases hr : r = 0
  · exact .inl hr
  · rw [← ne_eq, ne_zero_iff] at hr
    rcases h with ⟨hlow, hhigh⟩ | ⟨hlow, hhigh⟩
    · rw [Int.sign_eq_one_of_pos (by omega), Int.sign_eq_one_of_pos (by omega)]
      exact .inr rfl
    · rw [Int.sign_eq_neg_one_of_neg (by omega), Int.sign_eq_neg_one_of_neg (by omega)]
      exact .inr rfl

/-- A floor remainder is smaller than the divisor. -/
theorem IsFloorRemainder.abs_lt {b r : Int} (h : IsFloorRemainder b r) : |r| < |b| := by
  rcases h with ⟨hlow, hhigh⟩ | ⟨hlow, hhigh⟩
  · rw [abs_of_nonneg hlow, abs_of_pos (by omega)]
    exact hhigh
  · rw [abs_of_nonpos hhigh, abs_of_neg (by omega)]
    omega

/-- A quotient with such a remainder is the floor. -/
theorem floor_div_eq {a b q r : Int} (h : a = b * q + r) (hr : IsFloorRemainder b r) :
    ⌊(a : ℚ) / b⌋ = q := by
  have hb : (b : ℚ) ≠ 0 := by
    have : b ≠ 0 := by unfold IsFloorRemainder at hr; omega
    exact_mod_cast this
  have hquotient : (a : ℚ) / b = q + r / b := by
    rw [h]
    push_cast
    field_simp
  rw [hquotient, Int.floor_intCast_add, add_eq_left, Int.floor_eq_zero_iff]
  rcases hr with ⟨hlow, hhigh⟩ | ⟨hlow, hhigh⟩
  · have hpos : (0 : ℚ) < b := by exact_mod_cast (lt_of_le_of_lt hlow hhigh)
    refine ⟨div_nonneg (by exact_mod_cast hlow) hpos.le, ?_⟩
    rw [div_lt_one hpos]
    exact_mod_cast hhigh
  · have hneg : (b : ℚ) < 0 := by exact_mod_cast (lt_of_lt_of_le hlow hhigh)
    refine ⟨div_nonneg_of_nonpos (by exact_mod_cast hhigh) hneg.le, ?_⟩
    rw [div_lt_one_of_neg hneg]
    exact_mod_cast hlow

/-- The remainder toward zero is smaller than the divisor and has the sign of the dividend. -/
theorem tmod_bounds {a b : Int} (hb : b ≠ 0) :
    a = b * a.tdiv b + a.tmod b ∧ (a.tmod b).natAbs < b.natAbs ∧
      (0 < a.tmod b → 0 < a) ∧ (a.tmod b < 0 → a < 0) := by
  refine ⟨(Int.mul_tdiv_add_tmod a b).symm, ?_, ?_, ?_⟩
  · rw [Int.natAbs_tmod]
    exact Nat.mod_lt _ (Int.natAbs_pos.mpr hb)
  · intro hpos
    by_contra hneg
    have hneg' := Int.tmod_nonneg (a := -a) b (by omega)
    rw [Int.neg_tmod] at hneg'
    omega
  · intro hneg
    by_contra hpos
    have hpos' := Int.tmod_nonneg (a := a) b (by omega)
    omega

/-- A quotient by something other than one and its negation is at most half as large. -/
theorem natAbs_tdiv_le_half {a b : Int} (hb : 2 ≤ b.natAbs) :
    2 * (a.tdiv b).natAbs ≤ a.natAbs := by
  rw [Int.natAbs_tdiv]
  calc 2 * (a.natAbs / b.natAbs) ≤ b.natAbs * (a.natAbs / b.natAbs) := Nat.mul_le_mul_right _ hb
    _ ≤ a.natAbs := Nat.mul_div_le _ _

/-- The quotient of words that can be divided is the value of a word. -/
theorem fits_tdiv {a b : Int64} (hb : b.toInt ≠ 0)
    (hpair : ¬ (a.toInt = -2 ^ 63 ∧ b.toInt = -1)) : Fits (a.toInt.tdiv b.toInt) := by
  obtain ⟨hlow, hhigh⟩ := fits_toInt a
  by_cases hhalf : 2 ≤ b.toInt.natAbs
  · have hle := natAbs_tdiv_le_half (a := a.toInt) hhalf
    unfold Fits
    omega
  · rcases (by omega : b.toInt = 1 ∨ b.toInt = -1) with hone | hone
    · rw [hone, Int.tdiv_one]
      exact fits_toInt a
    · rw [hone, Int.tdiv_neg, Int.tdiv_one]
      unfold Fits
      omega

/-- What it means that a division of words does not fail. -/
theorem divisionFails_eq_false_iff (a b : Int64) :
    divisionFails a b = false ↔ b.toInt ≠ 0 ∧ ¬ (a.toInt = -2 ^ 63 ∧ b.toInt = -1) := by
  have hmin : a = Int64.minValue ↔ a.toInt = -2 ^ 63 := by
    rw [← Int64.toInt_inj]
    exact Iff.rfl
  have hone : b = -1 ↔ b.toInt = -1 := by
    rw [← Int64.toInt_inj]
    exact Iff.rfl
  simp only [divisionFails, Bool.or_eq_false_iff, Bool.and_eq_false_iff, beq_eq_false_iff_ne, ne_zero_iff,
    ne_eq, hmin, hone, not_and_or]

/-- If a division does not fail, none of its steps leaves the range of the words. -/
theorem stepsFit_of_divisionFails {a b : Int64} (h : divisionFails a b = false) : StepsFit a b := by
  obtain ⟨hb, hpair⟩ := (divisionFails_eq_false_iff a b).mp h
  have hfits := fits_tdiv hb hpair
  have hquotient : (a / b).toInt = a.toInt.tdiv b.toInt := by
    rw [Int64.toInt_div, Int.bmod_eq_of_le_mul_two (by have := hfits.1; omega) (by have := hfits.2; omega)]
  have hremainder : (a % b).toInt = a.toInt.tmod b.toInt := Int64.toInt_mod a b
  obtain ⟨hsum, hlt, hpos, hneg⟩ := tmod_bounds (a := a.toInt) hb
  have hfitsA := fits_toInt a
  have hfitsB := fits_toInt b
  refine ⟨hquotient, hremainder, fun hne _ => ?_, fun _ hdiffer => ?_⟩
  · -- the remainder is not zero, so the divisor is neither one nor its negation
    rw [ne_zero_iff, hremainder] at hne
    have hhalf : 2 ≤ b.toInt.natAbs := by omega
    have hle := natAbs_tdiv_le_half (a := a.toInt) hhalf
    refine toInt_sub_of_fits (b := 1) ?_
    rw [hquotient, Int64.toInt_one]
    unfold Fits at hfitsA ⊢
    omega
  · rw [signsDiffer_iff, hremainder] at hdiffer
    refine toInt_add_of_fits ?_
    rw [hremainder]
    unfold Fits at hfitsB ⊢
    omega

/-- A division that does not fail has a quotient and a remainder that belongs to the floor. -/
theorem exists_floor_division {a b : Int64} (h : divisionFails a b = false) :
    ∃ q r, floorDiv? a b = some q ∧ floorMod? a b = some r ∧
      a.toInt = b.toInt * q.toInt + r.toInt ∧ IsFloorRemainder b.toInt r.toInt := by
  obtain ⟨hb, -⟩ := (divisionFails_eq_false_iff a b).mp h
  obtain ⟨hquotient, hremainder, hlowered, hmoved⟩ := stepsFit_of_divisionFails h
  obtain ⟨hsum, hlt, hpos, hneg⟩ := tmod_bounds (a := a.toInt) hb
  rw [← hremainder] at hsum hlt hpos hneg
  rw [← hquotient] at hsum
  simp only [floorDiv?, floorMod?, h, Bool.false_eq_true, if_false, bne_iff_ne, Bool.and_eq_true]
  refine ⟨_, _, rfl, rfl, ?_⟩
  have hcorrected : (a % b ≠ 0 ∧ signsDiffer a b = true) ↔
      (a % b ≠ 0 ∧ signsDiffer (a % b) b = true) := by
    rw [signsDiffer_iff, signsDiffer_iff, ne_zero_iff]
    omega
  by_cases hcase : a % b ≠ 0 ∧ signsDiffer a b = true
  · have hcase' := hcorrected.mp hcase
    rw [if_pos hcase, if_pos hcase', hlowered hcase.1 hcase.2, hmoved hcase'.1 hcase'.2]
    have hdiffer := (signsDiffer_iff _ _).mp hcase'.2
    have hne := (ne_zero_iff _).mp hcase.1
    refine ⟨?_, ?_⟩
    · calc a.toInt = b.toInt * (a / b).toInt + (a % b).toInt := hsum
        _ = b.toInt * ((a / b).toInt - 1) + ((a % b).toInt + b.toInt) := by ring
    · unfold IsFloorRemainder
      omega
  · rw [if_neg hcase, if_neg fun hcase' => hcase (hcorrected.mpr hcase')]
    refine ⟨hsum, ?_⟩
    rw [signsDiffer_iff, ne_zero_iff] at hcase
    unfold IsFloorRemainder
    omega

/-! ## Exact quotients and remainders -/

/-- Floor division is exact. -/
theorem floorDiv?_exact {a b : Int64} (hb : b ≠ 0) :
    Exact (floorDiv? a b) ⌊(a.toInt : ℚ) / b.toInt⌋ := by
  rw [ne_zero_iff] at hb
  by_cases hpair : a.toInt = -2 ^ 63 ∧ b.toInt = -1
  · -- the quotient is one more than the largest word
    have hfails : divisionFails a b = true := by
      rw [← Bool.not_eq_false, divisionFails_eq_false_iff]
      exact fun h => h.2 hpair
    have hfloor : ⌊(a.toInt : ℚ) / b.toInt⌋ = 2 ^ 63 := by
      rw [hpair.1, hpair.2]
      norm_num
    have hnot : ¬ Fits (2 ^ 63) := by
      unfold Fits
      omega
    simp only [floorDiv?, hfails, if_true, hfloor]
    exact exact_none hnot
  · obtain ⟨q, r, hq, -, hsum, hr⟩ :=
      exists_floor_division ((divisionFails_eq_false_iff a b).mpr ⟨hb, hpair⟩)
    rw [hq, floor_div_eq hsum hr]
    exact exact_of_toInt rfl

/-- Division of words only fails for one pair of operands, besides a divisor of zero. -/
theorem divisionFails_eq_false_of_ne {a b : Int64} (hb : b ≠ 0)
    (hpair : ¬ (a = Int64.minValue ∧ b = -1)) : divisionFails a b = false := by
  simpa [divisionFails, hb] using fun h => hpair h

/-- The floor remainder is exact, but for one pair of operands. -/
theorem floorMod?_exact {a b : Int64} (hb : b ≠ 0) (hpair : ¬ (a = Int64.minValue ∧ b = -1)) :
    Exact (floorMod? a b) (a.toInt - b.toInt * ⌊(a.toInt : ℚ) / b.toInt⌋) := by
  obtain ⟨q, r, -, hr', hsum, hr⟩ :=
    exists_floor_division (divisionFails_eq_false_of_ne hb hpair)
  rw [hr', floor_div_eq hsum hr]
  refine exact_of_toInt ?_
  omega

end Number

end ProtoScript
