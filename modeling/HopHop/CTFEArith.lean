import Mathlib.Data.Int.Bitwise
import HopHop.CTFEEval

namespace HopHop

/-! The operations on 64-bit integers, read over the unbounded ones. -/

/-- The integers a 64-bit value can hold. -/
def FitsI64 (z : Int) : Prop := -2 ^ 63 ≤ z ∧ z < 2 ^ 63

instance (z : Int) : Decidable (FitsI64 z) := inferInstanceAs (Decidable (_ ∧ _))

theorem Int64.fits (a : Int64) : FitsI64 a.toInt := ⟨a.le_toInt, a.toInt_lt⟩

theorem overflowBuiltin_eq (exact : Int) :
    overflowBuiltin exact = if FitsI64 exact then some (Int64.ofInt exact) else none := by
  have same : (Int64.minValue.toInt ≤ exact ∧ exact ≤ Int64.maxValue.toInt) ↔ FitsI64 exact := by
    rw [Int64.toInt_minValue, Int64.toInt_maxValue, FitsI64]
    omega
  simp only [overflowBuiltin, same]

theorem toInt_ofInt_fits {z : Int} (fits : FitsI64 z) : (Int64.ofInt z).toInt = z :=
  Int64.toInt_ofInt_of_le fits.1 fits.2

theorem bmod_fits {z : Int} (fits : FitsI64 z) : z.bmod (2 ^ 64) = z :=
  Int.bmod_eq_of_le (by have := fits.1; omega) (by have := fits.2; omega)

theorem toInt_add_fits {a b : Int64} (fits : FitsI64 (a.toInt + b.toInt)) :
    (a + b).toInt = a.toInt + b.toInt := by
  rw [Int64.toInt_add, bmod_fits fits]

theorem toInt_sub_fits {a b : Int64} (fits : FitsI64 (a.toInt - b.toInt)) :
    (a - b).toInt = a.toInt - b.toInt := by
  rw [Int64.toInt_sub, bmod_fits fits]

theorem toInt_mul_fits {a b : Int64} (fits : FitsI64 (a.toInt * b.toInt)) :
    (a * b).toInt = a.toInt * b.toInt := by
  rw [Int64.toInt_mul, bmod_fits fits]

/-- What both forms of a checked operation come to. -/
theorem addI64_eq (hasBuiltin : Bool) (a b : Int64) :
    addI64 hasBuiltin a b = if FitsI64 (a.toInt + b.toInt) then some (a + b) else none := by
  have aFits := Int64.fits a
  have bFits := Int64.fits b
  cases hasBuiltin with
  | true =>
    simp only [addI64, if_true, overflowBuiltin_eq, Int64.ofInt_add, Int64.ofInt_toInt]
  | false =>
    have guard : ((0 < b ∧ Int64.maxValue - b < a) ∨ (b < 0 ∧ a < Int64.minValue - b)) ↔
        ¬ FitsI64 (a.toInt + b.toInt) := by
      have upper : 0 < b.toInt → (Int64.maxValue - b).toInt = 2 ^ 63 - 1 - b.toInt := by
        intro positive
        rw [toInt_sub_fits] <;> rw [Int64.toInt_maxValue]
        exact ⟨by have := bFits.2; omega, by omega⟩
      have lower : b.toInt < 0 → (Int64.minValue - b).toInt = -2 ^ 63 - b.toInt := by
        intro negative
        rw [toInt_sub_fits] <;> rw [Int64.toInt_minValue]
        exact ⟨by omega, by have := bFits.1; omega⟩
      simp only [Int64.lt_iff_toInt_lt, Int64.toInt_zero]
      unfold FitsI64 at *
      constructor
      · rintro (⟨positive, above⟩ | ⟨negative, below⟩)
        · rw [upper positive] at above; omega
        · rw [lower negative] at below; omega
      · intro out
        rcases Int.lt_trichotomy b.toInt 0 with negative | zero | positive
        · right; refine ⟨negative, ?_⟩; rw [lower negative]; omega
        · omega
        · left; refine ⟨positive, ?_⟩; rw [upper positive]; omega
    simp only [addI64, Bool.false_eq_true, if_false, guard, ite_not]

theorem subI64_eq (hasBuiltin : Bool) (a b : Int64) :
    subI64 hasBuiltin a b = if FitsI64 (a.toInt - b.toInt) then some (a - b) else none := by
  have aFits := Int64.fits a
  have bFits := Int64.fits b
  cases hasBuiltin with
  | true =>
    simp only [subI64, if_true, overflowBuiltin_eq, Int64.ofInt_sub, Int64.ofInt_toInt]
  | false =>
    have guard : ((0 < b ∧ a < Int64.minValue + b) ∨ (b < 0 ∧ Int64.maxValue + b < a)) ↔
        ¬ FitsI64 (a.toInt - b.toInt) := by
      have lower : 0 < b.toInt → (Int64.minValue + b).toInt = -2 ^ 63 + b.toInt := by
        intro positive
        rw [toInt_add_fits] <;> rw [Int64.toInt_minValue]
        exact ⟨by omega, by have := bFits.2; omega⟩
      have upper : b.toInt < 0 → (Int64.maxValue + b).toInt = 2 ^ 63 - 1 + b.toInt := by
        intro negative
        rw [toInt_add_fits] <;> rw [Int64.toInt_maxValue]
        exact ⟨by have := bFits.1; omega, by omega⟩
      simp only [Int64.lt_iff_toInt_lt, Int64.toInt_zero]
      unfold FitsI64 at *
      constructor
      · rintro (⟨positive, below⟩ | ⟨negative, above⟩)
        · rw [lower positive] at below; omega
        · rw [upper negative] at above; omega
      · intro out
        rcases Int.lt_trichotomy b.toInt 0 with negative | zero | positive
        · right; refine ⟨negative, ?_⟩; rw [upper negative]; omega
        · omega
        · left; refine ⟨positive, ?_⟩; rw [lower positive]; omega
    simp only [subI64, Bool.false_eq_true, if_false, guard, ite_not]

theorem toInt_max_div {b : Int64} : (Int64.maxValue / b).toInt = (2 ^ 63 - 1 : Int).tdiv b.toInt := by
  rw [Int64.toInt_div_of_ne_left _ _ (by decide), Int64.toInt_maxValue]

theorem toInt_min_div {b : Int64} (positive : 0 < b.toInt) :
    (Int64.minValue / b).toInt = -((2 ^ 63 : Int) / b.toInt) := by
  have different : b ≠ -1 := by
    intro same
    rw [same] at positive
    exact absurd positive (by decide)
  have split : (-2 ^ 63 : Int) = -(2 ^ 63 : Int) := rfl
  rw [Int64.toInt_div_of_ne_right _ _ different, Int64.toInt_minValue, split, Int.neg_tdiv,
    Int.tdiv_eq_ediv_of_nonneg (by decide)]

/-- The division tests of the portable multiplication, by the signs of the operands. -/
theorem mul_above {a b : Int} (positive : 0 < b) : (2 ^ 63 - 1 : Int).tdiv b < a ↔ 2 ^ 63 ≤ a * b := by
  rw [Int.tdiv_eq_ediv_of_nonneg (by decide), Int.ediv_lt_iff_lt_mul positive]
  omega

theorem mul_below {a b : Int} (positive : 0 < a) : b < -((2 ^ 63 : Int) / a) ↔ a * b < -2 ^ 63 := by
  have turned : b < -((2 ^ 63 : Int) / a) ↔ (2 ^ 63 : Int) / a < -b := by omega
  rw [turned, Int.ediv_lt_iff_lt_mul positive, Int.neg_mul, Int.mul_comm b a]
  omega

theorem mul_above_neg {a b : Int} (negative : a < 0) : b < (2 ^ 63 - 1 : Int).tdiv a ↔ 2 ^ 63 ≤ a * b := by
  have flipped : (2 ^ 63 - 1 : Int).tdiv a = -((2 ^ 63 - 1 : Int) / -a) := by
    rw [← Int.neg_neg a, Int.tdiv_neg, Int.tdiv_eq_ediv_of_nonneg (by decide), Int.neg_neg]
  have turned : b < -((2 ^ 63 - 1 : Int) / -a) ↔ (2 ^ 63 - 1 : Int) / -a < -b := by omega
  rw [flipped, turned, Int.ediv_lt_iff_lt_mul (by omega), Int.neg_mul_neg, Int.mul_comm b a]
  omega

theorem mul_pos_fits {a b : Int} (aPositive : 0 < a) (bPositive : 0 < b) : FitsI64 (a * b) ↔ ¬ 2 ^ 63 ≤ a * b := by
  have product := Int.mul_pos aPositive bPositive
  unfold FitsI64
  omega

theorem mul_neg_fits {a b : Int} (product : a * b < 0) : FitsI64 (a * b) ↔ ¬ a * b < -2 ^ 63 := by
  unfold FitsI64
  omega

theorem mulI64_eq (hasBuiltin : Bool) (a b : Int64) :
    mulI64 hasBuiltin a b = if FitsI64 (a.toInt * b.toInt) then some (a * b) else none := by
  cases hasBuiltin with
  | true =>
    simp only [mulI64, if_true, overflowBuiltin_eq, Int64.ofInt_mul, Int64.ofInt_toInt]
  | false =>
    by_cases aZero : a = 0
    · subst aZero
      simp [mulI64, FitsI64]
    by_cases bZero : b = 0
    · subst bZero
      simp [mulI64, FitsI64]
    have aNonzero : a.toInt ≠ 0 := fun zero => aZero (Int64.toInt_inj.mp zero)
    have bNonzero : b.toInt ≠ 0 := fun zero => bZero (Int64.toInt_inj.mp zero)
    simp only [mulI64, Bool.false_eq_true, if_false, aZero, bZero, or_self]
    by_cases aEdge : a = -1 ∧ b = Int64.minValue
    · obtain ⟨rfl, rfl⟩ := aEdge
      decide
    by_cases bEdge : b = -1 ∧ a = Int64.minValue
    · obtain ⟨rfl, rfl⟩ := bEdge
      decide
    simp only [if_neg aEdge, if_neg bEdge, Int64.lt_iff_toInt_lt, Int64.toInt_zero, toInt_max_div, ne_eq, aZero,
      not_false_iff, true_and]
    by_cases aPositive : 0 < a.toInt
    · by_cases bPositive : 0 < b.toInt
      · simp only [if_pos aPositive, if_pos bPositive, mul_above bPositive, mul_pos_fits aPositive bPositive, ite_not]
      · have bNegative : b.toInt < 0 := by omega
        have product := Int.mul_neg_of_pos_of_neg aPositive bNegative
        simp only [if_pos aPositive, if_neg bPositive, toInt_min_div aPositive, mul_below aPositive,
          mul_neg_fits product, ite_not]
    · have aNegative : a.toInt < 0 := by omega
      by_cases bPositive : 0 < b.toInt
      · have product := Int.mul_neg_of_neg_of_pos aNegative bPositive
        have swapped := mul_below (b := a.toInt) bPositive
        rw [Int.mul_comm] at swapped
        simp only [if_neg aPositive, if_pos bPositive, toInt_min_div bPositive, swapped, mul_neg_fits product, ite_not]
      · have bNegative : b.toInt < 0 := by omega
        have product := Int.mul_pos_of_neg_of_neg aNegative bNegative
        have fits : FitsI64 (a.toInt * b.toInt) ↔ ¬ 2 ^ 63 ≤ a.toInt * b.toInt := by
          unfold FitsI64
          omega
        simp only [if_neg aPositive, if_neg bPositive, mul_above_neg aNegative, fits, ite_not]

theorem testBit_nat_neg {m n : Nat} : ∃ k, Int.testBit (Int.ofNat m) k ≠ Int.testBit (Int.negSucc n) k := by
  have left : m < 2 ^ (m + n) := Nat.lt_of_lt_of_le Nat.lt_two_pow_self (Nat.pow_le_pow_right (by decide) (by omega))
  have right : n < 2 ^ (m + n) := Nat.lt_of_lt_of_le Nat.lt_two_pow_self (Nat.pow_le_pow_right (by decide) (by omega))
  refine ⟨m + n, ?_⟩
  simp only [Int.testBit, Nat.testBit_lt_two_pow left, Nat.testBit_lt_two_pow right, Bool.not_false]
  decide

theorem int_eq_of_testBit {x y : Int} (bits : ∀ k, Int.testBit x k = Int.testBit y k) : x = y := by
  cases x with
  | ofNat m =>
    cases y with
    | ofNat n => exact congrArg Int.ofNat (Nat.eq_of_testBit_eq bits)
    | negSucc n =>
      obtain ⟨k, differ⟩ := @testBit_nat_neg m n
      exact absurd (bits k) differ
  | negSucc m =>
    cases y with
    | ofNat n =>
      obtain ⟨k, differ⟩ := @testBit_nat_neg n m
      exact absurd (bits k).symm differ
    | negSucc n => exact congrArg Int.negSucc (Nat.eq_of_testBit_eq fun k => Bool.not_inj (bits k))

/-- Two's complement without end: above the width every bit is the sign. -/
theorem testBit_toInt {w : Nat} (x : BitVec w) (k : Nat) :
    Int.testBit x.toInt k = if k < w then x.getLsbD k else x.msb := by
  have small := x.isLt
  rw [BitVec.toInt_eq_msb_cond]
  cases sign : x.msb with
  | false =>
    simp only [Bool.false_eq_true, if_false]
    by_cases inside : k < w
    · rw [if_pos inside]
      rfl
    · rw [if_neg inside]
      exact Nat.testBit_lt_two_pow (Nat.lt_of_lt_of_le small (Nat.pow_le_pow_right (by decide) (by omega)))
  | true =>
    have shape : (x.toNat : Int) - (2 ^ w : Nat) = Int.negSucc (2 ^ w - (x.toNat + 1)) := by omega
    simp only [if_true]
    rw [shape]
    simp only [Int.testBit, Nat.testBit_two_pow_sub_succ small]
    by_cases inside : k < w
    · simp only [inside, decide_true, Bool.true_and, Bool.not_not, if_true]
      rfl
    · simp only [inside, decide_false, Bool.false_and, Bool.not_false, if_false]

theorem toInt_land (a b : Int64) : (a &&& b).toInt = Int.land a.toInt b.toInt := by
  refine int_eq_of_testBit fun k => ?_
  rw [Int.testBit_land]
  simp only [Int64.toInt, Int64.toBitVec_and, testBit_toInt, BitVec.getLsbD_and, BitVec.msb_and]
  split <;> rfl

theorem toInt_lor (a b : Int64) : (a ||| b).toInt = Int.lor a.toInt b.toInt := by
  refine int_eq_of_testBit fun k => ?_
  rw [Int.testBit_lor]
  simp only [Int64.toInt, Int64.toBitVec_or, testBit_toInt, BitVec.getLsbD_or, BitVec.msb_or]
  split <;> rfl

theorem toInt_lxor (a b : Int64) : (a ^^^ b).toInt = Int.xor a.toInt b.toInt := by
  refine int_eq_of_testBit fun k => ?_
  rw [Int.testBit_lxor]
  simp only [Int64.toInt, Int64.toBitVec_xor, testBit_toInt, BitVec.getLsbD_xor, BitVec.msb_xor]
  split <;> rfl

theorem toUInt64_toNat {a : Int64} (nonneg : 0 ≤ a.toInt) : a.toUInt64.toNat = a.toInt.toNat := by
  have order : (0 : Int64) ≤ a := by
    rw [Int64.le_iff_toInt_le, Int64.toInt_zero]
    exact nonneg
  rw [Int64.toNat_toUInt64_of_le order]
  rfl

theorem toInt_of_toNat (u : UInt64) : u.toInt64.toInt = (u.toNat : Int).bmod (2 ^ 64) :=
  BitVec.toInt_eq_toNat_bmod u.toBitVec

theorem toInt_shl {a n : Int64} (nonneg : 0 ≤ a.toInt) (low : 0 ≤ n.toInt) (high : n.toInt ≤ 63) :
    (a.toUInt64 <<< n.toUInt64).toInt64.toInt = (a.toInt * 2 ^ n.toInt.toNat).bmod (2 ^ 64) := by
  have count : n.toInt.toNat % 64 = n.toInt.toNat := Nat.mod_eq_of_lt (by omega)
  have value : (a.toInt.toNat : Int) = a.toInt := Int.toNat_of_nonneg nonneg
  rw [toInt_of_toNat, UInt64.toNat_shiftLeft, toUInt64_toNat nonneg, toUInt64_toNat low, count, Nat.shiftLeft_eq]
  push_cast
  rw [value]
  exact Int.emod_bmod _ (2 ^ 64)

theorem toInt_shr {a n : Int64} (nonneg : 0 ≤ a.toInt) (low : 0 ≤ n.toInt) (high : n.toInt ≤ 63) :
    (a.toUInt64 >>> n.toUInt64).toInt64.toInt = a.toInt / 2 ^ n.toInt.toNat := by
  have count : n.toInt.toNat % 64 = n.toInt.toNat := Nat.mod_eq_of_lt (by omega)
  have value : (a.toInt.toNat : Int) = a.toInt := Int.toNat_of_nonneg nonneg
  have power : (0 : Int) < 2 ^ n.toInt.toNat := Int.pow_pos (by decide)
  have bound := Int.ediv_le_self (2 ^ n.toInt.toNat) nonneg
  have positive : 0 ≤ a.toInt / 2 ^ n.toInt.toNat := Int.ediv_nonneg nonneg (by omega)
  rw [toInt_of_toNat, UInt64.toNat_shiftRight, toUInt64_toNat nonneg, toUInt64_toNat low, count,
    Nat.shiftRight_eq_div_pow]
  push_cast
  rw [value]
  exact bmod_fits ⟨by omega, by have := a.toInt_lt; omega⟩

end HopHop
