import Mathlib.Data.Rat.Lemmas
import Mathlib.Algebra.Order.Field.Rat
import Mathlib.Data.Nat.Size
import Mathlib.Algebra.Order.Ring.Abs
import Mathlib.Tactic.FieldSimp

/-- A binary floating-point format: how many bits a significand has, and the exponents of the unit in its last place. -/
structure HopHop.FloatFormat where
  precision : Nat
  minExp : Int
  maxExp : Int
  deriving DecidableEq, Repr

namespace HopHop.FloatFormat

def binary32 : FloatFormat := ⟨24, -149, 104⟩

def binary64 : FloatFormat := ⟨53, -1074, 971⟩

variable (f : FloatFormat)

/-- The finite values of the format. -/
def Represents (q : ℚ) : Prop :=
  ∃ m e : ℤ, m.natAbs < 2 ^ f.precision ∧ f.minExp ≤ e ∧ e ≤ f.maxExp ∧ q = m * 2 ^ e

/-- The value is a significand of the format with the given exponent. -/
def representsAt (q : ℚ) (e : ℤ) : Bool := (q / 2 ^ e).den = 1 ∧ (q / 2 ^ e).num.natAbs < 2 ^ f.precision

/-- The exponents from the least one on. -/
def exponents : List ℤ := (List.range (f.maxExp + 1 - f.minExp).toNat).map fun i : Nat => f.minExp + (i : ℤ)

def represents (q : ℚ) : Bool := f.exponents.any (f.representsAt q)

variable {f}

theorem mem_exponents {e : ℤ} : e ∈ f.exponents ↔ f.minExp ≤ e ∧ e ≤ f.maxExp := by
  simp only [exponents, List.mem_map, List.mem_range]
  constructor
  · rintro ⟨i, inside, rfl⟩
    omega
  · rintro ⟨low, high⟩
    exact ⟨(e - f.minExp).toNat, by omega, by omega⟩

theorem representsAt_iff {q : ℚ} {e : ℤ} :
    f.representsAt q e = true ↔ ∃ m : ℤ, m.natAbs < 2 ^ f.precision ∧ q = m * 2 ^ e := by
  have positive : (2 : ℚ) ^ e ≠ 0 := zpow_ne_zero e (by norm_num)
  simp only [representsAt, decide_eq_true_eq]
  constructor
  · rintro ⟨whole, small⟩
    have value : q / 2 ^ e = (q / 2 ^ e).num := (Rat.den_eq_one_iff _).mp whole |>.symm
    exact ⟨(q / 2 ^ e).num, small, by rw [← value, div_mul_cancel₀ q positive]⟩
  · rintro ⟨m, small, value⟩
    have quotient : q / 2 ^ e = (m : ℚ) := by rw [value, mul_div_assoc, div_self positive, mul_one]
    rw [quotient]
    exact ⟨Rat.den_intCast m, by rwa [Rat.num_intCast]⟩

/-- The search over the exponents decides which values are represented. -/
theorem represents_iff {q : ℚ} : f.represents q = true ↔ f.Represents q := by
  simp only [represents, List.any_eq_true, mem_exponents, representsAt_iff, Represents]
  constructor
  · rintro ⟨e, ⟨low, high⟩, m, small, value⟩
    exact ⟨m, e, small, low, high, value⟩
  · rintro ⟨m, e, small, low, high, value⟩
    exact ⟨e, ⟨low, high⟩, m, small, value⟩

instance (q : ℚ) : Decidable (f.Represents q) := decidable_of_iff _ represents_iff

/-- An integer that fits in a significand is a value of the format. -/
theorem represents_of_size_le {z : ℤ} (low : f.minExp ≤ 0) (high : 0 ≤ f.maxExp)
    (fits : z.natAbs.size ≤ f.precision) : f.Represents z :=
  ⟨z, 0, Nat.size_le.mp fits, low, high, by simp⟩

end HopHop.FloatFormat
