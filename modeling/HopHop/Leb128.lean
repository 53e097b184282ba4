import Mathlib.Tactic.Ring
import Mathlib.Data.Nat.Init

namespace HopHop

/-! LEB128: numbers as bytes of seven bits each, lowest first, every byte but the last with its high bit set. The width
of a reader bounds the numbers it takes, and with them the bytes. -/

namespace Leb128

def unsigned (n : Nat) : List UInt8 :=
  if n < 128 then [UInt8.ofNat n] else UInt8.ofNat (n % 128 + 128) :: unsigned (n / 128)
termination_by n
decreasing_by omega

def signed (v : Int) : List UInt8 :=
  if -64 ≤ v ∧ v < 64 then [UInt8.ofNat (v % 128).toNat]
  else UInt8.ofNat ((v % 128).toNat + 128) :: signed (v / 128)
termination_by v.natAbs
decreasing_by omega

/-- The number of at most `width` bits at the front, and what stands behind it. -/
def readUnsigned : Nat → List UInt8 → Option (Nat × List UInt8)
  | _, [] => none
  | width, b :: rest =>
    if b.toNat < 128 then if b.toNat < 2 ^ width then some (b.toNat, rest) else none
    else if width ≤ 7 then none
    else (readUnsigned (width - 7) rest).map fun (n, behind) => (b.toNat - 128 + 128 * n, behind)

/-- The number of at most `width` bits, its sign included, at the front, and what stands behind it. -/
def readSigned : Nat → List UInt8 → Option (Int × List UInt8)
  | _, [] => none
  | width, b :: rest =>
    if b.toNat < 64 then if b.toNat < 2 ^ (width - 1) then some (b.toNat, rest) else none
    else if b.toNat < 128 then if 128 ≤ b.toNat + 2 ^ (width - 1) then some (b.toNat - 128, rest) else none
    else if width ≤ 7 then none
    else (readSigned (width - 7) rest).map fun (v, behind) => (b.toNat - 128 + 128 * v, behind)

theorem toNat_ofNat {n : Nat} (small : n < 256) : (UInt8.ofNat n).toNat = n := by
  simpa using small

/-- The bits that are left for the bytes behind a first one. -/
theorem pow_width {width : Nat} (wide : 7 < width) : 2 ^ width = 128 * 2 ^ (width - 7) := by
  obtain ⟨more, rfl⟩ := Nat.exists_eq_add_of_lt wide
  rw [show 7 + more + 1 = 7 + (more + 1) by omega, pow_add, Nat.add_sub_cancel_left]
  rfl

theorem wide_of_large {n width : Nat} (fits : n < 2 ^ width) (large : 128 ≤ n) : 7 < width := by
  by_contra narrow
  have bound : 2 ^ width ≤ 2 ^ 7 := Nat.pow_le_pow_right (by decide) (by omega)
  omega

theorem readUnsigned_unsigned {n width : Nat} (fits : n < 2 ^ width) (behind : List UInt8) :
    readUnsigned width (unsigned n ++ behind) = some (n, behind) := by
  induction n using Nat.strongRecOn generalizing width with
  | ind n ih =>
    rw [unsigned]
    by_cases small : n < 128
    · have byte := toNat_ofNat (show n < 256 by omega)
      simp only [if_pos small, List.singleton_append, readUnsigned, byte, if_pos fits]
    · have wide := wide_of_large fits (by omega)
      have byte := toNat_ofNat (show n % 128 + 128 < 256 by omega)
      have rest := ih (n / 128) (by omega) (by rw [pow_width wide] at fits; omega : n / 128 < 2 ^ (width - 7))
      simp only [if_neg small, List.cons_append, readUnsigned, byte, if_neg (show ¬n % 128 + 128 < 128 by omega),
        if_neg (show ¬width ≤ 7 by omega), rest, Option.map_some]
      exact congrArg some (Prod.ext (by omega) rfl)

/-- The numbers of `width` bits with a sign. -/
def Within (width : Nat) (v : Int) : Prop := -(2 ^ (width - 1) : Nat) ≤ v ∧ v < (2 ^ (width - 1) : Nat)

theorem Within.wide {v : Int} {width : Nat} (within : Within width v) (large : ¬(-64 ≤ v ∧ v < 64)) : 7 < width := by
  obtain ⟨above, below⟩ := within
  by_contra narrow
  have bound : 2 ^ (width - 1) ≤ 2 ^ 6 := Nat.pow_le_pow_right (by decide) (by omega)
  omega

theorem Within.high {v : Int} {width : Nat} (within : Within width v) (wide : 7 < width) :
    Within (width - 7) (v / 128) := by
  obtain ⟨above, below⟩ := within
  have split : 2 ^ (width - 1) = 128 * 2 ^ (width - 7 - 1) := by
    obtain ⟨more, rfl⟩ := Nat.exists_eq_add_of_lt wide
    rw [show 7 + more + 1 - 1 = 7 + more by omega, show 7 + more + 1 - 7 - 1 = more by omega, pow_add]
    rfl
  constructor <;> omega

theorem readSigned_signed {v : Int} {width : Nat} (within : Within width v) (behind : List UInt8) :
    readSigned width (signed v ++ behind) = some (v, behind) := by
  induction v using WellFounded.induction (measure Int.natAbs).wf generalizing width with
  | _ v ih =>
    have above := within.1
    have below := within.2
    rw [signed]
    by_cases small : -64 ≤ v ∧ v < 64
    · have byte := toNat_ofNat (show (v % 128).toNat < 256 by omega)
      simp only [if_pos small, List.singleton_append, readSigned, byte]
      by_cases negative : v < 0
      · rw [if_neg (by omega), if_pos (by omega), if_pos (by omega)]
        exact congrArg some (Prod.ext (by omega) rfl)
      · rw [if_pos (by omega), if_pos (by omega)]
        exact congrArg some (Prod.ext (by omega) rfl)
    · have wide := within.wide small
      have byte := toNat_ofNat (show (v % 128).toNat + 128 < 256 by omega)
      have rest := ih (v / 128) (show (v / 128).natAbs < v.natAbs by omega) (within.high wide)
      simp only [if_neg small, List.cons_append, readSigned, byte, rest, Option.map_some]
      rw [if_neg (by omega), if_neg (by omega), if_neg (by omega)]
      exact congrArg some (Prod.ext (by omega) rfl)

/-- A number of `7 * (k + 1)` bits takes at most `k + 1` bytes. -/
theorem unsigned_length {n k : Nat} (fits : n < 128 ^ (k + 1)) : (unsigned n).length ≤ k + 1 := by
  induction k generalizing n with
  | zero =>
    rw [unsigned, if_pos (by simpa using fits)]
    rfl
  | succ k ih =>
    rw [unsigned]
    split
    · exact Nat.succ_le_succ (Nat.zero_le _)
    · have rest := ih (n := n / 128) (by rw [pow_succ] at fits; omega)
      exact Nat.succ_le_succ rest

theorem signed_length {v : Int} {k : Nat} (above : -(64 * 128 ^ k : Nat) ≤ v) (below : v < (64 * 128 ^ k : Nat)) :
    (signed v).length ≤ k + 1 := by
  induction k generalizing v with
  | zero =>
    rw [signed, if_pos (by omega)]
    exact Nat.le_refl 1
  | succ k ih =>
    rw [signed]
    split
    · exact Nat.succ_le_succ (Nat.zero_le _)
    · have rest := ih (v := v / 128) (by rw [pow_succ] at above; omega) (by rw [pow_succ] at below; omega)
      exact Nat.succ_le_succ rest

/-- What is read from some bytes has no more than seven bits for each of them. -/
theorem readUnsigned_lt {width n : Nat} {bytes behind : List UInt8} (read : readUnsigned width bytes = some (n, behind)) :
    ∃ k, bytes.length = behind.length + (k + 1) ∧ n < 128 ^ (k + 1) := by
  induction bytes generalizing width n with
  | nil => cases read
  | cons b rest ih =>
    rw [readUnsigned] at read
    split_ifs at read with small fits narrow
    · cases read
      exact ⟨0, rfl, by simpa using small⟩
    · obtain ⟨⟨m, behind'⟩, inner, same⟩ := Option.map_eq_some_iff.mp read
      cases same
      obtain ⟨k, length, bound⟩ := ih inner
      have byte := b.toNat_lt
      refine ⟨k + 1, by rw [List.length_cons]; omega, ?_⟩
      rw [pow_succ]
      omega

theorem readSigned_within {width : Nat} {v : Int} {bytes behind : List UInt8}
    (read : readSigned width bytes = some (v, behind)) :
    ∃ k, bytes.length = behind.length + (k + 1) ∧ -(64 * 128 ^ k : Nat) ≤ v ∧ v < (64 * 128 ^ k : Nat) := by
  induction bytes generalizing width v with
  | nil => cases read
  | cons b rest ih =>
    rw [readSigned] at read
    split_ifs at read with low fits small fits narrow
    · cases read
      exact ⟨0, rfl, by omega, by omega⟩
    · cases read
      exact ⟨0, rfl, by omega, by omega⟩
    · obtain ⟨⟨m, behind'⟩, inner, same⟩ := Option.map_eq_some_iff.mp read
      cases same
      obtain ⟨k, length, above, below⟩ := ih inner
      have byte := b.toNat_lt
      refine ⟨k + 1, by rw [List.length_cons]; omega, ?_⟩
      rw [pow_succ]
      constructor <;> omega

/-- No bytes that read as the number are fewer than the ones it is written as. -/
theorem unsigned_shortest {width n : Nat} {bytes behind : List UInt8}
    (read : readUnsigned width bytes = some (n, behind)) : (unsigned n).length + behind.length ≤ bytes.length := by
  obtain ⟨k, length, bound⟩ := readUnsigned_lt read
  have short := unsigned_length bound
  omega

theorem signed_shortest {width : Nat} {v : Int} {bytes behind : List UInt8}
    (read : readSigned width bytes = some (v, behind)) : (signed v).length + behind.length ≤ bytes.length := by
  obtain ⟨k, length, above, below⟩ := readSigned_within read
  have short := signed_length above below
  omega

end Leb128

end HopHop
