import HopHop.Leb128

namespace HopHop

namespace Wasm

open Leb128

theorem toNat_shiftRight_seven (v : UInt32) : (v >>> 7).toNat = v.toNat / 128 := by
  rw [UInt32.toNat_shiftRight, Nat.shiftRight_eq_div_pow]
  rfl

theorem high_ne_zero (v : UInt32) : v >>> 7 ≠ 0 ↔ 128 ≤ v.toNat := by
  rw [ne_eq, ← UInt32.toNat_inj, toNat_shiftRight_seven]
  show ¬v.toNat / 128 = 0 ↔ _
  omega

/-- The bytes `WasmAppendULEB` appends. -/
def appendULEB (v : UInt32) : List UInt8 :=
  let byte := (v &&& 0x7f).toUInt8
  if v >>> 7 ≠ 0 then (byte ||| 0x80) :: appendULEB (v >>> 7) else [byte]
termination_by v.toNat
decreasing_by
  rename_i more
  have large := (high_ne_zero v).mp more
  rw [toNat_shiftRight_seven]
  omega

theorem toInt_sshiftRight_seven {w : Nat} (v : BitVec (w + 8)) : (v.sshiftRight 7).toInt = v.toInt / 128 := by
  rw [BitVec.toInt_sshiftRight, Int.shiftRight_eq_div_pow]
  rfl

theorem toNat_mask (w : Nat) : (0x7f : BitVec (w + 8)).toNat = 2 ^ 7 - 1 := by
  have room : 2 ^ 8 ≤ 2 ^ (w + 8) := Nat.pow_le_pow_right (by omega) (by omega)
  exact Nat.mod_eq_of_lt (show 127 < 2 ^ (w + 8) by omega)

theorem toNat_and_low {w : Nat} (v : BitVec (w + 8)) : (v &&& 0x7f).toNat = (v.toInt % 128).toNat := by
  have split : 2 ^ (w + 8) = 128 * 2 ^ (w + 1) := by
    rw [show w + 8 = w + 1 + 7 by omega, pow_add, Nat.mul_comm]
    rfl
  rw [BitVec.toNat_and, toNat_mask, Nat.and_two_pow_sub_one_eq_mod, BitVec.toInt]
  split <;> omega

theorem sign_clear {n : Nat} (small : n < 128) : UInt8.ofNat n &&& 0x40 = 0 ↔ n < 64 := by
  revert n
  decide

theorem continued {n : Nat} (small : n < 128) : UInt8.ofNat n ||| 0x80 = UInt8.ofNat (n + 128) := by
  revert n
  decide

/-- The last byte of a signed word: the bits left behind it all repeat its own sign bit. -/
theorem sign_carried {w : Nat} (v : BitVec (w + 8)) :
    (v.sshiftRight 7 = 0 ∧ UInt8.ofNat (v &&& 0x7f).toNat &&& 0x40 = 0 ∨
        v.sshiftRight 7 = -1 ∧ UInt8.ofNat (v &&& 0x7f).toNat &&& 0x40 ≠ 0) ↔
      -64 ≤ v.toInt ∧ v.toInt < 64 := by
  have zero : v.sshiftRight 7 = 0 ↔ v.toInt / 128 = 0 := by
    rw [← BitVec.toInt_inj, toInt_sshiftRight_seven]
    exact Eq.congr_right BitVec.toInt_zero
  have ones : v.sshiftRight 7 = -1 ↔ v.toInt / 128 = -1 := by
    have value : (-1 : BitVec (w + 8)).toInt = -1 := by
      rw [show (-1 : BitVec (w + 8)) = BitVec.allOnes _ from BitVec.neg_one_eq_allOnes, BitVec.toInt_allOnes,
        if_pos (by omega)]
    rw [← BitVec.toInt_inj, toInt_sshiftRight_seven, value]
  rw [zero, ones, toNat_and_low, ne_eq, sign_clear (by omega)]
  omega

/-- The bytes the two encoders of signed words append; the shift carries the sign along. -/
def appendSLEB (w : Nat) (v : BitVec (w + 8)) : List UInt8 :=
  let byte := UInt8.ofNat (v &&& 0x7f).toNat
  let sign := byte &&& 0x40
  let rest := v.sshiftRight 7
  if ¬(rest = 0 ∧ sign = 0 ∨ rest = -1 ∧ sign ≠ 0) then (byte ||| 0x80) :: appendSLEB w rest else [byte]
termination_by v.toInt.natAbs
decreasing_by
  rename_i more
  have large := mt (sign_carried v).mpr more
  show (v.sshiftRight 7).toInt.natAbs < _
  rw [toInt_sshiftRight_seven]
  omega

def appendSLEB32 (v : Int32) : List UInt8 := appendSLEB 24 v.toBitVec

def appendSLEB64 (v : Int64) : List UInt8 := appendSLEB 56 v.toBitVec

theorem appendULEB_eq (v : UInt32) : appendULEB v = unsigned v.toNat := by
  induction v using WellFounded.induction (measure UInt32.toNat).wf with
  | _ v ih =>
    have low : (v &&& 0x7f).toUInt8 = UInt8.ofNat (v.toNat % 128) := by
      rw [← UInt8.toNat_inj, UInt32.toNat_toUInt8, UInt32.toNat_and]
      show (v.toNat &&& 2 ^ 7 - 1) % 2 ^ 8 = _
      rw [Nat.and_two_pow_sub_one_eq_mod, toNat_ofNat (by omega)]
      omega
    rw [appendULEB, unsigned]
    by_cases large : 128 ≤ v.toNat
    · have rest := ih (v >>> 7) (show (v >>> 7).toNat < v.toNat by rw [toNat_shiftRight_seven]; omega)
      rw [if_pos ((high_ne_zero v).mpr large), if_neg (by omega), low, continued (by omega), rest,
        toNat_shiftRight_seven]
    · rw [if_neg (mt (high_ne_zero v).mp large), if_pos (by omega), low, Nat.mod_eq_of_lt (by omega)]

theorem appendSLEB_eq (w : Nat) (v : BitVec (w + 8)) : appendSLEB w v = signed v.toInt := by
  induction v using WellFounded.induction (measure fun v : BitVec (w + 8) => v.toInt.natAbs).wf with
  | _ v ih =>
    rw [appendSLEB, signed]
    by_cases last : -64 ≤ v.toInt ∧ v.toInt < 64
    · rw [if_neg (not_not.mpr ((sign_carried v).mpr last)), if_pos last, toNat_and_low]
    · have smaller : (v.sshiftRight 7).toInt.natAbs < v.toInt.natAbs := by
        rw [toInt_sshiftRight_seven]
        omega
      rw [if_pos (mt (sign_carried v).mp last), if_neg last, toNat_and_low, continued (by omega),
        ih (v.sshiftRight 7) smaller, toInt_sshiftRight_seven]

/-- A section as the output gets it; the length of the payload's buffer is a word. -/
structure ByteSection where
  id : UInt8
  payload : List UInt8
  fits : payload.length < 2 ^ 32

def appendSection (out : List UInt8) (s : ByteSection) : List UInt8 :=
  out ++ s.id :: appendULEB (UInt32.ofNat s.payload.length) ++ s.payload

/-- The section at the front: its id, the length of its payload as a word, and so many bytes. -/
def readSection : List UInt8 → Option ((UInt8 × List UInt8) × List UInt8)
  | [] => none
  | id :: rest =>
    match readUnsigned 32 rest with
    | none => none
    | some (n, behind) => if n ≤ behind.length then some ((id, behind.take n), behind.drop n) else none

theorem readUnsigned_behind {width n : Nat} {bytes behind : List UInt8}
    (read : readUnsigned width bytes = some (n, behind)) : behind.length < bytes.length := by
  obtain ⟨k, length, -⟩ := readUnsigned_lt read
  omega

theorem readSection_behind {bytes behind : List UInt8} {section' : UInt8 × List UInt8}
    (read : readSection bytes = some (section', behind)) : behind.length < bytes.length := by
  cases bytes with
  | nil => cases read
  | cons id rest =>
    rw [readSection] at read
    split at read
    · cases read
    · rename_i n behind' word
      split_ifs at read
      cases read
      have shorter := readUnsigned_behind word
      rw [List.length_drop, List.length_cons]
      omega

/-- The ids and payloads of a stream of sections, if it splits into sections to its end. -/
def readSections (bytes : List UInt8) : Option (List (UInt8 × List UInt8)) :=
  if bytes = [] then some []
  else
    match _read : readSection bytes with
    | none => none
    | some (first, behind) => (readSections behind).map (first :: ·)
termination_by bytes.length
decreasing_by exact readSection_behind _read

theorem readSection_appendSection (s : ByteSection) (behind : List UInt8) :
    readSection (appendSection [] s ++ behind) = some ((s.id, s.payload), behind) := by
  have word : (UInt32.ofNat s.payload.length).toNat = s.payload.length :=
    Nat.mod_eq_of_lt s.fits
  have read := readUnsigned_unsigned s.fits (s.payload ++ behind)
  simp only [appendSection, List.nil_append, List.cons_append, List.append_assoc, readSection, appendULEB_eq, word,
    read, List.length_append, Nat.le_add_right, if_true, List.take_left, List.drop_left]

theorem appendSection_eq (out : List UInt8) (s : ByteSection) : appendSection out s = out ++ appendSection [] s := by
  simp only [appendSection, List.nil_append, List.append_assoc, List.cons_append]

/-- Sections written one behind the other read back one by one. -/
theorem readSections_append (sections : List ByteSection) :
    readSections (sections.foldl appendSection []) = some (sections.map fun s => (s.id, s.payload)) := by
  have together : ∀ (sections : List ByteSection) (out : List UInt8),
      sections.foldl appendSection out = out ++ sections.foldl appendSection [] := by
    intro sections
    induction sections with
    | nil => simp
    | cons s rest ih =>
      intro out
      rw [List.foldl_cons, List.foldl_cons, ih, ih (appendSection [] s), appendSection_eq out, List.append_assoc]
  induction sections with
  | nil =>
    rw [readSections, if_pos (by rfl)]
    rfl
  | cons s rest ih =>
    have first := readSection_appendSection s (rest.foldl appendSection [])
    have some_bytes : appendSection [] s ++ rest.foldl appendSection [] ≠ [] := by
      simp [appendSection]
    rw [List.foldl_cons, together, readSections, if_neg some_bytes]
    split
    · rename_i read
      cases read.symm.trans first
    · rename_i read
      cases read.symm.trans first
      rw [ih]
      rfl

/-- The bytes of each word read back as it whatever follows, are at most five, five and ten, and no fewer bytes read as
it; a stream of sections splits into the ids and payloads it was written from. -/
theorem leb_reads_back :
    (∀ (v : UInt32) (behind : List UInt8),
      readUnsigned 32 (appendULEB v ++ behind) = some (v.toNat, behind) ∧ (appendULEB v).length ≤ 5 ∧
        ∀ bytes, readUnsigned 32 bytes = some (v.toNat, []) → (appendULEB v).length ≤ bytes.length) ∧
    (∀ (v : Int32) (behind : List UInt8),
      readSigned 32 (appendSLEB32 v ++ behind) = some (v.toInt, behind) ∧ (appendSLEB32 v).length ≤ 5 ∧
        ∀ bytes, readSigned 32 bytes = some (v.toInt, []) → (appendSLEB32 v).length ≤ bytes.length) ∧
    (∀ (v : Int64) (behind : List UInt8),
      readSigned 64 (appendSLEB64 v ++ behind) = some (v.toInt, behind) ∧ (appendSLEB64 v).length ≤ 10 ∧
        ∀ bytes, readSigned 64 bytes = some (v.toInt, []) → (appendSLEB64 v).length ≤ bytes.length) ∧
    ∀ sections : List ByteSection,
      readSections (sections.foldl appendSection []) = some (sections.map fun s => (s.id, s.payload)) := by
  refine ⟨fun v behind => ?_, fun v behind => ?_, fun v behind => ?_, readSections_append⟩
  · have fits : v.toNat < 2 ^ 32 := v.toNat_lt
    rw [appendULEB_eq]
    exact ⟨readUnsigned_unsigned fits behind, unsigned_length (k := 4) (by omega), fun bytes read =>
      unsigned_shortest read⟩
  · have above : -2 ^ 31 ≤ v.toInt := Int32.le_toInt v
    have below : v.toInt < 2 ^ 31 := Int32.toInt_lt v
    rw [appendSLEB32, appendSLEB_eq, Int32.toInt_toBitVec]
    exact ⟨readSigned_signed ⟨above, below⟩ behind, signed_length (k := 4) (by omega) (by omega), fun bytes read =>
      signed_shortest read⟩
  · have above : -2 ^ 63 ≤ v.toInt := Int64.le_toInt v
    have below : v.toInt < 2 ^ 63 := Int64.toInt_lt v
    rw [appendSLEB64, appendSLEB_eq, Int64.toInt_toBitVec]
    exact ⟨readSigned_signed ⟨above, below⟩ behind, signed_length (k := 9) (by omega) (by omega), fun bytes read =>
      signed_shortest read⟩

end Wasm

end HopHop
