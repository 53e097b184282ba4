import Mathlib.Algebra.Ring.Nat
import Mathlib.Data.List.Basic
import Mathlib.Data.Nat.Basic

namespace HopHop

/-- A memory of bytes with addresses from 0 on. -/
structure LinearMemory where
  size : Nat
  byte : Nat → UInt8

namespace LinearMemory

variable {m m' : LinearMemory} {a width : Nat} {bytes : List UInt8}

def loadBytes (m : LinearMemory) (a width : Nat) : Option (List UInt8) :=
  if a + width ≤ m.size then some ((List.range width).map fun i => m.byte (a + i)) else none

def storeBytes (m : LinearMemory) (a : Nat) (bytes : List UInt8) : Option LinearMemory :=
  if a + bytes.length ≤ m.size then
    some { m with byte := fun b => if a ≤ b then (bytes[b - a]?).getD (m.byte b) else m.byte b }
  else none

/-- The number that bytes stand for, the lowest first. -/
def number (bytes : List UInt8) : Nat := bytes.foldr (fun b n => b.toNat + 256 * n) 0

/-- The lowest bytes of a number. -/
def digits (width n : Nat) : List UInt8 := (List.range width).map fun i => UInt8.ofNat (n / 256 ^ i)

def loadWord (m : LinearMemory) (a : UInt32) : Option UInt32 :=
  (m.loadBytes a.toNat 4).map fun bytes => UInt32.ofNat (number bytes)

def storeWord (m : LinearMemory) (a w : UInt32) : Option LinearMemory := m.storeBytes a.toNat (digits 4 w.toNat)

theorem number_digits_word (w : UInt32) : UInt32.ofNat (number (digits 4 w.toNat)) = w := by
  have bound := w.toNat_lt
  have value : number (digits 4 w.toNat) = w.toNat := by
    simp only [digits, List.range, List.range.loop, List.map_cons, List.map_nil, number, List.foldr_cons, List.foldr_nil,
      UInt8.toNat_ofNat', Nat.pow_zero, Nat.div_one, Nat.mul_zero, Nat.add_zero]
    omega
  rw [value, UInt32.ofNat_toNat]

theorem digits_length (width n : Nat) : (digits width n).length = width := by
  rw [digits, List.length_map, List.length_range]

/-- A store leaves the bytes before it and behind it alone. -/
theorem storeBytes_byte (stored : m.storeBytes a bytes = some m') {b : Nat} (apart : b < a ∨ a + bytes.length ≤ b) :
    m'.byte b = m.byte b := by
  rw [storeBytes] at stored
  split at stored
  · rw [← Option.some.inj stored]
    rcases apart with before | behind
    · exact if_neg (by omega)
    · simp only [show a ≤ b by omega, if_true, List.getElem?_eq_none (show bytes.length ≤ b - a by omega),
        Option.getD_none]
  · cases stored

theorem storeBytes_size (stored : m.storeBytes a bytes = some m') : m'.size = m.size := by
  rw [storeBytes] at stored
  split at stored
  · rw [← Option.some.inj stored]
  · cases stored

theorem loadBytes_storeBytes (stored : m.storeBytes a bytes = some m') : m'.loadBytes a bytes.length = some bytes := by
  rw [storeBytes] at stored
  split at stored
  · rename_i fits
    rw [← Option.some.inj stored, loadBytes, if_pos fits]
    refine congrArg some (List.ext_getElem? fun i => ?_)
    rw [List.getElem?_map]
    by_cases inside : i < bytes.length
    · simp only [List.getElem?_range inside, Option.map_some, Nat.le_add_right, if_true, Nat.add_sub_cancel_left,
        List.getElem?_eq_getElem inside, Option.getD_some]
    · rw [List.getElem?_eq_none (by rw [List.length_range]; omega), List.getElem?_eq_none (by omega), Option.map_none]
  · cases stored

/-- A load sees the bytes it reads and the size of the memory. -/
theorem loadBytes_congr (size : m'.size = m.size) (same : ∀ b, a ≤ b → b < a + width → m'.byte b = m.byte b) :
    m'.loadBytes a width = m.loadBytes a width := by
  rw [loadBytes, loadBytes, size]
  split
  · refine congrArg some (List.map_congr_left fun i member => ?_)
    have bound := List.mem_range.mp member
    exact same _ (by omega) (by omega)
  · rfl

theorem loadWord_storeWord {a w : UInt32} (stored : m.storeWord a w = some m') : m'.loadWord a = some w := by
  have loaded := loadBytes_storeBytes stored
  rw [digits_length] at loaded
  rw [loadWord, loaded, Option.map_some, number_digits_word]

theorem storeWord_byte {a w : UInt32} (stored : m.storeWord a w = some m') {b : Nat}
    (apart : b < a.toNat ∨ a.toNat + 4 ≤ b) : m'.byte b = m.byte b := by
  refine storeBytes_byte stored ?_
  rwa [digits_length]

theorem loadWord_congr {a : UInt32} (size : m'.size = m.size)
    (same : ∀ b, a.toNat ≤ b → b < a.toNat + 4 → m'.byte b = m.byte b) : m'.loadWord a = m.loadWord a := by
  rw [loadWord, loadWord, loadBytes_congr size same]

end LinearMemory

end HopHop
