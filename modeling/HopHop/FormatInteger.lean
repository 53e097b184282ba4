import HopHop.Numeral
import HopHop.FormatAgree

namespace HopHop

/-! ### The numerals that are meant -/

def decimalNumerals : Numerals where
  base := 10
  digit d := Byte.zero + UInt8.ofNat d
  value byte := (byte - Byte.zero).toNat
  one_lt := by decide
  value_digit := by decide

def hexNumerals : Numerals where
  base := 16
  digit d := if d < 10 then Byte.zero + UInt8.ofNat d else 0x61 + UInt8.ofNat (d - 10)
  value byte := if byte < 0x61 then (byte - Byte.zero).toNat else (byte - 0x61).toNat + 10
  one_lt := by decide
  value_digit := by decide

def decimalText (v : Int) : List UInt8 := (if v < 0 then [Byte.minus] else []) ++ decimalNumerals.text v.natAbs

def hexText (n : Nat) : List UInt8 := bytesOf "0x" ++ hexNumerals.text n

/-! ### What the loops compute with -/

/-- The loop that finds the first divisor comes to its end, and its products are values of an `int`. -/
def GrowsInside (bits : Nat) (v : Int) : Nat → Int → Prop
  | 0, _ => False
  | left + 1, div =>
    div ≤ 100000000 → asInt bits (div * 10) = div * 10 ∧ (div * 10 ≤ v → GrowsInside bits v left (div * 10))

def GrowsHexInside (bits : Nat) (v : Int) : Nat → Int → Prop
  | 0, _ => False
  | left + 1, div => 16 ≤ v.tdiv div → asInt bits (div * 16) = div * 16 ∧ GrowsHexInside bits v left (div * 16)

/-- The loop over the divisors comes to its end, and what it adds to a letter is a digit. -/
def DigitsInside (base v : Int) : Nat → Int → Prop
  | 0, _ => False
  | left + 1, div =>
    0 < div → 0 ≤ (v.tdiv div).tmod base ∧ (v.tdiv div).tmod base < base ∧ DigitsInside base v left (div.tdiv base)

def I64Inside (bits : Nat) (x : Int) : Prop :=
  asInt bits x = x ∧ (x < 0 → asInt bits (0 - x) = 0 - x) ∧
    (x ≠ 0 → GrowsInside bits x.natAbs 10 1 ∧ DigitsInside 10 x.natAbs 11 (growDiv bits x.natAbs 9 1))

def HexInside (bits : Nat) (x : Int) : Prop :=
  asInt bits x = x ∧ (x ≠ 0 → GrowsHexInside bits x 16 1 ∧ DigitsInside 16 x 17 (growHexDiv bits x 15 1))

/-- `fmt_write_i64` writes the numeral of the number, whatever the buffer, and its values stay in their types. -/
def I64Exact (bits : Nat) (x : Int64) : Prop :=
  (∀ payloadCap o, fmtWriteI64 payloadCap bits o x = fmtWriteText payloadCap o (decimalText x.toInt)) ∧
    I64Inside bits x.toInt

def U64Exact (bits : Nat) (x : UInt64) : Prop :=
  (∀ payloadCap o, fmtWriteU64 payloadCap bits o x = fmtWriteText payloadCap o (decimalText x.toNat)) ∧
    x.toInt64.toInt = x.toNat ∧ I64Inside bits x.toNat

def HexExact (bits : Nat) (x : UInt64) : Prop :=
  (∀ payloadCap o, fmtWriteHexUint payloadCap bits o x = fmtWriteText payloadCap o (hexText x.toNat)) ∧
    HexInside bits x.toNat

/-! ### The texts as a whole -/

def hexDigitsText (v : Int) : Nat → Int → List UInt8
  | 0, _ => []
  | left + 1, div =>
    if 0 < div then
      let d := (v.tdiv div).tmod 16
      (if d < 10 then Byte.zero + UInt8.ofInt d else 0x61 + UInt8.ofInt (d - 10)) :: hexDigitsText v left (div.tdiv 16)
    else []

theorem fmtWriteHexDigits_eq (payloadCap : Nat) (v : Int) (left : Nat) (div : Int) (o : FmtOut) :
    fmtWriteHexDigits payloadCap v left div o = fmtWriteText payloadCap o (hexDigitsText v left div) := by
  induction left generalizing div o with
  | zero => rfl
  | succ left ih =>
    rw [fmtWriteHexDigits, hexDigitsText]
    split
    · rw [fmtWriteText_cons]
      exact ih _ _
    · rfl

/-- The text that a value of an `int` is written as. -/
def intText (bits : Nat) (v : Int) : List UInt8 :=
  let size := if v < 0 then asInt bits (0 - v) else v
  (if v < 0 then [Byte.minus] else []) ++ if size = 0 then [Byte.zero] else digitsText size 10 (growDiv bits size 9 1)

theorem i64Text_eq (bits : Nat) (x : Int64) : i64Text bits x = intText bits (asInt bits x.toInt) := rfl

def hexIntText (bits : Nat) (v : Int) : List UInt8 := bytesOf "0x" ++ hexDigitsText v 16 (growHexDiv bits v 15 1)

theorem fmtWriteHexUint_eq (payloadCap bits : Nat) (o : FmtOut) (x : UInt64) :
    fmtWriteHexUint payloadCap bits o x =
      fmtWriteText payloadCap o (if x = 0 then hexText 0 else hexIntText bits (asInt bits x.toNat)) := by
  rw [fmtWriteHexUint]
  split
  · rfl
  · rw [hexIntText, fmtWriteText_append, fmtWriteHexDigits_eq]

/-- Texts that are the same in all buffers are the same. -/
theorem fmtWriteText_inj {first second : List UInt8}
    (same : ∀ payloadCap o, fmtWriteText payloadCap o first = fmtWriteText payloadCap o second) : first = second := by
  have whole := same first.length ⟨fun _ => 0, 0⟩
  have length : first.length = second.length := by
    have places := congrArg FmtOut.oi whole
    rw [fmtWriteText_oi, fmtWriteText_oi] at places
    omega
  refine List.ext_getElem length fun k inFirst inSecond => ?_
  have bytes := congrFun (congrArg FmtOut.buf whole) k
  rw [fmtWriteText_buf, fmtWriteText_buf] at bytes
  simpa [inFirst, inSecond] using bytes

/-! ### The loops on numbers that fit -/

section Loops

variable {bits : Nat}

theorem asInt_eq_iff (word : bits = 32 ∨ bits = 64) (x : Int) :
    asInt bits x = x ↔ -2 ^ (bits - 1) ≤ x ∧ x < 2 ^ (bits - 1) := by
  rcases word with rfl | rfl
  · show x.bmod 4294967296 = x ↔ -2147483648 ≤ x ∧ x < 2147483648
    rw [Int.bmod]
    split <;> omega
  · show x.bmod 18446744073709551616 = x ↔ -9223372036854775808 ≤ x ∧ x < 9223372036854775808
    rw [Int.bmod]
    split <;> omega

theorem word_room (word : bits = 32 ∨ bits = 64) : (2147483648 : Int) ≤ 2 ^ (bits - 1) := by
  rcases word with rfl | rfl
  · exact Int.le_refl _
  · show (2147483648 : Int) ≤ 9223372036854775808
    omega

/-- The first divisor is the highest power of ten that the number has, or the tenth. -/
theorem growDiv_pow (word : bits = 32 ∨ bits = 64) {n k left : Nat} (sum : k + left = 9) (reached : 10 ^ k ≤ n) :
    ∃ j ≤ 9, growDiv bits n left (10 ^ k : Nat) = (10 ^ j : Nat) ∧ 10 ^ j ≤ n ∧ (j = 9 ∨ n < 10 ^ (j + 1)) ∧
      GrowsInside bits n (left + 1) (10 ^ k : Nat) := by
  induction left generalizing k with
  | zero =>
    obtain rfl : k = 9 := by omega
    exact ⟨9, Nat.le_refl 9, rfl, reached, Or.inl rfl, fun small => absurd small (by decide)⟩
  | succ left ih =>
    have power : (10 : Nat) ^ (k + 1) ≤ 10 ^ 9 := Nat.pow_le_pow_right (by omega) (by omega)
    have next : ((10 ^ k : Nat) : Int) * 10 = (10 ^ (k + 1) : Nat) := by
      rw [pow_succ, Nat.cast_mul]
      rfl
    have inside : asInt bits (10 ^ (k + 1) : Nat) = (10 ^ (k + 1) : Nat) := by
      have room := word_room word
      have positive : 0 < 10 ^ (k + 1) := Nat.pow_pos (by omega)
      rw [asInt_eq_iff word]
      omega
    have small : ((10 ^ k : Nat) : Int) ≤ 100000000 := by
      rw [pow_succ] at power
      omega
    by_cases more : 10 ^ (k + 1) ≤ n
    · obtain ⟨j, bound, last, lower, upper, grows⟩ := ih (by omega) more
      refine ⟨j, bound, ?_, lower, upper, fun _ => ?_⟩
      · rw [growDiv, next, inside, if_pos ⟨small, by omega⟩, last]
      · rw [next]
        exact ⟨inside, fun _ => grows⟩
    · refine ⟨k, by omega, ?_, reached, Or.inr (by omega), fun _ => ?_⟩
      · rw [growDiv, next, inside, if_neg (by omega)]
      · rw [next]
        exact ⟨inside, fun beyond => absurd beyond (by omega)⟩

/-- In sixty-four bits, sixteen digits are room for all values that are not negative. -/
theorem growHexDiv_pow (word : bits = 32 ∨ bits = 64) {n k left : Nat} (fits : (n : Int) < 2 ^ (bits - 1))
    (sum : k + left = 15) (reached : k = 0 ∨ 16 ^ k ≤ n) :
    ∃ j ≤ 15, growHexDiv bits n left (16 ^ k : Nat) = (16 ^ j : Nat) ∧ (j = 0 ∨ 16 ^ j ≤ n) ∧ n < 16 ^ (j + 1) ∧
      GrowsHexInside bits n (left + 1) (16 ^ k : Nat) := by
  have positive (k : Nat) : 0 < 16 ^ k := Nat.pow_pos (by omega)
  have quotient (k : Nat) : (16 : Int) ≤ (n : Int).tdiv (16 ^ k : Nat) ↔ 16 ^ (k + 1) ≤ n := by
    rw [← Int.ofNat_tdiv, pow_succ, Nat.mul_comm, ← Nat.le_div_iff_mul_le (positive k)]
    omega
  induction left generalizing k with
  | zero =>
    obtain rfl : k = 15 := by omega
    have below : n < 16 ^ (15 + 1) := by
      rcases word with rfl | rfl <;> omega
    refine ⟨15, Nat.le_refl 15, rfl, reached, below, fun large => ?_⟩
    exact absurd ((quotient 15).mp large) (by omega)
  | succ left ih =>
    by_cases more : 16 ^ (k + 1) ≤ n
    · have next : ((16 ^ k : Nat) : Int) * 16 = (16 ^ (k + 1) : Nat) := by
        rw [pow_succ, Nat.cast_mul]
        rfl
      have inside : asInt bits (16 ^ (k + 1) : Nat) = (16 ^ (k + 1) : Nat) := by
        have room := word_room word
        have above := positive (k + 1)
        rw [asInt_eq_iff word]
        omega
      obtain ⟨j, bound, last, lower, upper, grows⟩ := ih (by omega) (Or.inr more)
      refine ⟨j, bound, ?_, lower, upper, fun _ => ?_⟩
      · rw [growHexDiv, if_pos ((quotient k).mpr more), next, inside, last]
      · rw [next]
        exact ⟨inside, grows⟩
    · refine ⟨k, by omega, ?_, reached, by omega, fun large => absurd ((quotient k).mp large) more⟩
      rw [growHexDiv, if_neg (mt (quotient k).mp more)]

theorem ofInt_digit (d : Nat) : UInt8.ofInt d = UInt8.ofNat d := by
  have low : ((d : Int) % 2 ^ 8).toNat = d % 2 ^ 8 := by omega
  rw [UInt8.ofInt, low, ← UInt8.toNat_inj, UInt8.toNat_ofNat', UInt8.toNat_ofNat', Nat.mod_mod]

theorem tdiv_pow {base k : Nat} (positive : 0 < base) :
    ((base ^ (k + 1) : Nat) : Int).tdiv base = (base ^ k : Nat) := by
  rw [← Int.ofNat_tdiv, pow_succ, Nat.mul_div_cancel _ positive]

/-- From the highest power on, the loop over the divisors takes up the digits one by one. -/
theorem digitsText_pow {n j left : Nat} (enough : j < left) :
    digitsText n left (10 ^ j : Nat) = decimalNumerals.lastDigits n (j + 1) ∧ DigitsInside 10 n (left + 1) (10 ^ j : Nat) := by
  have positive (j : Nat) : 0 < ((10 ^ j : Nat) : Int) := Int.natCast_pos.mpr (Nat.pow_pos (by omega))
  have digit (j : Nat) : ((n : Int).tdiv (10 ^ j : Nat)).tmod 10 = (n / 10 ^ j % 10 : Nat) := by
    rw [← Int.ofNat_tdiv]
    exact (Int.ofNat_tmod _ 10).symm
  induction j generalizing left with
  | zero =>
    obtain ⟨left, rfl⟩ := Nat.exists_eq_succ_of_ne_zero (by omega : left ≠ 0)
    refine ⟨?_, fun _ => ?_⟩
    · rw [digitsText, if_pos (positive 0), digit, ofInt_digit, Numerals.lastDigits]
      cases left <;> rfl
    · rw [digit]
      exact ⟨by omega, by omega, fun more => absurd more (by decide)⟩
  | succ j ih =>
    obtain ⟨left, rfl⟩ := Nat.exists_eq_succ_of_ne_zero (by omega : left ≠ 0)
    obtain ⟨texts, inside⟩ := @ih left (by omega)
    have down : ((10 ^ (j + 1) : Nat) : Int).tdiv 10 = (10 ^ j : Nat) := @tdiv_pow 10 j (by omega)
    refine ⟨?_, fun _ => ?_⟩
    · rw [digitsText, if_pos (positive (j + 1)), digit, ofInt_digit, down, texts]
      rfl
    · rw [digit, down]
      exact ⟨by omega, by omega, inside⟩

theorem hexDigitsText_pow {n j left : Nat} (enough : j < left) :
    hexDigitsText n left (16 ^ j : Nat) = hexNumerals.lastDigits n (j + 1) ∧
      DigitsInside 16 n (left + 1) (16 ^ j : Nat) := by
  have positive (j : Nat) : 0 < ((16 ^ j : Nat) : Int) := Int.natCast_pos.mpr (Nat.pow_pos (by omega))
  have digit (j : Nat) : ((n : Int).tdiv (16 ^ j : Nat)).tmod 16 = (n / 16 ^ j % 16 : Nat) := by
    rw [← Int.ofNat_tdiv]
    exact (Int.ofNat_tmod _ 16).symm
  have byte (d : Nat) : (if (d : Int) < 10 then Byte.zero + UInt8.ofInt d else 0x61 + UInt8.ofInt (d - 10)) =
      hexNumerals.digit d := by
    by_cases low : d < 10
    · rw [if_pos (by omega), ofInt_digit]
      exact (if_pos low).symm
    · rw [if_neg (by omega), show (d : Int) - 10 = (d - 10 : Nat) by omega, ofInt_digit]
      exact (if_neg low).symm
  induction j generalizing left with
  | zero =>
    obtain ⟨left, rfl⟩ := Nat.exists_eq_succ_of_ne_zero (by omega : left ≠ 0)
    refine ⟨?_, fun _ => ?_⟩
    · rw [hexDigitsText, if_pos (positive 0), digit]
      exact congrArg₂ List.cons (byte _) (by cases left <;> rfl)
    · rw [digit]
      exact ⟨by omega, by omega, fun more => absurd more (by decide)⟩
  | succ j ih =>
    obtain ⟨left, rfl⟩ := Nat.exists_eq_succ_of_ne_zero (by omega : left ≠ 0)
    obtain ⟨texts, inside⟩ := @ih left (by omega)
    have down : ((16 ^ (j + 1) : Nat) : Int).tdiv 16 = (16 ^ j : Nat) := @tdiv_pow 16 j (by omega)
    refine ⟨?_, fun _ => ?_⟩
    · rw [hexDigitsText, if_pos (positive (j + 1)), digit, down, texts]
      exact congrArg₂ List.cons (byte _) rfl
    · rw [digit, down]
      exact ⟨by omega, by omega, inside⟩

end Loops

theorem digitsText_length (v : Int) (left : Nat) (div : Int) : (digitsText v left div).length ≤ left := by
  induction left generalizing div with
  | zero => exact Nat.le_refl 0
  | succ left ih =>
    rw [digitsText]
    split
    · exact Nat.succ_le_succ (ih _)
    · exact Nat.zero_le _

/-- The text of a value has at most ten digits. -/
theorem intText_short (bits : Nat) (v : Int) : (intText bits v).length ≤ (if v < 0 then 1 else 0) + 10 := by
  have digits (size : Int) : (if size = 0 then [Byte.zero] else digitsText size 10 (growDiv bits size 9 1)).length ≤ 10 := by
    split
    · exact Nat.le_add_left 1 9
    · exact digitsText_length ..
  rw [intText, List.length_append]
  by_cases negative : v < 0
  · rw [if_pos negative, if_pos negative, if_pos negative]
    exact Nat.add_le_add_left (digits _) 1
  · rw [if_neg negative, if_neg negative, if_neg negative]
    exact Nat.add_le_add_left (digits _) 0

theorem decimalText_long {v : Int} (large : 10 ^ 10 ≤ v.natAbs) :
    (if v < 0 then 1 else 0) + 10 < (decimalText v).length := by
  have digits := decimalNumerals.lt_length_text large
  rw [decimalText, List.length_append]
  split
  · exact Nat.add_lt_add_left digits 1
  · exact Nat.add_lt_add_left digits 0

section Exact

variable {bits : Nat}

theorem digits_exact (word : bits = 32 ∨ bits = 64) {n : Nat} (positive : 0 < n) (short : n < 10 ^ 10) :
    digitsText n 10 (growDiv bits n 9 1) = decimalNumerals.text n ∧ GrowsInside bits n 10 1 ∧
      DigitsInside 10 n 11 (growDiv bits n 9 1) := by
  obtain ⟨j, bound, first, lower, upper, grows⟩ := @growDiv_pow bits word n 0 9 rfl positive
  have below : n < 10 ^ (j + 1) := by
    rcases upper with rfl | below
    · exact short
    · exact below
  obtain ⟨digits, inside⟩ := @digitsText_pow n j 10 (by omega)
  have start : growDiv bits n 9 1 = (10 ^ j : Nat) := first
  rw [start, digits]
  exact ⟨Numerals.lastDigits_eq_text (N := decimalNumerals) below (Or.inr lower), grows, inside⟩

/-- The numbers of an `int`, without the least, that have at most ten digits are written as they are. -/
theorem intText_exact (word : bits = 32 ∨ bits = 64) {v : Int} (short : v.natAbs < 10 ^ 10)
    (fits : (v.natAbs : Int) < 2 ^ (bits - 1)) : intText bits v = decimalText v ∧ I64Inside bits v := by
  have stays : asInt bits v = v := (asInt_eq_iff word v).mpr ⟨by omega, by omega⟩
  have negated : asInt bits (0 - v) = 0 - v := (asInt_eq_iff word (0 - v)).mpr ⟨by omega, by omega⟩
  have size : (if v < 0 then asInt bits (0 - v) else v) = v.natAbs := by
    rw [negated]
    split <;> omega
  rw [intText, decimalText, size]
  by_cases zero : v = 0
  · rw [zero]
    refine ⟨?_, (asInt_eq_iff word 0).mpr ⟨by omega, by omega⟩, fun negative => absurd negative (by decide),
      fun nonzero => absurd rfl nonzero⟩
    rfl
  · obtain ⟨digits, grows, ends⟩ := digits_exact word (by omega : 0 < v.natAbs) short
    rw [if_neg (show ¬(v.natAbs : Int) = 0 by omega), digits]
    exact ⟨rfl, stays, fun _ => negated, fun _ => ⟨grows, ends⟩⟩

theorem I64Inside.fits (word : bits = 32 ∨ bits = 64) {v : Int} (inside : I64Inside bits v) :
    (v.natAbs : Int) < 2 ^ (bits - 1) := by
  obtain ⟨stays, negated, _⟩ := inside
  obtain ⟨above, below⟩ := (asInt_eq_iff word v).mp stays
  by_cases negative : v < 0
  · have other := ((asInt_eq_iff word (0 - v)).mp (negated negative)).2
    omega
  · omega

/-- If a value that stays as it is in an `int` is written as its numeral, it has at most ten digits. -/
theorem short_of_intText {v : Int} (same : intText bits v = decimalText v) : v.natAbs < 10 ^ 10 := by
  by_contra large
  have short := intText_short bits v
  have long := decimalText_long (by omega : 10 ^ 10 ≤ v.natAbs)
  rw [same] at short
  omega

theorem i64Exact_iff (word : bits = 32 ∨ bits = 64) (x : Int64) :
    I64Exact bits x ↔ x.toInt.natAbs < 10 ^ 10 ∧ (x.toInt.natAbs : Int) < 2 ^ (bits - 1) := by
  constructor
  · rintro ⟨writes, inside⟩
    have same := fmtWriteText_inj fun payloadCap o => (fmtWriteI64_eq bits o x).symm.trans (writes payloadCap o)
    rw [i64Text_eq, inside.1] at same
    exact ⟨short_of_intText same, inside.fits word⟩
  · rintro ⟨short, fits⟩
    obtain ⟨same, inside⟩ := intText_exact word short fits
    refine ⟨fun payloadCap o => ?_, inside⟩
    rw [fmtWriteI64_eq, i64Text_eq, inside.1, same]

theorem u64Exact_iff (word : bits = 32 ∨ bits = 64) (x : UInt64) :
    U64Exact bits x ↔ x.toNat < 10 ^ 10 ∧ (x.toNat : Int) < 2 ^ (bits - 1) := by
  constructor
  · rintro ⟨writes, signed, inside⟩
    have same := fmtWriteText_inj fun payloadCap o => (fmtWriteI64_eq bits o x.toInt64).symm.trans (writes payloadCap o)
    rw [i64Text_eq, signed, inside.1] at same
    exact ⟨short_of_intText same, inside.fits word⟩
  · rintro ⟨short, fits⟩
    have signed : x.toInt64.toInt = x.toNat := by
      have room : x.toNat < 2 ^ 63 := by omega
      exact BitVec.toInt_eq_toNat_of_lt (show 2 * x.toNat < 2 ^ 64 by omega)
    obtain ⟨same, inside⟩ := intText_exact word (v := x.toNat) short fits
    refine ⟨fun payloadCap o => ?_, signed, inside⟩
    rw [fmtWriteU64, fmtWriteI64_eq, i64Text_eq, signed, inside.1, same]

theorem hexExact_iff (word : bits = 32 ∨ bits = 64) (x : UInt64) :
    HexExact bits x ↔ (x.toNat : Int) < 2 ^ (bits - 1) := by
  constructor
  · rintro ⟨writes, inside⟩
    exact ((asInt_eq_iff word _).mp inside.1).2
  · intro fits
    have stays : asInt bits x.toNat = x.toNat := (asInt_eq_iff word _).mpr ⟨by omega, fits⟩
    obtain ⟨j, bound, first, lower, upper, grows⟩ := @growHexDiv_pow bits word x.toNat 0 15 fits rfl (Or.inl rfl)
    obtain ⟨digits, inside⟩ := @hexDigitsText_pow x.toNat j 16 (by omega)
    have start : growHexDiv bits x.toNat 15 1 = (16 ^ j : Nat) := first
    refine ⟨fun payloadCap o => ?_, stays, fun _ => ⟨grows, start ▸ inside⟩⟩
    rw [fmtWriteHexUint_eq]
    by_cases zero : x = 0
    · rw [if_pos zero, zero]
      rfl
    · rw [if_neg zero, stays, hexIntText, hexText, start, digits,
        Numerals.lastDigits_eq_text (N := hexNumerals) upper lower]

/-- On a target whose `int` has so many bits, the numerals are exact for the numbers that are values of an `int` and,
with a decimal numeral, have at most ten digits; the least value of an `int` is not one of them. -/
theorem numerals_exact_iff (bits : Nat) (word : bits = 32 ∨ bits = 64) :
    (∀ x, I64Exact bits x ↔ x.toInt.natAbs < 10 ^ 10 ∧ (x.toInt.natAbs : Int) < 2 ^ (bits - 1)) ∧
    (∀ x, U64Exact bits x ↔ x.toNat < 10 ^ 10 ∧ (x.toNat : Int) < 2 ^ (bits - 1)) ∧
    ∀ x, HexExact bits x ↔ (x.toNat : Int) < 2 ^ (bits - 1) :=
  ⟨i64Exact_iff word, u64Exact_iff word, hexExact_iff word⟩

theorem numerals_exact_iff_wide :
    (∀ x, I64Exact 64 x ↔ x.toInt.natAbs < 10 ^ 10 ∧ (x.toInt.natAbs : Int) < 2 ^ (64 - 1)) ∧
    (∀ x, U64Exact 64 x ↔ x.toNat < 10 ^ 10 ∧ (x.toNat : Int) < 2 ^ (64 - 1)) ∧
    ∀ x, HexExact 64 x ↔ (x.toNat : Int) < 2 ^ (64 - 1) :=
  numerals_exact_iff 64 (Or.inr rfl)

/-- Of a number with eleven digits the first is left out. -/
theorem eleven_digits_not_exact : ¬∀ x, I64Exact 64 x := by
  intro all
  have writes := (all 10000000000).1 0 ⟨fun _ => 0, 0⟩
  have places := congrArg FmtOut.oi writes
  have long : (if (10000000000 : Int) < 0 then 1 else 0) + 10 < (decimalText 10000000000).length :=
    decimalText_long (Nat.le_refl _)
  rw [fmtWriteText_oi, show (fmtWriteI64 0 64 ⟨fun _ => 0, 0⟩ 10000000000).oi = 10 from rfl] at places
  have value : (10000000000 : Int64).toInt = 10000000000 := rfl
  rw [value, Nat.zero_add] at places
  exact absurd long (by rw [← places]; decide)

end Exact

end HopHop
