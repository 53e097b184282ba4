import Mathlib.Data.List.Basic

namespace Utf8

/-- The UTF-8 encoding of a sequence of Unicode scalar values. -/
def encode (text : List Char) : List UInt8 :=
  text.flatMap String.utf8EncodeChar

/-- A byte sequence is valid UTF-8 when it encodes some sequence of scalar values. -/
def Valid (bytes : List UInt8) : Prop :=
  ∃ text, bytes = encode text

/-- Bounds of the second byte of a multi-byte form. The lead bytes `E0` and `F0` would otherwise
admit overlong forms, `ED` the surrogates and `F4` values above `10FFFF`. -/
def secondLow (lead : Nat) : Nat :=
  if lead = 0xE0 then 0xA0 else if lead = 0xF0 then 0x90 else 0x80

def secondHigh (lead : Nat) : Nat :=
  if lead = 0xED then 0x9F else if lead = 0xF4 then 0x8F else 0xBF

def IsSecond (lead second : UInt8) : Prop :=
  secondLow lead.toNat ≤ second.toNat ∧ second.toNat ≤ secondHigh lead.toNat

def IsTail (b : UInt8) : Prop :=
  0x80 ≤ b.toNat ∧ b.toNat ≤ 0xBF

/-- The byte forms of one scalar value, by lead byte. -/
inductive Form : List UInt8 → Prop
  | one {a} : a.toNat ≤ 0x7F → Form [a]
  | two {a b} : 0xC2 ≤ a.toNat → a.toNat ≤ 0xDF → IsTail b → Form [a, b]
  | three {a b c} : 0xE0 ≤ a.toNat → a.toNat ≤ 0xEF → IsSecond a b → IsTail c → Form [a, b, c]
  | four {a b c d} : 0xF0 ≤ a.toNat → a.toNat ≤ 0xF4 → IsSecond a b → IsTail c → IsTail d →
      Form [a, b, c, d]

theorem isSecond_iff {lead second : UInt8} : IsSecond lead second ↔
    IsTail second ∧ (lead.toNat = 0xE0 → 0xA0 ≤ second.toNat) ∧ (lead.toNat = 0xF0 → 0x90 ≤ second.toNat) ∧
      (lead.toNat = 0xED → second.toNat ≤ 0x9F) ∧ (lead.toNat = 0xF4 → second.toNat ≤ 0x8F) := by
  unfold IsSecond secondLow secondHigh IsTail
  split_ifs <;> omega

theorem IsSecond.isTail {lead second : UInt8} (h : IsSecond lead second) : IsTail second :=
  (isSecond_iff.mp h).1

theorem ofNat_eq_of_toNat {b : UInt8} {v : Nat} (h : v = b.toNat) : UInt8.ofNat v = b := by
  subst h
  simp

/-- The scalar value with a given number, which must avoid the surrogates. -/
def scalar (v : Nat) (valid : v.isValidChar) : Char :=
  Char.ofNatAux v valid

theorem scalar_val {v : Nat} (valid : v.isValidChar) : (scalar v valid).val.toNat = v := by
  rfl

theorem Form.exists_char {bytes : List UInt8} (form : Form bytes) :
    ∃ c, String.utf8EncodeChar c = bytes := by
  cases form with
  | @one a bound =>
    have valid : a.toNat.isValidChar := by unfold Nat.isValidChar; omega
    refine ⟨scalar a.toNat valid, ?_⟩
    simp only [String.utf8EncodeChar, scalar_val, if_pos bound, ofNat_eq_of_toNat rfl]
  | @two a b low high tail =>
    obtain ⟨tailLow, tailHigh⟩ := tail
    have valid : ((a.toNat - 0xC0) * 64 + (b.toNat - 0x80)).isValidChar := by
      unfold Nat.isValidChar; omega
    refine ⟨scalar _ valid, ?_⟩
    simp only [String.utf8EncodeChar, scalar_val]
    rw [if_neg (by omega), if_pos (by omega), ofNat_eq_of_toNat (b := a) (by omega),
      ofNat_eq_of_toNat (b := b) (by omega)]
  | @three a b c low high second tail =>
    obtain ⟨⟨secondLow, secondHigh⟩, overlong, _, surrogate, _⟩ := isSecond_iff.mp second
    obtain ⟨tailLow, tailHigh⟩ := tail
    have valid : ((a.toNat - 0xE0) * 4096 + (b.toNat - 0x80) * 64 + (c.toNat - 0x80)).isValidChar := by
      unfold Nat.isValidChar; omega
    refine ⟨scalar _ valid, ?_⟩
    simp only [String.utf8EncodeChar, scalar_val]
    rw [if_neg (by omega), if_neg (by omega), if_pos (by omega), ofNat_eq_of_toNat (b := a) (by omega),
      ofNat_eq_of_toNat (b := b) (by omega), ofNat_eq_of_toNat (b := c) (by omega)]
  | @four a b c d low high second tail last =>
    obtain ⟨⟨secondLow, secondHigh⟩, _, overlong, _, large⟩ := isSecond_iff.mp second
    obtain ⟨tailLow, tailHigh⟩ := tail
    obtain ⟨lastLow, lastHigh⟩ := last
    have valid : ((a.toNat - 0xF0) * 262144 + (b.toNat - 0x80) * 4096 + (c.toNat - 0x80) * 64 +
        (d.toNat - 0x80)).isValidChar := by
      unfold Nat.isValidChar; omega
    refine ⟨scalar _ valid, ?_⟩
    simp only [String.utf8EncodeChar, scalar_val]
    rw [if_neg (by omega), if_neg (by omega), if_neg (by omega), ofNat_eq_of_toNat (b := a) (by omega),
      ofNat_eq_of_toNat (b := b) (by omega), ofNat_eq_of_toNat (b := c) (by omega),
      ofNat_eq_of_toNat (b := d) (by omega)]

theorem toNat_ofNat_small {v : Nat} (h : v < 256) : (UInt8.ofNat v).toNat = v := by
  simp [Nat.mod_eq_of_lt h]

theorem char_range (c : Char) : c.val.toNat < 0xD800 ∨ 0xDFFF < c.val.toNat ∧ c.val.toNat < 0x110000 := by
  have valid := c.valid
  simp only [UInt32.isValidChar, Nat.isValidChar] at valid
  exact valid

/-- Every scalar value is encoded by one of the forms. -/
theorem form_utf8EncodeChar (c : Char) : Form (String.utf8EncodeChar c) := by
  have range := char_range c
  unfold String.utf8EncodeChar
  generalize c.val.toNat = v at range
  simp only
  split_ifs with one two three
  · exact .one (by rw [toNat_ofNat_small (by omega)]; omega)
  · refine .two ?_ ?_ ?_
    all_goals simp only [IsTail, toNat_ofNat_small (show v / 64 % 32 + 192 < 256 by omega),
      toNat_ofNat_small (show v % 64 + 128 < 256 by omega)]
    all_goals omega
  · refine .three ?_ ?_ (isSecond_iff.mpr ?_) ?_
    all_goals simp only [IsTail, toNat_ofNat_small (show v / 4096 % 16 + 224 < 256 by omega),
      toNat_ofNat_small (show v / 64 % 64 + 128 < 256 by omega),
      toNat_ofNat_small (show v % 64 + 128 < 256 by omega)]
    all_goals omega
  · refine .four ?_ ?_ (isSecond_iff.mpr ?_) ?_ ?_
    all_goals simp only [IsTail, toNat_ofNat_small (show v / 262144 % 8 + 240 < 256 by omega),
      toNat_ofNat_small (show v / 4096 % 64 + 128 < 256 by omega),
      toNat_ofNat_small (show v / 64 % 64 + 128 < 256 by omega),
      toNat_ofNat_small (show v % 64 + 128 < 256 by omega)]
    all_goals omega

theorem form_iff {bytes : List UInt8} : Form bytes ↔ ∃ c, String.utf8EncodeChar c = bytes := by
  constructor
  · exact Form.exists_char
  · rintro ⟨c, rfl⟩
    exact form_utf8EncodeChar c

theorem valid_nil : Valid [] :=
  ⟨[], rfl⟩

/-- Validity is decided from the left, one form at a time. -/
theorem Form.valid_append {bytes rest : List UInt8} (form : Form bytes) (valid : Valid rest) :
    Valid (bytes ++ rest) := by
  obtain ⟨c, encoded⟩ := form.exists_char
  obtain ⟨text, rfl⟩ := valid
  exact ⟨c :: text, by simp only [encode, List.flatMap_cons, encoded]⟩

theorem Valid.eq_nil_or_form {bytes : List UInt8} (valid : Valid bytes) :
    bytes = [] ∨ ∃ form rest, bytes = form ++ rest ∧ Form form ∧ Valid rest := by
  obtain ⟨text, rfl⟩ := valid
  cases text with
  | nil => exact Or.inl rfl
  | cons c text => exact Or.inr ⟨_, encode text, rfl, form_utf8EncodeChar c, text, rfl⟩

end Utf8
