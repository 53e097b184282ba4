import Mathlib.Algebra.Ring.Nat
import Mathlib.Data.List.Basic

namespace HopHop

/-! Source bytes. A source text is the list of its bytes; a scanner of the source that walks
an index through `src.ptr` walks a suffix of that list here. -/

namespace Byte

abbrev newline : UInt8 := 0x0A
abbrev carriageReturn : UInt8 := 0x0D
abbrev space : UInt8 := 0x20
abbrev tab : UInt8 := 0x09
abbrev verticalTab : UInt8 := 0x0B
abbrev formFeed : UInt8 := 0x0C
abbrev doubleQuote : UInt8 := 0x22
abbrev singleQuote : UInt8 := 0x27
abbrev backquote : UInt8 := 0x60
abbrev backslash : UInt8 := 0x5C
abbrev slash : UInt8 := 0x2F
abbrev star : UInt8 := 0x2A
abbrev dot : UInt8 := 0x2E
abbrev equals : UInt8 := 0x3D
abbrev plus : UInt8 := 0x2B
abbrev minus : UInt8 := 0x2D
abbrev underscore : UInt8 := 0x5F
abbrev zero : UInt8 := 0x30
abbrev openBrace : UInt8 := 0x7B
abbrev closeBrace : UInt8 := 0x7D

end Byte

/-- The bytes of an ASCII text, for keyword tables and sample sources. -/
def bytesOf (text : String) : List UInt8 :=
  text.toList.map fun c => UInt8.ofNat c.toNat

def isAlpha (c : UInt8) : Bool :=
  (0x41 ≤ c && c ≤ 0x5A) || (0x61 ≤ c && c ≤ 0x7A)

def isDigit (c : UInt8) : Bool :=
  0x30 ≤ c && c ≤ 0x39

def isAlnum (c : UInt8) : Bool :=
  isAlpha c || isDigit c

def isHexDigit (c : UInt8) : Bool :=
  isDigit c || (0x61 ≤ c && c ≤ 0x66) || (0x41 ≤ c && c ≤ 0x46)

/-- Number of leading bytes that satisfy `p`: a `while (pos < src.len && p(src.ptr[pos])) pos++`. -/
def spanLen (p : UInt8 → Bool) : List UInt8 → Nat
  | [] => 0
  | c :: rest => if p c then spanLen p rest + 1 else 0

theorem spanLen_le_length (p : UInt8 → Bool) (rest : List UInt8) : spanLen p rest ≤ rest.length := by
  induction rest with
  | nil => simp [spanLen]
  | cons c rest ih =>
    simp only [spanLen, List.length_cons]
    split <;> omega

theorem exists_tail {text : List UInt8} {c : UInt8} (head : text.head? = some c) : ∃ rest, text = c :: rest := by
  cases text with
  | nil => cases head
  | cons d rest =>
    cases head
    exact ⟨rest, rfl⟩

end HopHop
