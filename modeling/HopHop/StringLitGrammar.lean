import HopHop.StringLit
import HopHop.Utf8
import Mathlib.Tactic.SplitIfs

namespace HopHop

/-! The literal grammar of the language, stated without reference to the decoder. An item is
given by its source text, the bytes it denotes and the text that follows it; the latter only
matters where a shorter reading has to yield to a longer one. -/

inductive LineEnd : List UInt8 → List UInt8 → Prop
  | lf {rest} : LineEnd [Byte.newline] rest
  | crlf {rest} : LineEnd [Byte.carriageReturn, Byte.newline] rest
  | cr {rest} : rest.head? ≠ some Byte.newline → LineEnd [Byte.carriageReturn] rest

/-- The single-character escapes `\a \b \f \n \r \t \v \\ \" \'` with their values. -/
def simpleEscapes : List (UInt8 × UInt8) :=
  [(0x61, 0x07), (0x62, 0x08), (0x66, 0x0C), (0x6E, 0x0A), (0x72, 0x0D), (0x74, 0x09), (0x76, 0x0B),
    (0x5C, 0x5C), (0x22, 0x22), (0x27, 0x27)]

/-- The number written by a run of hexadecimal digits. -/
def hexNumber (digits : List UInt8) : Option Nat :=
  digits.foldlM (fun v c => (hexDigit c).map fun d => v * 16 + d) 0

def octalNumber (a b c : UInt8) : Nat :=
  (a.toNat - 0x30) * 64 + (b.toNat - 0x30) * 8 + (c.toNat - 0x30)

def IsOctal (a b c : UInt8) : Prop :=
  octalDigit a = true ∧ octalDigit b = true ∧ octalDigit c = true

/-- Items of interpreted literals, with octal escapes up to `octalMax`. An octal escape denotes
the low eight bits of its value. -/
inductive InterpretedItem (octalMax : Nat) : List UInt8 → List UInt8 → List UInt8 → Prop
  | plain {c rest} : c ≠ Byte.backslash → c ≠ Byte.carriageReturn → c ≠ Byte.newline →
      InterpretedItem octalMax [c] [c] rest
  | lineEnd {text rest} : LineEnd text rest → InterpretedItem octalMax text [Byte.newline] rest
  | elision {text rest} : LineEnd text rest → InterpretedItem octalMax (Byte.backslash :: text) [] rest
  | simple {c b rest} : (c, b) ∈ simpleEscapes → InterpretedItem octalMax [Byte.backslash, c] [b] rest
  | hex {h l rest hi lo} : hexDigit h = some hi → hexDigit l = some lo →
      InterpretedItem octalMax [Byte.backslash, 0x78, h, l] [UInt8.ofNat (hi * 16 + lo)] rest
  | octal {a b c rest} : IsOctal a b c → octalNumber a b c ≤ octalMax →
      InterpretedItem octalMax [Byte.backslash, a, b, c] [UInt8.ofNat (octalNumber a b c)] rest
  | unicodeShort {digits rest} {r : Char} : digits.length = 4 → hexNumber digits = some r.toNat →
      InterpretedItem octalMax (Byte.backslash :: 0x75 :: digits) (String.utf8EncodeChar r) rest
  | unicodeLong {digits rest} {r : Char} : digits.length = 8 → hexNumber digits = some r.toNat →
      InterpretedItem octalMax (Byte.backslash :: 0x55 :: digits) (String.utf8EncodeChar r) rest

/-- Items of raw literals. -/
inductive RawItem : List UInt8 → List UInt8 → List UInt8 → Prop
  | plain {c rest} : c ≠ Byte.carriageReturn → c ≠ Byte.newline →
      ¬ (c = Byte.backslash ∧ rest.head? = some Byte.backquote) → RawItem [c] [c] rest
  | lineEnd {text rest} : LineEnd text rest → RawItem text [Byte.newline] rest
  | backquote {rest} : RawItem [Byte.backslash, Byte.backquote] [Byte.backquote] rest

def GrammarItem (octalMax : Nat) (delim : UInt8) : List UInt8 → List UInt8 → List UInt8 → Prop :=
  if delim = Byte.backquote then RawItem else InterpretedItem octalMax

/-- A body that is a sequence of items denotes the concatenation of their values. -/
inductive Denotes (octalMax : Nat) (delim : UInt8) : List UInt8 → List UInt8 → Prop
  | nil : Denotes octalMax delim [] []
  | cons {text bytes rest out} : GrammarItem octalMax delim text bytes rest → Denotes octalMax delim rest out →
      Denotes octalMax delim (text ++ rest) (bytes ++ out)

/-- Largest value of a three-digit octal escape. -/
def octalLimit : Nat := 0o777

theorem mem_simpleEscapes {c b : UInt8} : (c, b) ∈ simpleEscapes ↔ simpleEscape c = some b := by
  simp only [simpleEscapes, List.mem_cons, List.not_mem_nil, or_false, Prod.mk.injEq, simpleEscape]
  split_ifs with h1 h2 h3 h4 h5 h6 h7 h8 <;> simp_all <;> grind

theorem lineEnd_cr {rest : List UInt8} :
    ∃ text rest', Byte.carriageReturn :: rest = text ++ rest' ∧ LineEnd text rest' ∧ crLen rest = text.length := by
  unfold crLen
  split
  next follows =>
    obtain ⟨tail, rfl⟩ : ∃ tail, rest = Byte.newline :: tail := by
      cases rest with
      | nil => simp at follows
      | cons c tail => exact ⟨tail, by simpa using follows⟩
    exact ⟨_, tail, rfl, .crlf, rfl⟩
  next alone => exact ⟨_, rest, rfl, .cr alone, rfl⟩

theorem hexDigit_lt {c : UInt8} {d : Nat} (digit : hexDigit c = some d) : d < 16 := by
  unfold hexDigit at digit
  simp only [UInt8.le_iff_toNat_le] at digit
  split_ifs at digit with h1 h2 h3
  all_goals
    cases Option.some.inj digit
    simp only [UInt8.reduceToNat] at *
    omega

/-- Shifting in one digit does not lose bits while the value stays below `2 ^ 28`. -/
theorem shiftDigit_toNat {v : UInt32} {d : Nat} (small : v.toNat < 2 ^ 28) (digit : d < 16) :
    ((v <<< 4) ||| UInt32.ofNat d).toNat = v.toNat * 16 + d := by
  have dropped : d % 2 ^ 32 = d := Nat.mod_eq_of_lt (by omega)
  have shifted : v.toNat <<< 4 % 2 ^ 32 = v.toNat <<< 4 := by
    rw [Nat.shiftLeft_eq]
    exact Nat.mod_eq_of_lt (by omega)
  have joined := Nat.shiftLeft_add_eq_or_of_lt (show d < 2 ^ 4 by omega) v.toNat
  simp only [UInt32.toNat_or, UInt32.toNat_shiftLeft, UInt32.toNat_ofNat', dropped]
  change v.toNat <<< 4 % 2 ^ 32 ||| d = _
  rw [shifted, ← joined, Nat.shiftLeft_eq]

theorem decodeHex_from (digits : List UInt8) (v : UInt32) (k : Nat) (small : v.toNat < 16 ^ k)
    (fits : k + digits.length ≤ 8) :
    (digits.foldlM hexStep v).map UInt32.toNat =
      digits.foldlM (fun v c => (hexDigit c).map fun d => v * 16 + d) v.toNat := by
  induction digits generalizing v k with
  | nil => rfl
  | cons c digits ih =>
    simp only [List.length_cons] at fits
    simp only [List.foldlM_cons, hexStep]
    cases digit : hexDigit c with
    | none => rfl
    | some d =>
      have bound := hexDigit_lt digit
      have below : 16 ^ k ≤ 16 ^ 7 := Nat.pow_le_pow_right (by decide) (by omega)
      have value := shiftDigit_toNat (v := v) (by omega) bound
      have next := ih ((v <<< 4) ||| UInt32.ofNat d) (k + 1) (by rw [value, Nat.pow_succ]; omega) (by omega)
      rw [value] at next
      exact next

theorem decodeHex_eq {digits : List UInt8} (fits : digits.length ≤ 8) :
    (decodeHex digits).map UInt32.toNat = hexNumber digits :=
  decodeHex_from digits 0 0 (by decide) (by omega)

theorem utf8Piece_eq (rune : UInt32) (m k s : Nat) (shift : s < 32) (fits : 2 ^ k * m + 2 ^ k ≤ 256) :
    utf8Piece (UInt32.ofNat (2 ^ k * m)) (UInt32.ofNat (2 ^ k - 1)) rune (UInt32.ofNat s) =
      UInt8.ofNat (rune.toNat / 2 ^ s % 2 ^ k + 2 ^ k * m) := by
  have positive : 0 < 2 ^ k := Nat.two_pow_pos k
  have masked := Nat.mod_lt (rune.toNat / 2 ^ s) positive
  have joined := Nat.two_pow_add_eq_or_of_lt masked m
  apply UInt8.toNat.inj
  simp only [utf8Piece, UInt32.toNat_toUInt8, UInt32.toNat_or, UInt32.toNat_and, UInt32.toNat_shiftRight,
    UInt32.toNat_ofNat', UInt8.toNat_ofNat']
  rw [Nat.mod_eq_of_lt (show 2 ^ k * m < 2 ^ 32 by omega), Nat.mod_eq_of_lt (show 2 ^ k - 1 < 2 ^ 32 by omega),
    Nat.mod_eq_of_lt (show s < 2 ^ 32 by omega), Nat.mod_eq_of_lt shift, Nat.and_two_pow_sub_one_eq_mod,
    Nat.shiftRight_eq_div_pow, ← joined, Nat.add_comm]

theorem runeToUtf8_char (r : Char) : runeToUtf8 r.val = some (String.utf8EncodeChar r) := by
  have range := Utf8.char_range r
  have two : utf8Piece 0xC0 0x1F r.val 6 = UInt8.ofNat (r.val.toNat / 64 % 32 + 192) :=
    utf8Piece_eq r.val 6 5 6 (by decide) (by decide)
  have three : utf8Piece 0xE0 0x0F r.val 12 = UInt8.ofNat (r.val.toNat / 4096 % 16 + 224) :=
    utf8Piece_eq r.val 14 4 12 (by decide) (by decide)
  have four : utf8Piece 0xF0 0x07 r.val 18 = UInt8.ofNat (r.val.toNat / 262144 % 8 + 240) :=
    utf8Piece_eq r.val 30 3 18 (by decide) (by decide)
  have tail0 : utf8Piece 0x80 0x3F r.val 0 = UInt8.ofNat (r.val.toNat / 1 % 64 + 128) :=
    utf8Piece_eq r.val 2 6 0 (by decide) (by decide)
  have tail6 : utf8Piece 0x80 0x3F r.val 6 = UInt8.ofNat (r.val.toNat / 64 % 64 + 128) :=
    utf8Piece_eq r.val 2 6 6 (by decide) (by decide)
  have tail12 : utf8Piece 0x80 0x3F r.val 12 = UInt8.ofNat (r.val.toNat / 4096 % 64 + 128) :=
    utf8Piece_eq r.val 2 6 12 (by decide) (by decide)
  rw [Nat.div_one] at tail0
  simp only [runeToUtf8, String.utf8EncodeChar, UInt32.le_iff_toNat_le, UInt32.reduceToNat, two, three, four,
    tail0, tail6, tail12]
  split_ifs
  · rfl
  · rfl
  · rfl
  · rfl
  · omega

theorem octalDigit_iff {c : UInt8} : octalDigit c = true ↔ 0x30 ≤ c.toNat ∧ c.toNat ≤ 0x37 := by
  simp only [octalDigit, Bool.and_eq_true, decide_eq_true_eq, UInt8.le_iff_toNat_le, UInt8.reduceToNat]

theorem IsOctal.number_le {a b c : UInt8} (octal : IsOctal a b c) : octalNumber a b c ≤ octalLimit := by
  obtain ⟨ha, hb, hc⟩ := octal
  rw [octalDigit_iff] at ha hb hc
  unfold octalNumber octalLimit
  omega

theorem IsOctal.joined {a b c : UInt8} (octal : IsOctal a b c) :
    ((a.toNat - 0x30) <<< 6) ||| ((b.toNat - 0x30) <<< 3) ||| (c.toNat - 0x30) = octalNumber a b c := by
  obtain ⟨ha, hb, hc⟩ := octal
  rw [octalDigit_iff] at ha hb hc
  have low : c.toNat - 0x30 < 2 ^ 3 := by omega
  have middle : (b.toNat - 0x30) <<< 3 ||| (c.toNat - 0x30) < 2 ^ 6 := by
    rw [← Nat.shiftLeft_add_eq_or_of_lt low, Nat.shiftLeft_eq]
    omega
  rw [Nat.or_assoc, ← Nat.shiftLeft_add_eq_or_of_lt middle, ← Nat.shiftLeft_add_eq_or_of_lt low,
    Nat.shiftLeft_eq, Nat.shiftLeft_eq]
  unfold octalNumber
  omega

/-- The decoder's split of the text: an item of the grammar, of the reported length. -/
def Splits (octalMax : Nat) (delim : UInt8) (text : List UInt8) (item : LitItem) : Prop :=
  ∃ word rest, text = word ++ rest ∧ GrammarItem octalMax delim word item.bytes rest ∧ item.len = word.length

/-- The same for an escape, whose backslash is already read. -/
def SplitsEscape (text : List UInt8) (item : LitItem) : Prop :=
  ∃ word rest, text = word ++ rest ∧ InterpretedItem octalLimit (Byte.backslash :: word) item.bytes rest ∧
    item.len = word.length + 1

theorem rawItem_sound (i : Nat) (c : UInt8) (rest : List UInt8) :
    ∃ word rest', c :: rest = word ++ rest' ∧ RawItem word (rawItem i c rest).bytes rest' ∧
      (rawItem i c rest).len = word.length := by
  unfold rawItem
  split_ifs with escaped cr
  · obtain ⟨rfl, follows⟩ := escaped
    cases rest with
    | nil => simp at follows
    | cons d rest =>
      obtain rfl : d = Byte.backquote := by simpa using follows
      exact ⟨_, rest, rfl, .backquote, rfl⟩
  · subst cr
    obtain ⟨word, rest', split, lineEnd, length⟩ := @lineEnd_cr rest
    exact ⟨word, rest', split, .lineEnd lineEnd, length⟩
  · by_cases newline : c = Byte.newline
    · subst newline
      exact ⟨[_], rest, rfl, .lineEnd .lf, rfl⟩
    · exact ⟨[c], rest, rfl, .plain cr newline escaped, rfl⟩

theorem hexEscape_sound {i stop : Nat} {more : List UInt8} {item : LitItem}
    (run : hexEscape i stop more = .ok item) : SplitsEscape (0x78 :: more) item := by
  unfold hexEscape at run
  split at run
  next h l rest =>
    split at run
    next hi lo high low =>
      cases run
      have joined := Nat.shiftLeft_add_eq_or_of_lt (i := 4) (hexDigit_lt low) hi
      rw [Nat.shiftLeft_eq] at joined
      refine ⟨[0x78, h, l], rest, rfl, ?_, rfl⟩
      simp only [Nat.shiftLeft_eq, ← joined]
      exact .hex high low
    next => cases run
  next => cases run

theorem unicodeEscape_rune {i stop digits : Nat} {more : List UInt8} {item : LitItem} (fits : digits ≤ 8)
    (run : unicodeEscape i stop digits more = .ok item) :
    digits ≤ more.length ∧ item.len = 2 + digits ∧
      ∃ r : Char, hexNumber (more.take digits) = some r.toNat ∧ item.bytes = String.utf8EncodeChar r := by
  unfold unicodeEscape at run
  split at run
  next => cases run
  next enough =>
    split at run
    next => cases run
    next rune number =>
      split at run
      next => cases run
      next scalar =>
        have valid : rune.isValidChar := by
          simp only [not_or, not_and, UInt32.le_iff_toNat_le, UInt32.lt_iff_toNat_lt, UInt32.reduceToNat] at scalar
          simp only [UInt32.isValidChar, Nat.isValidChar]
          omega
        have encoded : runeToUtf8 rune = some (String.utf8EncodeChar ⟨rune, valid⟩) := runeToUtf8_char ⟨rune, valid⟩
        rw [encoded] at run
        cases run
        refine ⟨by omega, rfl, ⟨rune, valid⟩, ?_, rfl⟩
        rw [← decodeHex_eq (by simp; omega), number]
        rfl

theorem octalEscape_sound {i : Nat} {c : UInt8} {more : List UInt8} {item : LitItem}
    (run : octalEscape i c more = .ok item) : SplitsEscape (c :: more) item := by
  unfold octalEscape at run
  split at run
  next => cases run
  next first =>
    split at run
    next d e rest =>
      split at run
      next others =>
        cases run
        have octal : IsOctal c d e := ⟨by simpa using first, others.1, others.2⟩
        refine ⟨[c, d, e], rest, rfl, ?_, rfl⟩
        simp only [octal.joined]
        exact .octal octal octal.number_le
      next => cases run
    next => cases run

theorem numericEscape_sound {i stop : Nat} {c : UInt8} {more : List UInt8} {item : LitItem}
    (run : numericEscape i stop c more = .ok item) : SplitsEscape (c :: more) item := by
  unfold numericEscape at run
  split_ifs at run with hex short long
  · subst hex
    exact hexEscape_sound run
  · subst short
    obtain ⟨enough, length, r, number, bytes⟩ := unicodeEscape_rune (by decide) run
    have count : (more.take 4).length = 4 := by simp [enough]
    refine ⟨0x75 :: more.take 4, more.drop 4, by simp, ?_, by simp [length, enough]⟩
    rw [bytes]
    exact .unicodeShort count number
  · subst long
    obtain ⟨enough, length, r, number, bytes⟩ := unicodeEscape_rune (by decide) run
    have count : (more.take 8).length = 8 := by simp [enough]
    refine ⟨0x55 :: more.take 8, more.drop 8, by simp, ?_, by simp [length, enough]⟩
    rw [bytes]
    exact .unicodeLong count number
  · exact octalEscape_sound run

theorem escapeItem_sound {i stop : Nat} {text : List UInt8} {item : LitItem}
    (run : escapeItem i stop text = .ok item) : SplitsEscape text item := by
  unfold escapeItem at run
  split at run
  next => cases run
  next c more =>
    split at run
    next newline =>
      cases run
      subst newline
      exact ⟨[_], more, rfl, .elision .lf, rfl⟩
    next =>
      split at run
      next cr =>
        cases run
        subst cr
        obtain ⟨word, rest, split, lineEnd, length⟩ := @lineEnd_cr more
        exact ⟨word, rest, split, .elision lineEnd, by rw [← length]; exact Nat.add_comm _ _⟩
      next =>
        split at run
        next b simple =>
          cases run
          exact ⟨[c], more, rfl, .simple (mem_simpleEscapes.mpr simple), rfl⟩
        next => exact numericEscape_sound run

theorem nextItem_sound {delim c : UInt8} {i stop : Nat} {rest : List UInt8} {item : LitItem}
    (run : nextItem delim i stop c rest = .ok item) : Splits octalLimit delim (c :: rest) item := by
  unfold nextItem at run
  unfold Splits GrammarItem
  split_ifs at run ⊢ with raw
  · cases run
    exact rawItem_sound i c rest
  · unfold interpretedItem at run
    split_ifs at run with escape cr
    · subst escape
      obtain ⟨word, rest', split, grammar, length⟩ := escapeItem_sound run
      exact ⟨Byte.backslash :: word, rest', by rw [split]; rfl, grammar, length⟩
    · cases run
      subst cr
      obtain ⟨word, rest', split, lineEnd, length⟩ := @lineEnd_cr rest
      exact ⟨word, rest', split, .lineEnd lineEnd, length⟩
    · cases run
      by_cases newline : c = Byte.newline
      · subst newline
        exact ⟨[_], rest, rfl, .lineEnd .lf, rfl⟩
      · exact ⟨[c], rest, rfl, .plain escape cr newline, rfl⟩

end HopHop
