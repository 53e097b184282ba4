import Mathlib.Tactic.Basic
import HopHop.Format

namespace HopHop

/-! ### The texts that are written -/

def digitsText (v : Int) : Nat → Int → List UInt8
  | 0, _ => []
  | left + 1, div =>
    if 0 < div then (Byte.zero + UInt8.ofInt ((v.tdiv div).tmod 10)) :: digitsText v left (div.tdiv 10) else []

def i64Text (bits : Nat) (x : Int64) : List UInt8 :=
  let v := asInt bits x.toInt
  let size := if v < 0 then asInt bits (0 - v) else v
  (if v < 0 then [Byte.minus] else []) ++ if size = 0 then [Byte.zero] else digitsText size 10 (growDiv bits size 9 1)

def addressText : List UInt8 := bytesOf "0x0"

def runeText (x : UInt32) : Option (List UInt8) :=
  if x ≤ 0x7F then some [x.toUInt8]
  else if x ≤ 0x7FF then some [((0xC0 : UInt32) ||| (x >>> 6)).toUInt8, ((0x80 : UInt32) ||| (x &&& 0x3F)).toUInt8]
  else if 0xD800 ≤ x ∧ x ≤ 0xDFFF then none
  else if x ≤ 0xFFFF then
    some [((0xE0 : UInt32) ||| (x >>> 12)).toUInt8, ((0x80 : UInt32) ||| ((x >>> 6) &&& 0x3F)).toUInt8,
      ((0x80 : UInt32) ||| (x &&& 0x3F)).toUInt8]
  else if x ≤ 0x10FFFF then
    some [((0xF0 : UInt32) ||| (x >>> 18)).toUInt8, ((0x80 : UInt32) ||| ((x >>> 12) &&& 0x3F)).toUInt8,
      ((0x80 : UInt32) ||| ((x >>> 6) &&& 0x3F)).toUInt8, ((0x80 : UInt32) ||| (x &&& 0x3F)).toUInt8]
  else none

/-- What the language has as runes: the Unicode scalar values. -/
def IsScalar (x : UInt32) : Prop := x < 0xD800 ∨ 0xDFFF < x ∧ x ≤ 0x10FFFF

theorem runeText_isSome_iff (x : UInt32) : (runeText x).isSome = true ↔ IsScalar x := by
  simp only [runeText, IsScalar, UInt32.le_iff_toNat_le, UInt32.lt_iff_toNat_lt, UInt32.reduceToNat]
  split_ifs <;> simp only [Option.isSome_some, Option.isSome_none, Bool.false_eq_true, true_iff, false_iff] <;> omega

inductive Placeholder
  | default | integer | float | text
  deriving DecidableEq, Repr

def Placeholder.word : Placeholder → List UInt8
  | default => [Byte.openBrace, Byte.closeBrace]
  | integer => [Byte.openBrace, 0x69, Byte.closeBrace]
  | float => [Byte.openBrace, 0x66, Byte.closeBrace]
  | text => [Byte.openBrace, 0x73, Byte.closeBrace]

def Placeholder.ofLetter (spec : UInt8) : Option Placeholder :=
  if spec = 0x69 then some integer else if spec = 0x66 then some float else if spec = 0x73 then some text else none

theorem Placeholder.word_ofLetter {spec : UInt8} {place : Placeholder} (letter : ofLetter spec = some place) :
    place.word = [Byte.openBrace, spec, Byte.closeBrace] := by
  rw [ofLetter] at letter
  split_ifs at letter with integer float text
  · rw [← Option.some.inj letter, integer]
    rfl
  · rw [← Option.some.inj letter, float]
    rfl
  · rw [← Option.some.inj letter, text]
    rfl

theorem Placeholder.ofLetter_notOpen {spec : UInt8} {place : Placeholder} (letter : ofLetter spec = some place) :
    spec ≠ Byte.openBrace := by
  rintro rfl
  cases letter

theorem Placeholder.ofLetter_notClose {spec : UInt8} {place : Placeholder} (letter : ofLetter spec = some place) :
    spec ≠ Byte.closeBrace := by
  rintro rfl
  cases letter

theorem Placeholder.exists_letter {place : Placeholder} (notDefault : place ≠ default) :
    ∃ spec, ofLetter spec = some place := by
  cases place with
  | default => exact absurd rfl notDefault
  | integer => exact ⟨0x69, rfl⟩
  | float => exact ⟨0x66, rfl⟩
  | text => exact ⟨0x73, rfl⟩

variable {F64 : Type} {target : FmtTarget F64}

/-- What an argument looks like in a place for it, where it fits there. -/
def FmtArg.rendering (target : FmtTarget F64) (arg : FmtArg F64) : Placeholder → Option (List UInt8)
  | .default =>
    match arg.type with
    | .i8 | .i16 | .i32 | .i64 | .int => some (i64Text target.intBits arg.asI64)
    | .u8 | .u16 | .u32 | .u64 | .uint => some (i64Text target.intBits arg.asU64.toInt64)
    | .f32 | .f64 => some (target.f64Text arg.asF64)
    | .reference .str | .pointer .str => some arg.asStr
    | .bool => some (bytesOf (if arg.asBool then "true" else "false"))
    | .rune => runeText arg.asRune
    | .type => some arg.typeName
    | .rawptr | .reference _ | .pointer _ => some addressText
    | _ => none
  | .integer =>
    match arg.type with
    | .i8 | .i16 | .i32 | .i64 | .int => some (i64Text target.intBits arg.asI64)
    | .u8 | .u16 | .u32 | .u64 | .uint => some (i64Text target.intBits arg.asU64.toInt64)
    | _ => none
  | .float =>
    match arg.type with
    | .f32 | .f64 => some (target.f64Text arg.asF64)
    | _ => none
  | .text =>
    match arg.type with
    | .reference .str | .pointer .str => some arg.asStr
    | _ => none

/-- What a format string and arguments amount to: the bytes of the string, doubled braces reduced to one, and in each
place the rendering of the next argument. -/
inductive Formats (target : FmtTarget F64) : List UInt8 → List (FmtArg F64) → List UInt8 → Prop
  | done : Formats target [] [] []
  | openBrace {fmt args out} : Formats target fmt args out →
      Formats target (Byte.openBrace :: Byte.openBrace :: fmt) args (Byte.openBrace :: out)
  | closeBrace {fmt args out} : Formats target fmt args out →
      Formats target (Byte.closeBrace :: Byte.closeBrace :: fmt) args (Byte.closeBrace :: out)
  | literal {byte fmt args out} : byte ≠ Byte.openBrace → byte ≠ Byte.closeBrace → Formats target fmt args out →
      Formats target (byte :: fmt) args (byte :: out)
  | place (place : Placeholder) {fmt arg args text out} : arg.rendering target place = some text → Formats target fmt args out →
      Formats target (place.word ++ fmt) (arg :: args) (text ++ out)

theorem FmtArg.rendering_integer (v : FmtArg F64) : v.rendering target .integer =
    if v.type.isSigned then some (i64Text target.intBits v.asI64)
    else if v.type.isUnsigned then some (i64Text target.intBits v.asU64.toInt64) else none := by
  obtain ⟨type, _, _, _, _, _, _, _⟩ := v
  cases type <;> rfl

theorem FmtArg.rendering_float (v : FmtArg F64) :
    v.rendering target .float = if v.type.isFloat then some (target.f64Text v.asF64) else none := by
  obtain ⟨type, _, _, _, _, _, _, _⟩ := v
  cases type <;> rfl

theorem FmtArg.rendering_text (v : FmtArg F64) :
    v.rendering target .text = if v.type.isText then some v.asStr else none := by
  obtain ⟨type, _, _, _, _, _, _, _⟩ := v
  cases type with
  | pointer elem | reference elem => cases elem <;> rfl
  | _ => rfl

/-! ### What the functions write -/

section Written

variable {payloadCap : Nat}

theorem fmtWriteText_append (o : FmtOut) (first second : List UInt8) :
    fmtWriteText payloadCap o (first ++ second) = fmtWriteText payloadCap (fmtWriteText payloadCap o first) second :=
  List.foldl_append

theorem fmtWriteText_cons (o : FmtOut) (byte : UInt8) (text : List UInt8) :
    fmtWriteText payloadCap o (byte :: text) = fmtWriteText payloadCap (fmtWriteByte payloadCap o byte) text := rfl

theorem fmtWriteDigits_eq (v : Int) (left : Nat) (div : Int) (o : FmtOut) :
    fmtWriteDigits payloadCap v left div o = fmtWriteText payloadCap o (digitsText v left div) := by
  induction left generalizing div o with
  | zero => rfl
  | succ left ih =>
    rw [fmtWriteDigits, digitsText]
    split
    · rw [fmtWriteText_cons]
      exact ih _ _
    · rfl

theorem fmtWriteI64_eq (bits : Nat) (o : FmtOut) (x : Int64) :
    fmtWriteI64 payloadCap bits o x = fmtWriteText payloadCap o (i64Text bits x) := by
  rw [fmtWriteI64, i64Text]
  by_cases negative : asInt bits x.toInt < 0
  · simp only [negative, if_true, fmtWriteText_append, fmtWriteDigits_eq]
    split <;> rfl
  · simp only [negative, if_false, List.nil_append, fmtWriteDigits_eq]
    split <;> rfl

theorem fmtWriteHexUint_zero (bits : Nat) (o : FmtOut) :
    fmtWriteHexUint payloadCap bits o fmtRawptrAddr = fmtWriteText payloadCap o addressText := rfl

theorem fmtWriteRune_ok_iff (o o' : FmtOut) (x : UInt32) :
    fmtWriteRune payloadCap o x = .ok o' ↔ ∃ text, runeText x = some text ∧ fmtWriteText payloadCap o text = o' := by
  rw [fmtWriteRune, runeText]
  split_ifs <;> simp [fmtWriteText]

theorem fmtWriteDefault_ok_iff (o o' : FmtOut) (v : FmtArg F64) :
    fmtWriteDefault payloadCap target o v = .ok o' ↔
      ∃ text, v.rendering target .default = some text ∧ fmtWriteText payloadCap o text = o' := by
  obtain ⟨type, _, _, _, _, _, _, _⟩ := v
  cases type with
  | rune =>
    simp only [fmtWriteDefault, FmtArg.rendering, FmtType.isSigned, FmtType.isUnsigned, beq_iff_eq, reduceCtorEq,
      Bool.or_eq_true, or_self, if_false, if_true, fmtWriteRune_ok_iff]
  | pointer elem | reference elem =>
    by_cases isStr : elem = .str
    all_goals
      simp [fmtWriteDefault, FmtArg.rendering, FmtType.isSigned, FmtType.isUnsigned, FmtType.isAddress, FmtType.kind,
        isStr, fmtWriteHexUint_zero]
  | _ =>
    simp [fmtWriteDefault, FmtArg.rendering, FmtType.isSigned, FmtType.isUnsigned, FmtType.isAddress, FmtType.kind,
      fmtWriteI64_eq, fmtWriteU64, fmtWriteF64, fmtWriteHexUint_zero]

theorem fmtWriteIAny_ok_iff (o o' : FmtOut) (v : FmtArg F64) :
    fmtWriteIAny payloadCap target o v = .ok o' ↔
      ∃ text, v.rendering target .integer = some text ∧ fmtWriteText payloadCap o text = o' := by
  obtain ⟨type, _, _, _, _, _, _, _⟩ := v
  cases type
  all_goals
    simp [fmtWriteIAny, FmtArg.rendering, FmtType.isSigned, FmtType.isUnsigned, fmtWriteI64_eq, fmtWriteU64]

theorem fmtWriteSpec_ok_iff (spec : UInt8) (o o' : FmtOut) (v : FmtArg F64) :
    fmtWriteSpec payloadCap target spec o v = .ok o' ↔ ∃ place, Placeholder.ofLetter spec = some place ∧
      ∃ text, v.rendering target place = some text ∧ fmtWriteText payloadCap o text = o' := by
  rw [fmtWriteSpec, Placeholder.ofLetter]
  by_cases integer : spec = 0x69
  · simp only [integer, if_true, fmtWriteIAny_ok_iff, Option.some.injEq, exists_eq_left']
  by_cases float : spec = 0x66
  · subst float
    simp only [if_neg integer, if_true, Option.some.injEq, exists_eq_left', FmtArg.rendering_float, FmtType.isFloat,
      fmtWriteF64]
    by_cases narrow : (v.type == .f32) = true
    · simp only [narrow, if_true, Bool.true_or, Option.some.injEq, exists_eq_left', Except.ok.injEq]
    · rw [Bool.not_eq_true] at narrow
      by_cases wide : (v.type == .f64) = true
      · simp only [narrow, wide, if_true, Bool.false_eq_true, if_false, Bool.or_true, Option.some.injEq, exists_eq_left', Except.ok.injEq]
      · simp only [narrow, wide, Bool.false_eq_true, if_false, Bool.or_self, reduceCtorEq, false_and, exists_false]
  by_cases isText : spec = 0x73
  · subst isText
    simp only [if_neg integer, if_neg float, if_true, Option.some.injEq, exists_eq_left', FmtArg.rendering_text,
      FmtType.isText]
    by_cases reference : (v.type == .reference .str) = true
    · simp only [reference, if_true, Bool.true_or, Option.some.injEq, exists_eq_left', Except.ok.injEq]
    · rw [Bool.not_eq_true] at reference
      by_cases pointer : (v.type == .pointer .str) = true
      · simp only [reference, pointer, if_true, Bool.false_eq_true, if_false, Bool.or_true, Option.some.injEq,
          exists_eq_left', Except.ok.injEq]
      · simp only [reference, pointer, Bool.false_eq_true, if_false, Bool.or_self, reduceCtorEq, false_and, exists_false]
  · simp only [integer, float, isText, if_false, reduceCtorEq, false_and, exists_false]

end Written

/-! ### The loop -/

variable {payloadCap : Nat} {fmt : List UInt8} {args : List (FmtArg F64)}

theorem Formats.of_loop {o o' : FmtOut} (returned : fmtWriteLoop payloadCap target fmt args o = .ok o') :
    ∃ out, Formats target fmt args out ∧ fmtWriteText payloadCap o out = o' := by
  fun_induction fmtWriteLoop payloadCap target fmt args o with
  | case1 o => exact ⟨[], .done, Except.ok.inj returned⟩
  | case4 args o bs ih =>
    obtain ⟨out, formats, written⟩ := ih returned
    exact ⟨_, .openBrace formats, written⟩
  | case7 o bs arg args next written _ ih =>
    obtain ⟨text, rendered, here⟩ := (fmtWriteDefault_ok_iff o next arg).mp written
    obtain ⟨out, formats, later⟩ := ih returned
    refine ⟨text ++ out, .place .default rendered formats, ?_⟩
    rw [fmtWriteText_append, here, later]
  | case12 o spec _ _ c2 bs closed arg args next written ih =>
    obtain ⟨place, letter, text, rendered, here⟩ := (fmtWriteSpec_ok_iff spec o next arg).mp written
    obtain ⟨out, formats, later⟩ := ih returned
    have whole := Formats.place _ rendered formats
    rw [Placeholder.word_ofLetter letter, ← not_not.mp closed] at whole
    refine ⟨text ++ out, whole, ?_⟩
    rw [fmtWriteText_append, here, later]
  | case14 args o bs _ ih =>
    obtain ⟨out, formats, written⟩ := ih returned
    exact ⟨_, .closeBrace formats, written⟩
  | case16 byte bs args o notOpen notClose ih =>
    obtain ⟨out, formats, written⟩ := ih returned
    exact ⟨_, .literal notOpen notClose formats, written⟩
  | _ => cases returned

theorem Formats.loop {out : List UInt8} (formats : Formats target fmt args out) (o : FmtOut) :
    fmtWriteLoop payloadCap target fmt args o = .ok (fmtWriteText payloadCap o out) := by
  induction formats generalizing o with
  | done => rfl
  | openBrace _ ih =>
    rw [fmtWriteLoop.eq_def]
    simp only [if_true]
    exact ih _
  | closeBrace _ ih =>
    rw [fmtWriteLoop.eq_def]
    simp only [if_true, if_neg (by decide : ¬Byte.closeBrace = Byte.openBrace)]
    exact ih _
  | literal notOpen notClose _ ih =>
    rw [fmtWriteLoop.eq_def]
    simp only [notOpen, notClose, if_false]
    exact ih _
  | @place place fmt arg args text out rendered _ ih =>
    rw [fmtWriteText_append, ← ih]
    by_cases isDefault : place = .default
    · have written : fmtWriteDefault payloadCap target o arg = .ok (fmtWriteText payloadCap o text) :=
        (fmtWriteDefault_ok_iff o _ arg).mpr ⟨text, isDefault ▸ rendered, rfl⟩
      rw [isDefault, fmtWriteLoop.eq_def, Placeholder.word]
      simp only [List.cons_append, if_true, written]
      rfl
    · obtain ⟨spec, letter⟩ := Placeholder.exists_letter isDefault
      have written : fmtWriteSpec payloadCap target spec o arg = .ok (fmtWriteText payloadCap o text) :=
        (fmtWriteSpec_ok_iff spec o _ arg).mpr ⟨place, letter, text, rendered, rfl⟩
      rw [Placeholder.word_ofLetter letter, fmtWriteLoop.eq_def]
      simp only [List.cons_append, List.nil_append, if_true, Placeholder.ofLetter_notOpen letter,
        Placeholder.ofLetter_notClose letter, if_false, written, ne_eq, not_true_eq_false]

/-! ### The check -/

theorem fmtCheckDefault_ok_iff (v : FmtArg F64) :
    (∃ text, v.rendering target .default = some text) ↔
      fmtCheckDefault v.type = .ok () ∧ (v.type = .rune → IsScalar v.asRune) := by
  obtain ⟨type, _, _, _, _, _, asRune, _⟩ := v
  cases type with
  | rune =>
    simp only [FmtArg.rendering, ← runeText_isSome_iff, Option.isSome_iff_exists, forall_const]
    exact ⟨fun found => ⟨rfl, found⟩, And.right⟩
  | pointer elem | reference elem =>
    by_cases isStr : elem = .str
    all_goals
      simp [fmtCheckDefault, FmtArg.rendering, FmtType.isInteger, FmtType.isSigned, FmtType.isUnsigned, FmtType.isFloat,
        FmtType.isText, FmtType.isAddress, FmtType.kind, isStr]
  | _ =>
    simp [fmtCheckDefault, FmtArg.rendering, FmtType.isInteger, FmtType.isSigned, FmtType.isUnsigned, FmtType.isFloat,
      FmtType.isText, FmtType.isAddress, FmtType.kind]

theorem fmtCheckSpec_ok_iff (spec : UInt8) (v : FmtArg F64) :
    (∃ place, Placeholder.ofLetter spec = some place ∧ ∃ text, v.rendering target place = some text) ↔
      fmtCheckSpec spec v.type = .ok () ∧ (v.type = .rune → IsScalar v.asRune) := by
  rw [fmtCheckSpec, Placeholder.ofLetter]
  by_cases integer : spec = 0x69
  · simp only [integer, if_true, Option.some.injEq, exists_eq_left', FmtArg.rendering_integer]
    cases v.type <;> simp [FmtType.isInteger, FmtType.isSigned, FmtType.isUnsigned]
  by_cases float : spec = 0x66
  · subst float
    simp only [if_neg integer, if_true, Option.some.injEq, exists_eq_left', FmtArg.rendering_float]
    by_cases fits : v.type.isFloat = true
    · have other : v.type ≠ .rune := by
        intro rune
        rw [rune] at fits
        cases fits
      simp only [fits, other, if_true, Option.some.injEq, exists_eq', false_implies, and_self]
    · simp only [fits, if_false, reduceCtorEq, exists_false, false_and]
  by_cases isText : spec = 0x73
  · subst isText
    simp only [if_neg integer, if_neg float, if_true, Option.some.injEq, exists_eq_left', FmtArg.rendering_text]
    by_cases fits : v.type.isText = true
    · have other : v.type ≠ .rune := by
        intro rune
        rw [rune] at fits
        cases fits
      simp only [fits, other, if_true, Option.some.injEq, exists_eq', false_implies, and_self]
    · simp only [fits, if_false, reduceCtorEq, exists_false, false_and]
  · simp only [integer, float, isText, if_false, reduceCtorEq, false_and, exists_false]

/-- The runes among the arguments are Unicode scalar values. -/
def ScalarRunes (args : List (FmtArg F64)) : Prop := ∀ arg ∈ args, arg.type = .rune → IsScalar arg.asRune

theorem Formats.of_check {types : List FmtType} (checked : fmtCheckConstFormat fmt types = .ok ())
    (same : args.map FmtArg.type = types) (scalars : ScalarRunes args) : ∃ out, Formats target fmt args out := by
  fun_induction fmtCheckConstFormat fmt types generalizing args with
  | case1 =>
    rw [List.map_eq_nil_iff.mp same]
    exact ⟨[], .done⟩
  | case4 types bs ih =>
    obtain ⟨out, formats⟩ := ih checked same scalars
    exact ⟨_, .openBrace formats⟩
  | case7 bs t types fits _ ih =>
    obtain ⟨arg, args, rfl, rfl, rfl⟩ := List.map_eq_cons_iff.mp same
    obtain ⟨here, later⟩ := List.forall_mem_cons.mp scalars
    obtain ⟨text, rendered⟩ := (fmtCheckDefault_ok_iff arg).mpr ⟨fits, here⟩
    obtain ⟨out, formats⟩ := ih checked rfl later
    exact ⟨_, .place .default rendered formats⟩
  | case11 spec _ _ bs t types fits ih =>
    obtain ⟨arg, args, rfl, rfl, rfl⟩ := List.map_eq_cons_iff.mp same
    obtain ⟨here, later⟩ := List.forall_mem_cons.mp scalars
    obtain ⟨place, letter, text, rendered⟩ := (fmtCheckSpec_ok_iff spec arg).mpr ⟨fits, here⟩
    obtain ⟨out, formats⟩ := ih checked rfl later
    have whole := Formats.place _ rendered formats
    rw [Placeholder.word_ofLetter letter] at whole
    exact ⟨_, whole⟩
  | case14 types bs _ ih =>
    obtain ⟨out, formats⟩ := ih checked same scalars
    exact ⟨_, .closeBrace formats⟩
  | case16 byte bs types notOpen notClose ih =>
    obtain ⟨out, formats⟩ := ih checked same scalars
    exact ⟨_, .literal notOpen notClose formats⟩
  | _ => cases checked

theorem Formats.check {out : List UInt8} (formats : Formats target fmt args out) :
    fmtCheckConstFormat fmt (args.map FmtArg.type) = .ok () ∧ ScalarRunes args := by
  induction formats with
  | done => exact ⟨rfl, fun _ none => (List.not_mem_nil none).elim⟩
  | openBrace _ ih =>
    rw [fmtCheckConstFormat.eq_def]
    simp only [if_true]
    exact ih
  | closeBrace _ ih =>
    rw [fmtCheckConstFormat.eq_def]
    simp only [if_true, if_neg (by decide : ¬Byte.closeBrace = Byte.openBrace)]
    exact ih
  | literal notOpen notClose _ ih =>
    rw [fmtCheckConstFormat.eq_def]
    simp only [notOpen, notClose, if_false]
    exact ih
  | @place place fmt arg args text out rendered _ ih =>
    rw [List.map_cons]
    by_cases isDefault : place = .default
    · obtain ⟨fits, scalar⟩ := (fmtCheckDefault_ok_iff arg).mp ⟨text, isDefault ▸ rendered⟩
      refine ⟨?_, List.forall_mem_cons.mpr ⟨scalar, ih.2⟩⟩
      rw [isDefault, fmtCheckConstFormat.eq_def, Placeholder.word]
      simp only [List.cons_append, if_true, fits]
      exact ih.1
    · obtain ⟨spec, letter⟩ := Placeholder.exists_letter isDefault
      obtain ⟨fits, scalar⟩ := (fmtCheckSpec_ok_iff spec arg).mp ⟨place, letter, text, rendered⟩
      refine ⟨?_, List.forall_mem_cons.mpr ⟨scalar, ih.2⟩⟩
      rw [Placeholder.word_ofLetter letter, fmtCheckConstFormat.eq_def]
      simp only [List.cons_append, List.nil_append, if_true, Placeholder.ofLetter_notOpen letter,
        Placeholder.ofLetter_notClose letter, if_false, fits]
      exact ih.1

/-! ### The buffer -/

theorem fmtWriteByte_oi (o : FmtOut) (byte : UInt8) : (fmtWriteByte payloadCap o byte).oi = o.oi + 1 := rfl

theorem fmtWriteText_oi (o : FmtOut) (text : List UInt8) : (fmtWriteText payloadCap o text).oi = o.oi + text.length := by
  induction text generalizing o with
  | nil => rfl
  | cons byte text ih =>
    rw [fmtWriteText_cons, ih, List.length_cons]
    simp only [fmtWriteByte]
    omega

theorem fmtWriteText_buf (o : FmtOut) (text : List UInt8) (k : Nat) :
    (fmtWriteText payloadCap o text).buf k =
      if o.oi ≤ k ∧ k < payloadCap then (text[k - o.oi]?).getD (o.buf k) else o.buf k := by
  induction text generalizing o with
  | nil => simp only [fmtWriteText, List.foldl_nil, List.getElem?_nil, Option.getD_none, ite_self]
  | cons byte text ih =>
    rw [fmtWriteText_cons, ih]
    have other : k ≠ o.oi → (fmtWriteByte payloadCap o byte).buf k = o.buf k := by
      intro apart
      rw [fmtWriteByte]
      split
      · exact Function.update_of_ne apart ..
      · rfl
    rcases Nat.lt_trichotomy k o.oi with before | here | behind
    · simp only [fmtWriteByte_oi, show ¬o.oi + 1 ≤ k by omega, show ¬o.oi ≤ k by omega, false_and, if_false,
        other (by omega)]
    · simp only [here, fmtWriteByte_oi, show ¬o.oi + 1 ≤ o.oi by omega, Nat.le_refl, false_and, true_and, if_false,
        Nat.sub_self, List.getElem?_cons_zero, Option.getD_some]
      rw [fmtWriteByte]
      split
      · exact Function.update_self ..
      · rfl
    · have later : k - o.oi = k - (o.oi + 1) + 1 := by omega
      simp only [fmtWriteByte_oi, show o.oi + 1 ≤ k by omega, show o.oi ≤ k by omega, true_and, later,
        List.getElem?_cons_succ, other (by omega)]

/-- The byte of a buffer behind a pointer after a text was written to it that may be longer. -/
def storedByte (buf : Nat → UInt8) (cap : Int) (out : List UInt8) (k : Nat) : UInt8 :=
  if 0 < cap ∧ k = min (cap - 1).toNat out.length then 0
  else if k < (cap - 1).toNat then (out[k]?).getD (buf k) else buf k

theorem storedByte_of_room {cap : Int} (room : 0 < cap) (buf : Nat → UInt8) (out : List UInt8) :
    Function.update (fmtWriteText (cap - 1).toNat ⟨buf, 0⟩ out).buf
      (if (cap - 1).toNat < out.length then (cap - 1).toNat else out.length) 0 = storedByte buf cap out := by
  funext k
  have nul : (if (cap - 1).toNat < out.length then (cap - 1).toNat else out.length) = min (cap - 1).toNat out.length := by
    split <;> omega
  rw [storedByte, nul]
  by_cases here : k = min (cap - 1).toNat out.length
  · rw [if_pos ⟨room, here⟩, here]
    exact Function.update_self ..
  · rw [if_neg fun both => here both.2, Function.update_of_ne here, fmtWriteText_buf]
    simp only [Nat.zero_le, true_and, Nat.sub_zero]

theorem storedByte_of_full {cap : Int} (full : ¬0 < cap) (buf : Nat → UInt8) (out : List UInt8) :
    (fmtWriteText 0 ⟨buf, 0⟩ out).buf = storedByte buf cap out := by
  funext k
  have none_left : (cap - 1).toNat = 0 := by omega
  rw [storedByte, if_neg fun both => full both.1, none_left, if_neg (Nat.not_lt_zero k), fmtWriteText_buf]
  simp only [Nat.not_lt_zero, and_false, if_false]

theorem Formats.implCap {out : List UInt8} (formats : Formats target fmt args out) (buf : Nat → UInt8) (cap : Int) :
    fmtWriteImplCap target buf cap fmt args = .ok (out.length, storedByte buf cap out) := by
  by_cases room : 0 < cap
  · simp only [fmtWriteImplCap, room, if_true, formats.loop, fmtWriteText_oi, Nat.zero_add,
      storedByte_of_room room]
  · simp only [fmtWriteImplCap, room, if_false, formats.loop, fmtWriteText_oi, Nat.zero_add,
      storedByte_of_full room]

theorem fmtWriteImplCap_ok_iff (buf : Nat → UInt8) (cap : Int) (result : Nat × (Nat → UInt8)) :
    fmtWriteImplCap target buf cap fmt args = .ok result ↔
      ∃ out, Formats target fmt args out ∧ (out.length, storedByte buf cap out) = result := by
  constructor
  · intro returned
    have looped : ∃ o, fmtWriteLoop (if 0 < cap then (cap - 1).toNat else 0) target fmt args ⟨buf, 0⟩ = .ok o := by
      rw [fmtWriteImplCap] at returned
      split at returned
      · cases returned
      · exact ⟨_, ‹_›⟩
    obtain ⟨o, looped⟩ := looped
    obtain ⟨out, formats, _⟩ := Formats.of_loop looped
    rw [formats.implCap] at returned
    exact ⟨out, formats, Except.ok.inj returned⟩
  · rintro ⟨out, formats, rfl⟩
    exact formats.implCap buf cap

end HopHop
