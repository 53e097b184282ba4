import Mathlib.Logic.Function.Basic
import HopHop.Bytes

namespace HopHop

/-! ### The types that formatting tells apart -/

inductive FmtTypeKind
  | Primitive | Alias | Struct | Union | Enum | Pointer | Reference | Slice | Array | Optional | Function | Tuple
  deriving DecidableEq, Repr

inductive FmtType
  | i8 | i16 | i32 | i64 | int | u8 | u16 | u32 | u64 | uint | f32 | f64 | bool | rune | rawptr | type | str
  | pointer (elem : FmtType)
  | reference (elem : FmtType)
  | slice (elem : FmtType)
  | array (elem : FmtType) (len : Nat)
  | optional (elem : FmtType)
  | alias_ (id : Nat)
  | struct (id : Nat)
  | union (id : Nat)
  | enum (id : Nat)
  | function (id : Nat)
  | tuple (id : Nat)
  deriving DecidableEq, Repr

namespace FmtType

def kind : FmtType → FmtTypeKind
  | pointer _ => .Pointer
  | reference _ => .Reference
  | slice _ => .Slice
  | array _ _ => .Array
  | optional _ => .Optional
  | rune | alias_ _ => .Alias
  | struct _ => .Struct
  | union _ => .Union
  | enum _ => .Enum
  | function _ => .Function
  | tuple _ => .Tuple
  | _ => .Primitive

def isSigned (t : FmtType) : Bool := t == i8 || t == i16 || t == i32 || t == i64 || t == int

def isUnsigned (t : FmtType) : Bool := t == u8 || t == u16 || t == u32 || t == u64 || t == uint

def isInteger (t : FmtType) : Bool := t.isSigned || t.isUnsigned

def isFloat (t : FmtType) : Bool := t == f32 || t == f64

def isText (t : FmtType) : Bool := t == reference str || t == pointer str

def isAddress (t : FmtType) : Bool := t.kind == (pointer u8).kind || t.kind == (reference str).kind

end FmtType

/-- An argument: its type, and what the conversions of its value give. -/
structure FmtArg (F64 : Type) where
  type : FmtType
  asI64 : Int64
  asU64 : UInt64
  asF64 : F64
  asStr : List UInt8
  asBool : Bool
  asRune : UInt32
  typeName : List UInt8

/-- The target: how many bits an `int` has, and the text that floating-point numbers are written as. -/
structure FmtTarget (F64 : Type) where
  intBits : Nat
  f64Text : F64 → List UInt8

/-- A buffer, and the place that is written next. -/
structure FmtOut where
  buf : Nat → UInt8
  oi : Nat

/-! ### The functions that write -/

section Write

variable (payloadCap : Nat)

def fmtWriteByte (o : FmtOut) (byte : UInt8) : FmtOut :=
  ⟨if o.oi < payloadCap then Function.update o.buf o.oi byte else o.buf, o.oi + 1⟩

def fmtWriteText (o : FmtOut) (text : List UInt8) : FmtOut := text.foldl (fmtWriteByte payloadCap) o

/-- The value of an `int` of so many bits. -/
def asInt (bits : Nat) (x : Int) : Int := x.bmod (2 ^ bits)

/-- The loop that finds the first divisor; it is left once that has passed 100000000. -/
def growDiv (bits : Nat) (v : Int) : Nat → Int → Int
  | 0, div => div
  | left + 1, div =>
    if div ≤ 100000000 ∧ asInt bits (div * 10) ≤ v then growDiv bits v left (asInt bits (div * 10)) else div

/-- The loop over the divisors. -/
def fmtWriteDigits (v : Int) : Nat → Int → FmtOut → FmtOut
  | 0, _, o => o
  | left + 1, div, o =>
    if 0 < div then
      let d := (v.tdiv div).tmod 10
      fmtWriteDigits v left (div.tdiv 10) (fmtWriteByte payloadCap o (Byte.zero + UInt8.ofInt d))
    else o

def fmtWriteI64 (bits : Nat) (o : FmtOut) (x : Int64) : FmtOut :=
  let v := asInt bits x.toInt
  let (v, o) := if v < 0 then (asInt bits (0 - v), fmtWriteByte payloadCap o Byte.minus) else (v, o)
  if v = 0 then fmtWriteByte payloadCap o Byte.zero else fmtWriteDigits payloadCap v 10 (growDiv bits v 9 1) o

def fmtWriteU64 (bits : Nat) (o : FmtOut) (x : UInt64) : FmtOut := fmtWriteI64 payloadCap bits o x.toInt64

def growHexDiv (bits : Nat) (v : Int) : Nat → Int → Int
  | 0, div => div
  | left + 1, div => if 16 ≤ v.tdiv div then growHexDiv bits v left (asInt bits (div * 16)) else div

def fmtWriteHexDigits (v : Int) : Nat → Int → FmtOut → FmtOut
  | 0, _, o => o
  | left + 1, div, o =>
    if 0 < div then
      let d := (v.tdiv div).tmod 16
      let byte := if d < 10 then Byte.zero + UInt8.ofInt d else 0x61 + UInt8.ofInt (d - 10)
      fmtWriteHexDigits v left (div.tdiv 16) (fmtWriteByte payloadCap o byte)
    else o

def fmtWriteHexUint (bits : Nat) (o : FmtOut) (x : UInt64) : FmtOut :=
  let o := fmtWriteText payloadCap o (bytesOf "0x")
  if x = 0 then fmtWriteByte payloadCap o Byte.zero
  else
    let v := asInt bits x.toNat
    fmtWriteHexDigits payloadCap v 16 (growHexDiv bits v 15 1) o

def fmtWriteRune (o : FmtOut) (x : UInt32) : Except String FmtOut :=
  if x ≤ 0x7F then .ok (fmtWriteByte payloadCap o x.toUInt8)
  else if x ≤ 0x7FF then
    let o := fmtWriteByte payloadCap o ((0xC0 : UInt32) ||| (x >>> 6)).toUInt8
    .ok (fmtWriteByte payloadCap o ((0x80 : UInt32) ||| (x &&& 0x3F)).toUInt8)
  else if 0xD800 ≤ x ∧ x ≤ 0xDFFF then .error "invalid rune value"
  else if x ≤ 0xFFFF then
    let o := fmtWriteByte payloadCap o ((0xE0 : UInt32) ||| (x >>> 12)).toUInt8
    let o := fmtWriteByte payloadCap o ((0x80 : UInt32) ||| ((x >>> 6) &&& 0x3F)).toUInt8
    .ok (fmtWriteByte payloadCap o ((0x80 : UInt32) ||| (x &&& 0x3F)).toUInt8)
  else if x ≤ 0x10FFFF then
    let o := fmtWriteByte payloadCap o ((0xF0 : UInt32) ||| (x >>> 18)).toUInt8
    let o := fmtWriteByte payloadCap o ((0x80 : UInt32) ||| ((x >>> 12) &&& 0x3F)).toUInt8
    let o := fmtWriteByte payloadCap o ((0x80 : UInt32) ||| ((x >>> 6) &&& 0x3F)).toUInt8
    .ok (fmtWriteByte payloadCap o ((0x80 : UInt32) ||| (x &&& 0x3F)).toUInt8)
  else .error "invalid rune value"

/-- `fmt_rawptr_addr`: addresses are not shown. -/
def fmtRawptrAddr : UInt64 := 0

variable {F64 : Type} (target : FmtTarget F64)

def fmtWriteF64 (o : FmtOut) (x : F64) : FmtOut := fmtWriteText payloadCap o (target.f64Text x)

def fmtWriteIAny (o : FmtOut) (v : FmtArg F64) : Except String FmtOut :=
  if v.type.isSigned then .ok (fmtWriteI64 payloadCap target.intBits o v.asI64)
  else if v.type.isUnsigned then .ok (fmtWriteU64 payloadCap target.intBits o v.asU64)
  else .error "invalid format string: \x7bi\x7d requires integer argument"

/-- The branch of `fmt_write_impl_cap` for a placeholder without a letter. -/
def fmtWriteDefault (o : FmtOut) (v : FmtArg F64) : Except String FmtOut :=
  if v.type.isSigned then .ok (fmtWriteI64 payloadCap target.intBits o v.asI64)
  else if v.type.isUnsigned then .ok (fmtWriteU64 payloadCap target.intBits o v.asU64)
  else if v.type == .f32 then .ok (fmtWriteF64 payloadCap target o v.asF64)
  else if v.type == .f64 then .ok (fmtWriteF64 payloadCap target o v.asF64)
  else if v.type == .reference .str then .ok (fmtWriteText payloadCap o v.asStr)
  else if v.type == .pointer .str then .ok (fmtWriteText payloadCap o v.asStr)
  else if v.type == .bool then .ok (fmtWriteText payloadCap o (bytesOf (if v.asBool then "true" else "false")))
  else if v.type == .rune then fmtWriteRune payloadCap o v.asRune
  else if v.type == .rawptr then .ok (fmtWriteHexUint payloadCap target.intBits o fmtRawptrAddr)
  else if v.type == .type then .ok (fmtWriteText payloadCap o v.typeName)
  else if v.type.isAddress then .ok (fmtWriteHexUint payloadCap target.intBits o fmtRawptrAddr)
  else .error "invalid format string: \x7b\x7d requires scalar, type, pointer, or string argument"

/-- The branch for a placeholder with a letter. -/
def fmtWriteSpec (spec : UInt8) (o : FmtOut) (v : FmtArg F64) : Except String FmtOut :=
  if spec = 0x69 then fmtWriteIAny payloadCap target o v
  else if spec = 0x66 then
    if v.type == .f32 then .ok (fmtWriteF64 payloadCap target o v.asF64)
    else if v.type == .f64 then .ok (fmtWriteF64 payloadCap target o v.asF64)
    else .error "invalid format string: \x7bf\x7d requires floating-point argument"
  else if spec = 0x73 then
    if v.type == .reference .str then .ok (fmtWriteText payloadCap o v.asStr)
    else if v.type == .pointer .str then .ok (fmtWriteText payloadCap o v.asStr)
    else .error "invalid format string: \x7bs\x7d requires string argument"
  else .error "invalid format string"

/-- The loop of `fmt_write_impl_cap`, over the bytes and the arguments that are left. -/
def fmtWriteLoop : List UInt8 → List (FmtArg F64) → FmtOut → Except String FmtOut
  | [], args, o => if args = [] then .ok o else .error "invalid format string: too many arguments"
  | byte :: bs, args, o =>
    if byte = Byte.openBrace then
      match bs with
      | [] => .error "invalid format string"
      | c1 :: bs =>
        if c1 = Byte.openBrace then fmtWriteLoop bs args (fmtWriteByte payloadCap o Byte.openBrace)
        else if c1 = Byte.closeBrace then
          match args with
          | [] => .error "invalid format string: placeholder index out of bounds"
          | arg :: args =>
            match fmtWriteDefault payloadCap target o arg with
            | .error e => .error e
            | .ok o => fmtWriteLoop bs args o
        else
          match bs with
          | [] => .error "invalid format string"
          | c2 :: bs =>
            if c2 ≠ Byte.closeBrace then .error "invalid format string"
            else
              match args with
              | [] => .error "invalid format string: placeholder index out of bounds"
              | arg :: args =>
                match fmtWriteSpec payloadCap target c1 o arg with
                | .error e => .error e
                | .ok o => fmtWriteLoop bs args o
    else if byte = Byte.closeBrace then
      match bs with
      | [] => .error "invalid format string"
      | c :: bs =>
        if c = Byte.closeBrace then fmtWriteLoop bs args (fmtWriteByte payloadCap o Byte.closeBrace) else .error "invalid format string"
    else fmtWriteLoop bs args (fmtWriteByte payloadCap o byte)

end Write

/-- The length of the whole text, and the buffer. -/
def fmtWriteImplCap {F64 : Type} (target : FmtTarget F64) (buf : Nat → UInt8) (cap : Int) (fmt : List UInt8)
    (args : List (FmtArg F64)) : Except String (Nat × (Nat → UInt8)) :=
  let payloadCap := if 0 < cap then (cap - 1).toNat else 0
  match fmtWriteLoop payloadCap target fmt args ⟨buf, 0⟩ with
  | .error e => .error e
  | .ok o =>
    if 0 < cap then
      let nulPos := if payloadCap < o.oi then payloadCap else o.oi
      .ok (o.oi, Function.update o.buf nulPos 0)
    else .ok (o.oi, o.buf)

/-! ### The check of a format string -/

def fmtCheckDefault (t : FmtType) : Except String Unit :=
  if t.isInteger then .ok ()
  else if t.isFloat then .ok ()
  else if t.isText then .ok ()
  else if t == .bool || t == .rune || t == .rawptr || t == .type then .ok ()
  else if t.isAddress then .ok ()
  else .error "format string error: \x7b\x7d requires scalar, type, pointer, or string argument"

def fmtCheckSpec (spec : UInt8) (t : FmtType) : Except String Unit :=
  if spec = 0x69 then
    if t.isInteger then .ok () else .error "format string error: \x7bi\x7d requires integer argument"
  else if spec = 0x66 then
    if t.isFloat then .ok () else .error "format string error: \x7bf\x7d requires floating-point argument"
  else if spec = 0x73 then
    if t.isText then .ok () else .error "format string error: \x7bs\x7d requires string argument"
  else .error "format string error: invalid placeholder"

/-- `fmt_check_const_format`, over the bytes and the types of the arguments that are left. The first error ends it. -/
def fmtCheckConstFormat : List UInt8 → List FmtType → Except String Unit
  | [], types => if types = [] then .ok () else .error "format string error: too many arguments"
  | byte :: bs, types =>
    if byte = Byte.openBrace then
      match bs with
      | [] => .error "format string error: malformed placeholder"
      | c1 :: bs =>
        if c1 = Byte.openBrace then fmtCheckConstFormat bs types
        else if c1 = Byte.closeBrace then
          match types with
          | [] => .error "format string error: not enough arguments"
          | t :: types =>
            match fmtCheckDefault t with
            | .error e => .error e
            | .ok () => fmtCheckConstFormat bs types
        else
          match bs with
          | [] => .error "format string error: malformed placeholder"
          | c2 :: bs =>
            if c2 = Byte.closeBrace then
              match types with
              | [] => .error "format string error: not enough arguments"
              | t :: types =>
                match fmtCheckSpec c1 t with
                | .error e => .error e
                | .ok () => fmtCheckConstFormat bs types
            else .error "format string error: malformed placeholder"
    else if byte = Byte.closeBrace then
      match bs with
      | [] => .error "format string error: unmatched '\x7d'"
      | c :: bs =>
        if c = Byte.closeBrace then fmtCheckConstFormat bs types
        else .error "format string error: unmatched '\x7d'"
    else fmtCheckConstFormat bs types

end HopHop
