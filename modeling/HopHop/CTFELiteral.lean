import HopHop.CTFEValue
import HopHop.StringLit

namespace HopHop

/-! Literals as the interpreter reads them from the source text. -/

def digitValue (base : Nat) (c : UInt8) : Option Nat :=
  if isDigit c then some (c.toNat - 0x30)
  else if base = 16 then hexDigit c
  else none

/-- The digits of an integer literal, refused as soon as the value would pass the largest 64-bit one. -/
def intDigits (base : Nat) (v : Nat) : List UInt8 → Option Nat
  | [] => some v
  | c :: rest =>
    match digitValue base c with
    | none => none
    | some digit =>
      if base ≤ digit then none
      else if 2 ^ 63 - 1 < v * base + digit then none
      else intDigits base (v * base + digit) rest

def parseIntLiteral (src : List UInt8) (start stop : Nat) : Option Int64 :=
  if stop ≤ start ∨ src.length < stop then none
  else
    let text := (src.drop start).take (stop - start)
    let digits :=
      match text with
      | a :: b :: rest =>
        if 3 ≤ text.length ∧ a = Byte.zero ∧ (b = 0x78 ∨ b = 0x58) then intDigits 16 0 rest
        else intDigits 10 0 text
      | _ => intDigits 10 0 text
    digits.map Int64.ofNat

def floatDigit (c : UInt8) : Float := (c - Byte.zero).toFloat

def floatWhole (v : Float) : List UInt8 → Float
  | [] => v
  | c :: rest => floatWhole (v * 10 + floatDigit c) rest

def floatFraction (v place : Float) : List UInt8 → Float
  | [] => v
  | c :: rest => floatFraction (v + floatDigit c * place) (place * 0.1) rest

/-- The exponent value, refused when another digit could pass 32 bits; the arithmetic is 32-bit. -/
def exponentDigits (v : UInt32) : List UInt8 → Option UInt32
  | [] => some v
  | c :: rest =>
    if v > 0xFFFFFFFF / 10 then none
    else exponentDigits (v * 10 + (c - Byte.zero).toUInt32) rest

def scaleFloat (negative : Bool) (v : Float) : Nat → Float
  | 0 => v
  | n + 1 => scaleFloat negative (if negative then v / 10 else v * 10) n

/-- The part of a float literal from the exponent letter on; nothing may follow the exponent. -/
def floatExponent (v : Float) (rest : List UInt8) : Option Float :=
  match rest with
  | [] => some v
  | c :: rest =>
    if c = 0x65 ∨ c = 0x45 then
      let negative := rest.head? = some Byte.minus
      let rest := if rest.head? = some Byte.plus ∨ negative then rest.tail else rest
      let digits := rest.take (spanLen isDigit rest)
      if digits = [] then none
      else
        match exponentDigits 0 digits with
        | none => none
        | some n => if spanLen isDigit rest ≠ rest.length then none else some (scaleFloat negative v n.toNat)
    else none

def parseFloatLiteral (src : List UInt8) (start stop : Nat) : Option Float :=
  if stop ≤ start ∨ src.length < stop then none
  else
    let text := (src.drop start).take (stop - start)
    let whole := spanLen isDigit text
    let v := floatWhole 0 (text.take whole)
    match text.drop whole with
    | [] => if whole = 0 then none else some v
    | c :: rest =>
      if c = Byte.dot then
        let fraction := spanLen isDigit rest
        if whole = 0 ∧ fraction = 0 then none
        else floatExponent (floatFraction v 0.1 (rest.take fraction)) (rest.drop fraction)
      else if whole = 0 then none
      else floatExponent v (c :: rest)

def parseBoolLiteral (src : List UInt8) (start stop : Nat) : Option Bool :=
  if (src.drop start).take (stop - start) = bytesOf "true" then some true
  else if (src.drop start).take (stop - start) = bytesOf "false" then some false
  else none

section

variable {σ : Type} (m : Machine σ)

/-- A growing byte buffer in the arena, with the memory it has left behind. -/
structure ArenaByteBuf (σ : Type) where
  v : Ptr
  len : Nat
  cap : Nat
  mem : σ

/-- `H2ArenaByteEmit`. The buffer is at least as long as what it held, so one doubling makes room. -/
def arenaByteEmit (buf : ArenaByteBuf σ) (b : UInt8) : Option (ArenaByteBuf σ) :=
  let store (buf : ArenaByteBuf σ) : ArenaByteBuf σ :=
    { buf with len := buf.len + 1, mem := m.storeByte (buf.v + UInt64.ofNat buf.len) b buf.mem }
  if buf.len + 1 ≤ buf.cap then some (store buf)
  else
    let newCap := if buf.cap = 0 then 16 else if 0xFFFFFFFF / 2 < buf.cap then buf.len + 1 else buf.cap * 2
    match m.alloc newCap buf.mem with
    | (none, _) => none
    | (some p, mem) => some (store { v := p, len := buf.len, cap := newCap, mem := m.memcpy p buf.v buf.len mem })

/-- `H2DecodeStringLiteralArena`, with the diagnostic its caller raises. What an abandoned decoding left in
the arena is not kept. -/
def decodeStringLiteralArena (src : List UInt8) (start stop : Nat) : Exec σ CTFEString := do
  match decodeStringLiteralImpl (arenaByteEmit m) ⟨0, 0, 0, ← get⟩ src start stop with
  | .error err =>
    modify (m.setDiag ⟨stringLitErrDiagCode err.kind, err.start, err.stop⟩)
    Exec.error
  | .ok buf =>
    set buf.mem
    pure ⟨buf.v, UInt32.ofNat buf.len⟩

end

end HopHop
