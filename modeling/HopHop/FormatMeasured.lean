import Mathlib.Data.List.DropRight
import HopHop.FormatAgree

namespace HopHop

/-! ### Floating-point numbers -/

/-- What the library computes with floating-point numbers. -/
structure FloatOps (F64 : Type) where
  zero : F64
  ten : F64
  millionth : F64
  lt : F64 → F64 → Bool
  le : F64 → F64 → Bool
  neg : F64 → F64
  sub : F64 → F64 → F64
  mul : F64 → F64 → F64
  toI64 : F64 → Int64
  ofI64 : Int64 → F64

namespace FloatOps

variable {F64 : Type} (ops : FloatOps F64)

/-- The loop over the digits of a fraction; it is left early at a rest below a millionth. -/
def fracDigits : Nat → F64 → List UInt8
  | 0, _ => []
  | left + 1, frac =>
    let frac := ops.mul frac ops.ten
    let d := ops.toI64 frac
    let rest := ops.sub frac (ops.ofI64 d)
    (Byte.zero + UInt8.ofInt d.toInt) :: if ops.lt rest ops.millionth then [] else fracDigits left rest

/-- `fmt_write_f64`. -/
def fmtWriteF64 (payloadCap bits : Nat) (o : FmtOut) (x : F64) : FmtOut :=
  let (v, o) := if ops.lt x ops.zero then (ops.neg x, fmtWriteByte payloadCap o Byte.minus) else (x, o)
  let whole := ops.toI64 v
  let o := fmtWriteI64 payloadCap bits o whole
  let frac := ops.sub v (ops.ofI64 whole)
  if ops.le frac ops.zero then o
  else
    let digits := (ops.fracDigits 6 frac).rdropWhile (· == Byte.zero)
    if digits = [] then o else fmtWriteText payloadCap (fmtWriteByte payloadCap o Byte.dot) digits

def f64Text (bits : Nat) (x : F64) : List UInt8 :=
  let v := if ops.lt x ops.zero then ops.neg x else x
  let frac := ops.sub v (ops.ofI64 (ops.toI64 v))
  let digits := (ops.fracDigits 6 frac).rdropWhile (· == Byte.zero)
  (if ops.lt x ops.zero then [Byte.minus] else []) ++ i64Text bits (ops.toI64 v) ++
    if ops.le frac ops.zero then [] else if digits = [] then [] else Byte.dot :: digits

def target (bits : Nat) : FmtTarget F64 := ⟨bits, ops.f64Text bits⟩

/-- What the formatting functions take for the writing of a floating-point number is what is written. -/
theorem fmtWriteF64_target (payloadCap bits : Nat) (o : FmtOut) (x : F64) :
    HopHop.fmtWriteF64 payloadCap (ops.target bits) o x = ops.fmtWriteF64 payloadCap bits o x := by
  show fmtWriteText payloadCap o (ops.f64Text bits x) = _
  rw [f64Text, fmtWriteF64]
  by_cases negative : ops.lt x ops.zero = true
  · simp only [negative, if_true, fmtWriteText_append, ← fmtWriteI64_eq]
    split_ifs <;> rfl
  · simp only [negative, fmtWriteText_append, ← fmtWriteI64_eq]
    split_ifs <;> rfl

end FloatOps

/-! ### Arguments in a row -/

section Print

variable {F64 : Type} (target : FmtTarget F64)

/-- The loop of `fmt_write_print_impl_cap`, over the arguments that are left. -/
def fmtWritePrintLoop (payloadCap : Nat) : Nat → List (FmtArg F64) → FmtOut → Except String FmtOut
  | _, [], o => .ok o
  | ai, arg :: args, o =>
    let o := if 0 < ai then fmtWriteByte payloadCap o Byte.space else o
    match fmtWriteDefault payloadCap target o arg with
    | .error e => .error e
    | .ok o => fmtWritePrintLoop payloadCap (ai + 1) args o

def fmtWritePrintImplCap (buf : Nat → UInt8) (cap : Int) (args : List (FmtArg F64)) :
    Except String (Nat × (Nat → UInt8)) :=
  let payloadCap := if 0 < cap then (cap - 1).toNat else 0
  match fmtWritePrintLoop target payloadCap 0 args ⟨buf, 0⟩ with
  | .error e => .error e
  | .ok o =>
    if 0 < cap then
      let nulPos := if payloadCap < o.oi then payloadCap else o.oi
      .ok (o.oi, Function.update o.buf nulPos 0)
    else .ok (o.oi, o.buf)

/-- A `str` that was allocated: its length, and the memory from its first byte on. -/
structure AllocatedStr where
  len : Nat
  bytes : Nat → UInt8

/-- `format_str`: one pass that measures, and one that fills what was allocated. -/
def formatStr (fresh : Nat → UInt8) (fmt : List UInt8) (args : List (FmtArg F64)) : Except String AllocatedStr :=
  match fmtWriteImplCap target (fun _ => 0) 0 fmt args with
  | .error e => .error e
  | .ok (n, _) =>
    match fmtWriteImplCap target fresh (n + 1 : Nat) fmt args with
    | .error e => .error e
    | .ok (_, bytes) => .ok ⟨n, bytes⟩

variable {target}

/-- The texts of arguments in a row, a space before each but the first. -/
def printText (target : FmtTarget F64) : Nat → List (FmtArg F64) → Option (List UInt8)
  | _, [] => some []
  | ai, arg :: args =>
    match arg.rendering target .default, printText target (ai + 1) args with
    | some text, some rest => some ((if 0 < ai then [Byte.space] else []) ++ text ++ rest)
    | _, _ => none

theorem printText_of_loop {payloadCap ai : Nat} {args : List (FmtArg F64)} {o o' : FmtOut}
    (returned : fmtWritePrintLoop target payloadCap ai args o = .ok o') : ∃ out, printText target ai args = some out := by
  induction args generalizing ai o with
  | nil => exact ⟨[], rfl⟩
  | cons arg args ih =>
    rw [fmtWritePrintLoop] at returned
    split at returned
    · cases returned
    · rename_i next written
      obtain ⟨text, renders, _⟩ := (fmtWriteDefault_ok_iff _ next arg).mp written
      obtain ⟨rest, prints⟩ := ih returned
      rw [printText, renders, prints]
      exact ⟨_, rfl⟩

theorem fmtWritePrintLoop_text {ai : Nat} {args : List (FmtArg F64)} {out : List UInt8}
    (prints : printText target ai args = some out) (payloadCap : Nat) (o : FmtOut) :
    fmtWritePrintLoop target payloadCap ai args o = .ok (fmtWriteText payloadCap o out) := by
  induction args generalizing ai o out with
  | nil =>
    cases prints
    rfl
  | cons arg args ih =>
    rw [printText] at prints
    split at prints
    · rename_i text rest renders printsRest
      obtain rfl := Option.some.inj prints
      have separated : (if 0 < ai then fmtWriteByte payloadCap o Byte.space else o) =
          fmtWriteText payloadCap o (if 0 < ai then [Byte.space] else []) := by
        split <;> rfl
      have written : fmtWriteDefault payloadCap target (if 0 < ai then fmtWriteByte payloadCap o Byte.space else o) arg =
          .ok (fmtWriteText payloadCap (if 0 < ai then fmtWriteByte payloadCap o Byte.space else o) text) :=
        (fmtWriteDefault_ok_iff _ _ arg).mpr ⟨text, renders, rfl⟩
      rw [separated] at written
      rw [fmtWritePrintLoop]
      simp only [separated, written, ih printsRest, fmtWriteText_append]
    · cases prints

theorem fmtWritePrintImplCap_text {args : List (FmtArg F64)} {out : List UInt8}
    (prints : printText target 0 args = some out) (buf : Nat → UInt8) (cap : Int) :
    fmtWritePrintImplCap target buf cap args = .ok (out.length, storedByte buf cap out) := by
  by_cases room : 0 < cap
  · simp only [fmtWritePrintImplCap, room, if_true, fmtWritePrintLoop_text prints, fmtWriteText_oi, Nat.zero_add,
      storedByte_of_room room]
  · simp only [fmtWritePrintImplCap, room, if_false, fmtWritePrintLoop_text prints, fmtWriteText_oi, Nat.zero_add,
      storedByte_of_full room]

end Print

/-! ### Measuring and filling -/

/-- Whatever the buffer and its size, the length of the output comes back, and what fits of it is written with a zero
byte behind it, and nothing else. -/
def WritesBounded (run : (Nat → UInt8) → Int → Except String (Nat × (Nat → UInt8))) (out : List UInt8) : Prop :=
  ∀ buf cap, ∃ written, run buf cap = .ok (out.length, written) ∧
    (0 < cap → (∀ k < min out.length (cap - 1).toNat, out[k]? = some (written k)) ∧
      written (min out.length (cap - 1).toNat) = 0 ∧ ∀ k, min out.length (cap - 1).toNat < k → written k = buf k) ∧
    (cap ≤ 0 → written = buf)

theorem writesBounded {run : (Nat → UInt8) → Int → Except String (Nat × (Nat → UInt8))} {out : List UInt8}
    (stores : ∀ buf cap, run buf cap = .ok (out.length, storedByte buf cap out)) : WritesBounded run out := by
  refine fun buf cap => ⟨_, stores buf cap, fun room => ⟨fun k inside => ?_, ?_, fun k behind => ?_⟩, fun full => ?_⟩
  · rw [storedByte, if_neg (by omega), if_pos (by omega), List.getElem?_eq_getElem (by omega), Option.getD_some]
  · rw [storedByte, if_pos ⟨room, Nat.min_comm ..⟩]
  · rw [storedByte, if_neg (by omega)]
    split
    · rw [List.getElem?_eq_none (by omega), Option.getD_none]
    · rfl
  · funext k
    rw [storedByte, if_neg (by omega), if_neg (by omega)]

end HopHop
