import HopHop.CTFEValue

namespace HopHop

/-! The operators of compile-time evaluation, as the interpreter applies them to values. -/

/-- The signed overflow builtins: the exact result, refused when it does not fit. -/
def overflowBuiltin (exact : Int) : Option Int64 :=
  if Int64.minValue.toInt ≤ exact ∧ exact ≤ Int64.maxValue.toInt then some (Int64.ofInt exact) else none

def addI64 (hasBuiltin : Bool) (a b : Int64) : Option Int64 :=
  if hasBuiltin then overflowBuiltin (a.toInt + b.toInt)
  else if (0 < b ∧ Int64.maxValue - b < a) ∨ (b < 0 ∧ a < Int64.minValue - b) then none
  else some (a + b)

def subI64 (hasBuiltin : Bool) (a b : Int64) : Option Int64 :=
  if hasBuiltin then overflowBuiltin (a.toInt - b.toInt)
  else if (0 < b ∧ a < Int64.minValue + b) ∨ (b < 0 ∧ Int64.maxValue + b < a) then none
  else some (a - b)

def mulI64 (hasBuiltin : Bool) (a b : Int64) : Option Int64 :=
  if hasBuiltin then overflowBuiltin (a.toInt * b.toInt)
  else if a = 0 ∨ b = 0 then some 0
  else if a = -1 ∧ b = Int64.minValue then none
  else if b = -1 ∧ a = Int64.minValue then none
  else if 0 < a then
    if 0 < b then
      if Int64.maxValue / b < a then none else some (a * b)
    else if b < Int64.minValue / a then none else some (a * b)
  else if 0 < b then
    if a < Int64.minValue / b then none else some (a * b)
  else if a ≠ 0 ∧ b < Int64.maxValue / a then none else some (a * b)

/-- `H2CTFEEvalUnary`; `none` where the source returns 0. -/
def evalUnary (op : TokenKind) (input : CTFEValue) : Option CTFEValue :=
  if op = .ADD ∧ input.kind = .INT then some input
  else if op = .ADD ∧ input.kind = .FLOAT then some input
  else if op = .SUB ∧ input.kind = .INT then
    if input.i64 = Int64.minValue then none else some (.int (-input.i64))
  else if op = .SUB ∧ input.kind = .FLOAT then some (.float (-input.f64))
  else if op = .NOT ∧ input.kind = .BOOL then some (.bool (input.b = 0))
  else none

/-- The integer case of `H2CTFEEvalBinary`. -/
def evalBinaryInt (hasBuiltin : Bool) (op : TokenKind) (lhs rhs : Int64) : Option CTFEValue :=
  match op with
  | .ADD => (addI64 hasBuiltin lhs rhs).map .int
  | .SUB => (subI64 hasBuiltin lhs rhs).map .int
  | .MUL => (mulI64 hasBuiltin lhs rhs).map .int
  | .DIV => if rhs = 0 ∨ (lhs = Int64.minValue ∧ rhs = -1) then none else some (.int (lhs / rhs))
  | .MOD => if rhs = 0 ∨ (lhs = Int64.minValue ∧ rhs = -1) then none else some (.int (lhs % rhs))
  | .AND => some (.int (lhs &&& rhs))
  | .OR => some (.int (lhs ||| rhs))
  | .XOR => some (.int (lhs ^^^ rhs))
  | .LSHIFT =>
    if rhs < 0 ∨ 63 < rhs ∨ lhs < 0 then none
    else some (.int (lhs.toUInt64 <<< rhs.toUInt64).toInt64)
  | .RSHIFT =>
    if rhs < 0 ∨ 63 < rhs ∨ lhs < 0 then none
    else some (.int (lhs.toUInt64 >>> rhs.toUInt64).toInt64)
  | .EQ => some (.bool (lhs = rhs))
  | .NEQ => some (.bool (lhs ≠ rhs))
  | .LT => some (.bool (lhs < rhs))
  | .GT => some (.bool (rhs < lhs))
  | .LTE => some (.bool (lhs ≤ rhs))
  | .GTE => some (.bool (rhs ≤ lhs))
  | _ => none

/-- The boolean case. Both operands are evaluated already, so the connectives do not short-circuit. -/
def evalBinaryBool (op : TokenKind) (lhs rhs : UInt8) : Option CTFEValue :=
  match op with
  | .LOGICAL_AND => some (.bool (lhs ≠ 0 ∧ rhs ≠ 0))
  | .LOGICAL_OR => some (.bool (lhs ≠ 0 ∨ rhs ≠ 0))
  | .EQ => some (.bool (lhs = rhs))
  | .NEQ => some (.bool (lhs ≠ rhs))
  | _ => none

/-- The case of two numbers of which at least one is a float. -/
def evalBinaryFloat (op : TokenKind) (lhs rhs : Float) : Option CTFEValue :=
  match op with
  | .ADD => some (.float (lhs + rhs))
  | .SUB => some (.float (lhs - rhs))
  | .MUL => some (.float (lhs * rhs))
  | .DIV => some (.float (lhs / rhs))
  | .EQ => some (.bool (lhs == rhs))
  | .NEQ => some (.bool (lhs != rhs))
  | .LT => some (.bool (decide (lhs < rhs)))
  | .GT => some (.bool (decide (rhs < lhs)))
  | .LTE => some (.bool (decide (lhs ≤ rhs)))
  | .GTE => some (.bool (decide (rhs ≤ lhs)))
  | _ => none

def CTFEValue.toF64 (v : CTFEValue) : Option Float :=
  match v.kind with
  | .INT => some (v.i64.toFloat)
  | .FLOAT => some v.f64
  | _ => none

/-- `H2CTFEOptionalPayload`: the outer `none` is the answer 0, the inner one an empty optional. -/
def optionalPayload (opt : CTFEValue) : Option (Option Ptr) :=
  if opt.kind ≠ .OPTIONAL then none
  else if opt.b = 0 then some none
  else if opt.s.bytes = 0 then none
  else some (some opt.s.bytes)

section

variable {σ : Type} (m : Machine σ)

def stringEq (a b : CTFEString) (state : σ) : Bool :=
  if a.len ≠ b.len then false
  else if a.len = 0 then true
  else m.memcmp a.bytes b.bytes a.len.toNat state = .eq

/-- `H2CTFEValueEqRec`; `depth` counts down the 33 levels the source looks through. -/
def valueEqRec : Nat → CTFEValue → CTFEValue → σ → Bool
  | 0, _, _, _ => false
  | depth + 1, a, b, state =>
    if a.kind ≠ b.kind then false
    else match a.kind with
      | .INT => a.i64 = b.i64
      | .FLOAT => a.f64 == b.f64
      | .BOOL => a.b = b.b
      | .STRING => stringEq m a.s b.s state
      | .TYPE => a.typeTag = b.typeTag
      | .SPAN =>
        if a.span.startLine ≠ b.span.startLine ∨ a.span.startColumn ≠ b.span.startColumn
            ∨ a.span.endLine ≠ b.span.endLine ∨ a.span.endColumn ≠ b.span.endColumn
            ∨ a.span.fileLen ≠ b.span.fileLen then false
        else if a.span.fileLen = 0 then true
        else a.span.fileBytes ≠ 0 ∧ b.span.fileBytes ≠ 0
          ∧ m.memcmp a.span.fileBytes b.span.fileBytes a.span.fileLen.toNat state = .eq
      | .NULL => true
      | .OPTIONAL =>
        match optionalPayload a, optionalPayload b with
        | some (some p), some (some q) => valueEqRec depth (m.loadValue p state) (m.loadValue q state) state
        | some _, some _ => a.b = b.b
        | _, _ => false
      | _ => false

/-- `H2CTFEStringConcat`; every failure of it makes the operator refuse. -/
def stringConcat (a b : CTFEString) : Exec σ CTFEString := do
  let total := a.len.toNat + b.len.toNat
  if total > UInt32.size - 1 then Exec.notConst
  else if total = 0 then pure ⟨0, 0⟩
  else
    match ← modifyGet (m.alloc total) with
    | none =>
      modify (m.setDiag ⟨.ARENA_OOM, 0, 0⟩)
      Exec.notConst
    | some dst =>
      if 0 < a.len then modify (m.memcpy dst a.bytes a.len.toNat)
      if 0 < b.len then modify (m.memcpy (dst + a.len.toUInt64) b.bytes b.len.toNat)
      pure ⟨dst, UInt32.ofNat total⟩

/-- The order the source compares strings in: the shorter length first decides how much is compared. -/
def stringCompare (a b : CTFEString) (state : σ) : Ordering :=
  if a.len ≠ b.len then
    (m.memcmp a.bytes b.bytes (min a.len b.len).toNat state).then (compare a.len b.len)
  else m.memcmp a.bytes b.bytes a.len.toNat state

def evalBinaryString (op : TokenKind) (lhs rhs : CTFEString) : Exec σ CTFEValue := do
  let cmp := stringCompare m lhs rhs (← get)
  match op with
  | .ADD => return .string (← stringConcat m lhs rhs)
  | .EQ => return .bool (stringEq m lhs rhs (← get))
  | .NEQ => return .bool (!stringEq m lhs rhs (← get))
  | .LT => return .bool (cmp = .lt)
  | .GT => return .bool (cmp = .gt)
  | .LTE => return .bool (cmp ≠ .gt)
  | .GTE => return .bool (cmp ≠ .lt)
  | _ => Exec.notConst

/-- What an installed callback answers: its return code, the value and the flag it wrote. -/
structure Answer where
  rc : Int
  value : CTFEValue
  isConst : Bool

abbrev BinaryHook (σ : Type) := TokenKind → CTFEValue → CTFEValue → σ → Answer × σ

/-- Asks the embedder for the operator; `none` when it has no answer. -/
def askBinary (hook : Option (BinaryHook σ)) (op : TokenKind) (lhs rhs : CTFEValue) :
    Exec σ (Option CTFEValue) :=
  match hook with
  | none => pure none
  | some ask => do
    let answer ← modifyGet (ask op lhs rhs)
    if answer.rc < 0 then Exec.error
    else if 0 < answer.rc ∧ answer.isConst then pure (some answer.value)
    else pure none

/-- Comparison with null and between optionals, where the source decides it itself. -/
def evalBinaryNull (op : TokenKind) (lhs rhs : CTFEValue) (state : σ) : Option CTFEValue :=
  let equal : Bool :=
    match lhs.kind, rhs.kind with
    | .NULL, .NULL => true
    | .REFERENCE, .NULL => lhs.s.bytes = 0
    | .NULL, .REFERENCE => rhs.s.bytes = 0
    | .STRING, .NULL => lhs.s.bytes = 0
    | .NULL, .STRING => rhs.s.bytes = 0
    | .OPTIONAL, .NULL => lhs.b = 0
    | .NULL, .OPTIONAL => rhs.b = 0
    | .OPTIONAL, .OPTIONAL => valueEqRec m 33 lhs rhs state
    | _, _ => false
  if (op = .EQ ∨ op = .NEQ)
      ∧ (lhs.kind = .NULL ∨ rhs.kind = .NULL ∨ (lhs.kind = .OPTIONAL ∧ rhs.kind = .OPTIONAL)) then
    some (.bool (if op = .EQ then equal else !equal))
  else none

/-- `H2CTFEEvalBinary` below the unwrapping of optionals. -/
def evalBinaryFlat (hook : Option (BinaryHook σ)) (op : TokenKind) (lhs rhs : CTFEValue) :
    Exec σ CTFEValue := do
  let refuse {α : Type} : Option α → Exec σ α := fun v => v.elim Exec.notConst pure
  if lhs.kind = .INT ∧ rhs.kind = .INT then
    refuse (evalBinaryInt m.hasBuiltin op lhs.i64 rhs.i64)
  else if lhs.kind = .BOOL ∧ rhs.kind = .BOOL then
    refuse (evalBinaryBool op lhs.b rhs.b)
  else if lhs.kind = .STRING ∧ rhs.kind = .STRING then
    evalBinaryString m op lhs.s rhs.s
  else
    if lhs.kind = .TYPE ∧ rhs.kind = .TYPE then
      match ← askBinary hook op lhs rhs with
      | some out => return out
      | none => pure ()
      match op with
      | .EQ => return .bool (lhs.typeTag = rhs.typeTag)
      | .NEQ => return .bool (lhs.typeTag ≠ rhs.typeTag)
      | _ => pure ()
    match lhs.toF64, rhs.toF64 with
    | some lf, some rf => refuse (evalBinaryFloat op lf rf)
    | _, _ =>
      match evalBinaryNull m op lhs rhs (← get) with
      | some out => pure out
      | none => refuse (← askBinary hook op lhs rhs)

/-- `H2CTFEEvalBinary`. An optional beside a value that is neither optional nor null is unwrapped first;
`fuel` bounds how many payloads deep. -/
def evalBinary (hook : Option (BinaryHook σ)) (op : TokenKind) :
    Nat → CTFEValue → CTFEValue → Exec σ CTFEValue
  | fuel, lhs, rhs =>
    if lhs.kind = .OPTIONAL ∧ rhs.kind ≠ .OPTIONAL ∧ rhs.kind ≠ .NULL then
      match optionalPayload lhs with
      | some (some payload) =>
        match fuel with
        | 0 => throw .outOfFuel
        | fuel + 1 => do evalBinary hook op fuel (m.loadValue payload (← get)) rhs
      | _ => Exec.notConst
    else if rhs.kind = .OPTIONAL ∧ lhs.kind ≠ .OPTIONAL ∧ lhs.kind ≠ .NULL then
      match optionalPayload rhs with
      | some (some payload) =>
        match fuel with
        | 0 => throw .outOfFuel
        | fuel + 1 => do evalBinary hook op fuel lhs (m.loadValue payload (← get))
      | _ => Exec.notConst
    else evalBinaryFlat m hook op lhs rhs

end

/-- Targets of a cast instruction. -/
inductive CastTarget
  | INVALID | INT | FLOAT | BOOL | STR_VIEW | PTR_LIKE
  deriving DecidableEq, Repr

/-- The largest and the smallest 64-bit integer as the source converts them to a float. -/
def maxI64AsFloat : Float := Int64.maxValue.toFloat
def minI64AsFloat : Float := Int64.minValue.toFloat

/-- `H2CTFEEvalCast`; `none` where the source returns 0. -/
def evalCast (target : CastTarget) (input : CTFEValue) : Option CTFEValue :=
  match target with
  | .INT =>
    match input.kind with
    | .INT => some (.int input.i64)
    | .BOOL => some (.int (if input.b ≠ 0 then 1 else 0))
    | .FLOAT =>
      if input.f64 != input.f64 ∨ input.f64 > maxI64AsFloat ∨ input.f64 < minI64AsFloat then none
      else some (.int input.f64.toInt64)
    | .NULL => some (.int 0)
    | _ => none
  | .FLOAT =>
    match input.kind with
    | .FLOAT => some (.float input.f64)
    | .INT => some (.float (input.i64.toFloat))
    | .BOOL => some (.float (if input.b ≠ 0 then 1 else 0))
    | .NULL => some (.float 0)
    | _ => none
  | .BOOL =>
    match input.kind with
    | .BOOL => some (.bool (input.b ≠ 0))
    | .INT => some (.bool (input.i64 ≠ 0))
    | .FLOAT => some (.bool (input.f64 != 0))
    | .OPTIONAL => some (.bool (input.b ≠ 0))
    | .STRING => some (.bool true)
    | .NULL => some (.bool false)
    | _ => none
  | .PTR_LIKE =>
    if input.kind = .REFERENCE ∨ input.kind = .NULL ∨ input.kind = .STRING then some input else none
  | .STR_VIEW => some input
  | .INVALID => none

end HopHop
