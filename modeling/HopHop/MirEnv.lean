import HopHop.CTFEEval
import HopHop.CTFELiteral
import HopHop.Mir

namespace HopHop

/-- What an iterator callback writes. -/
structure IterAnswer where
  rc : Int
  hasItem : Bool
  key : CTFEValue
  keyIsConst : Bool
  value : CTFEValue
  valueIsConst : Bool

/-- The instruction a call callback is asked for, with the program and the function it runs in. -/
structure CallSite where
  program : Option MirProgram
  function : Option MirFunction
  inst : MirInst

/-- The environment of an evaluation: the callbacks the embedder installed, over its memory `σ`. -/
structure ExecEnv (σ : Type) where
  src : List UInt8
  resolveIdent : Option (UInt32 → UInt32 → σ → Answer × σ)
  assignIdent : Option (UInt32 → UInt32 → CTFEValue → σ → Answer × σ)
  resolveCallPre : Option (CallSite → UInt32 → UInt32 → σ → Answer × σ)
  resolveCall : Option (CallSite → UInt32 → UInt32 → List CTFEValue → σ → Answer × σ)
  /-- Answers a return code and what it writes in place of each argument. -/
  adjustCallArgs : Option (CallSite → UInt32 → List CTFEValue → σ → (Int × (Nat → CTFEValue → CTFEValue)) × σ)
  indirectCall : Option (CallSite → CTFEValue → List CTFEValue → σ → Answer × σ)
  hostCall : Option (UInt32 → List CTFEValue → σ → Answer × σ)
  zeroInitLocal : Option (MirTypeRef → σ → Answer × σ)
  coerceValueForType : Option (MirTypeRef → CTFEValue → σ → (Int × CTFEValue) × σ)
  indexValue : Option (CTFEValue → CTFEValue → σ → Answer × σ)
  indexAddr : Option (CTFEValue → CTFEValue → σ → Answer × σ)
  sliceValue : Option (CTFEValue → Option CTFEValue → Option CTFEValue → UInt16 → σ → Answer × σ)
  sequenceLen : Option (CTFEValue → σ → Answer × σ)
  iterInit : Option (UInt32 → CTFEValue → UInt16 → σ → Answer × σ)
  iterNext : Option (CTFEValue → UInt16 → σ → IterAnswer × σ)
  aggGetField : Option (CTFEValue → UInt32 → UInt32 → σ → Answer × σ)
  aggAddrField : Option (CTFEValue → UInt32 → UInt32 → σ → Answer × σ)
  aggSetField : Option (CTFEValue → UInt32 → UInt32 → CTFEValue → σ → Answer × σ)
  makeAggregate : Option (UInt32 → UInt32 → σ → Answer × σ)
  makeTuple : Option (List CTFEValue → UInt32 → σ → Answer × σ)
  makeVariadicPack :
    Option (MirProgram → MirFunction → Option MirTypeRef → UInt16 → List CTFEValue → σ → Answer × σ)
  evalBinary : Option (BinaryHook σ)
  allocNew : Option (UInt32 → σ → Answer × σ)
  contextGet : Option (UInt32 → σ → Answer × σ)
  contextAddr : Option (UInt32 → σ → Answer × σ)
  evalWithContext : Option (UInt32 → σ → Answer × σ)
  enterFunction : Option (UInt32 → UInt32 → σ → Int × σ)
  leaveFunction : Option (σ → σ)
  bindFrame : Option (MirProgram → MirFunction → Ptr → UInt32 → σ → Int × σ)
  unbindFrame : Option (σ → σ)
  setReason : Option (UInt32 → UInt32 → String → σ → σ)
  backwardJumpLimit : UInt32

/-- An environment in which nothing is installed. -/
def ExecEnv.empty (σ : Type) (src : List UInt8) : ExecEnv σ where
  src := src
  resolveIdent := none
  assignIdent := none
  resolveCallPre := none
  resolveCall := none
  adjustCallArgs := none
  indirectCall := none
  hostCall := none
  zeroInitLocal := none
  coerceValueForType := none
  indexValue := none
  indexAddr := none
  sliceValue := none
  sequenceLen := none
  iterInit := none
  iterNext := none
  aggGetField := none
  aggAddrField := none
  aggSetField := none
  makeAggregate := none
  makeTuple := none
  makeVariadicPack := none
  evalBinary := none
  allocNew := none
  contextGet := none
  contextAddr := none
  evalWithContext := none
  enterFunction := none
  leaveFunction := none
  bindFrame := none
  unbindFrame := none
  setReason := none
  backwardJumpLimit := 0

/-- Size of one value in the arena, on a machine with 64-bit pointers. -/
def valueSize : Nat := 88

section

variable {σ : Type} (m : Machine σ) (env : ExecEnv σ)

/-- `H2MirSetReason`. -/
def setReason (ins : MirInst) (reason : String) : Exec σ Unit :=
  match env.setReason with
  | none => pure ()
  | some tell => modify (tell ins.start ins.stop reason)

def refuse {α : Type} (ins : MirInst) (reason : String) : Exec σ α := do
  setReason env ins reason
  Exec.notConst

/-- Asks a callback that answers a return code of 0 and a constant, or refuses. -/
def ask (call : σ → Answer × σ) : Exec σ CTFEValue := do
  let answer ← modifyGet call
  if answer.rc ≠ 0 then Exec.error
  else if answer.isConst then pure answer.value
  else Exec.notConst

/-- As `ask`, with a reason where the answer is not a constant. -/
def askOr (ins : MirInst) (reason : String) (call : σ → Answer × σ) : Exec σ CTFEValue := do
  let answer ← modifyGet call
  if answer.rc ≠ 0 then Exec.error
  else if answer.isConst then pure answer.value
  else refuse env ins reason

/-- Asks a callback that answers a positive return code and a constant. -/
def askPositive (ins : MirInst) (reason : String) (call : Option (σ → Answer × σ)) : Exec σ CTFEValue :=
  match call with
  | none => refuse env ins reason
  | some call => do
    let answer ← modifyGet call
    if answer.rc < 0 then Exec.error
    else if answer.rc = 0 ∨ !answer.isConst then refuse env ins reason
    else pure answer.value

/-- The value of the rune literal in a range of the source. -/
def runeValue (start stop : UInt32) : Exec σ CTFEValue :=
  match decodeRuneLiteralValidate env.src start.toNat stop.toNat with
  | .error err => do
    modify (m.setDiag ⟨runeLitErrDiagCode err.kind, err.start, err.stop⟩)
    Exec.error
  | .ok rune => pure (.int (Int64.ofNat rune.toNat))

/-- The value of a `PUSH_INT` instruction: a rune literal, a number kept in the operand, or an integer
literal. -/
def pushIntValue (ins : MirInst) : Exec σ CTFEValue :=
  if ins.tok = TokenKind.RUNE.code then runeValue m env ins.start ins.stop
  else if ins.tok = TokenKind.INVALID.code then pure (.int ins.aux.toInt32.toInt64)
  else ((parseIntLiteral env.src ins.start.toNat ins.stop.toNat).map .int).elim Exec.notConst pure

def pushFloatValue (ins : MirInst) : Exec σ CTFEValue :=
  ((parseFloatLiteral env.src ins.start.toNat ins.stop.toNat).map .float).elim Exec.notConst pure

def pushBoolValue (ins : MirInst) : Exec σ CTFEValue :=
  ((parseBoolLiteral env.src ins.start.toNat ins.stop.toNat).map .bool).elim Exec.notConst pure

def pushStringValue (ins : MirInst) : Exec σ CTFEValue := do
  return .string (← decodeStringLiteralArena m env.src ins.start.toNat ins.stop.toNat)

/-- The value of a name, from the callback. -/
def loadIdent (nameStart nameEnd : UInt32) : Exec σ CTFEValue :=
  match env.resolveIdent with
  | none => Exec.notConst
  | some resolve => ask (resolve nameStart nameEnd)

/-- Room in the arena for `count` argument values. -/
def allocArgs (ins : MirInst) (count : Nat) : Exec σ Unit := do
  if 0 < count then
    let _ ← m.allocOr (valueSize * count) ins.start.toNat ins.stop.toNat

/-- The first half of a call by name: the callback that may answer before the arguments are taken. -/
def callPre (site : CallSite) (nameStart nameEnd : UInt32) : Exec σ (Option CTFEValue) :=
  match env.resolveCallPre with
  | none => pure none
  | some pre => do
    let answer ← modifyGet (pre site nameStart nameEnd)
    if answer.rc < 0 then Exec.error
    else if 0 < answer.rc then
      if answer.isConst then pure (some answer.value) else Exec.notConst
    else pure none

def callResolved (site : CallSite) (nameStart nameEnd : UInt32) (args : List CTFEValue) : Exec σ CTFEValue :=
  match env.resolveCall with
  | none => Exec.notConst
  | some resolve => do
    allocArgs m site.inst args.length
    ask (resolve site nameStart nameEnd args)

def unaryValue (op : TokenKind) (input : CTFEValue) : Exec σ CTFEValue :=
  (evalUnary op input).elim Exec.notConst pure

/-- A binary operator, with the reason the interpreter gives where it refuses. -/
def binaryValue (fuel : Nat) (ins : MirInst) (lhs rhs : CTFEValue) : Exec σ CTFEValue := fun state =>
  match evalBinary m env.evalBinary (TokenKind.ofCode ins.tok) fuel lhs rhs state with
  | .error .notConst after => refuse env ins "binary operation is not supported during const evaluation" after
  | result => result

def indexValue (ins : MirInst) (base idx : CTFEValue) : Exec σ CTFEValue := do
  match base.kind, idx.toInt64 with
  | .STRING, some i =>
    if i < 0 then refuse env ins "index is negative in const evaluation"
    else if base.s.len.toNat ≤ i.toInt.toNat then refuse env ins "index is out of bounds in const evaluation"
    else return .int (Int64.ofNat (m.loadByte (base.s.bytes + i.toUInt64) (← get)).toNat)
  | _, _ =>
    match env.indexValue with
    | none => Exec.notConst
    | some index => askOr env ins "index is out of bounds or unsupported during const evaluation" (index base idx)

def sequenceLen (base : CTFEValue) : Exec σ CTFEValue :=
  if base.kind = .STRING ∨ base.kind = .ARRAY ∨ base.kind = .NULL then
    pure (.int (Int64.ofNat base.s.len.toNat))
  else
    match env.sequenceLen with
    | none => Exec.notConst
    | some len => ask (len base)

/-- A string, possibly behind one reference. -/
def cstrValue (base : CTFEValue) : Exec σ CTFEValue := do
  let base ←
    match referenceTarget base with
    | some target => pure (m.loadValue target (← get))
    | none => pure base
  if base.kind = .STRING then pure base else Exec.notConst

def aggGet (base : CTFEValue) (nameStart nameEnd : UInt32) : Exec σ CTFEValue :=
  match env.aggGetField with
  | none => Exec.notConst
  | some field => ask (field base nameStart nameEnd)

def castTargetOfCode (code : UInt16) : CastTarget :=
  if code = 1 then .INT
  else if code = 2 then .FLOAT
  else if code = 3 then .BOOL
  else if code = 4 then .STR_VIEW
  else if code = 5 then .PTR_LIKE
  else .INVALID

def castValue (target : CastTarget) (input : CTFEValue) : Exec σ CTFEValue :=
  (evalCast target input).elim Exec.notConst pure

/-- An entry of a program table. Reading past the end is what the bounds claims exclude. -/
def readTable {α : Type} (table : Table) (entries : List α) (i : Nat) : Exec σ α :=
  match entries[i]? with
  | some entry => pure entry
  | none => throw (.outOfBounds table i)

/-- `H2MirCoerceValueForType`; `none` is its return code 0. -/
def tryCoerce (program : Option MirProgram) (typeRef : UInt32) (value : CTFEValue) : Exec σ (Option CTFEValue) :=
  if typeRef = noTypeRef then pure (some value)
  else
    match env.coerceValueForType, program with
    | none, _ => pure (some value)
    | some _, none => pure none
    | some coerce, some program =>
      if program.types.length ≤ typeRef.toNat then pure none
      else do
        let ty ← readTable .types program.types typeRef.toNat
        let answer ← modifyGet (coerce ty value)
        if answer.1 ≠ 0 then Exec.error else pure (some answer.2)

def coerceValueForType (program : Option MirProgram) (typeRef : UInt32) (value : CTFEValue) : Exec σ CTFEValue := do
  match ← tryCoerce env program typeRef value with
  | some v => pure v
  | none => Exec.notConst

end

end HopHop
