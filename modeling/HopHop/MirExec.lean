import HopHop.MirEnv
import HopHop.Steps

namespace HopHop

/-- One activation: the code, the tables it refers to, its environment and its frame of locals. -/
structure ExecRun (σ : Type) where
  code : List MirInst
  program : Option MirProgram
  function : Option MirFunction
  env : ExecEnv σ
  stackCap : Nat
  localCount : Nat
  /-- The block the locals live in, and how many whole values it has room for. -/
  locals : Ptr
  localsAllocated : Nat
  /-- How many optional payloads deep a binary operator looks. -/
  depth : Nat

/-- The part of an activation that changes: the next instruction, the operand stack with its top first, the
number of backward jumps, and the memory. -/
structure Config (σ : Type) where
  pc : Nat
  stack : List CTFEValue
  backwardJumpCount : UInt32
  mem : σ

/-- A step of an activation. -/
abbrev Frame (σ : Type) := EStateM Stop (Config σ)

section

variable {σ : Type} (m : Machine σ) (run : ExecRun σ)

/-- Work on the memory alone. -/
def onMem {α : Type} (x : Exec σ α) : Frame σ α := fun c =>
  match x c.mem with
  | .ok a mem => .ok a { c with mem }
  | .error stop mem => .error stop { c with mem }

def push (v : CTFEValue) : Frame σ Unit := fun c =>
  if run.stackCap ≤ c.stack.length then
    .error .stackFull { c with mem := m.setDiag ⟨.ARENA_OOM, 0, 0⟩ c.mem }
  else .ok () { c with stack := v :: c.stack }

def pop : Frame σ CTFEValue := fun c =>
  match c.stack with
  | [] => .error .popEmpty c
  | v :: rest => .ok v { c with stack := rest }

/-- The topmost `count` values in source order, taken only when all of them are there. -/
def popArgs (count : Nat) : Frame σ (List CTFEValue) := fun c =>
  if c.stack.length < count then .error .popEmpty c
  else .ok (c.stack.take count).reverse { c with stack := c.stack.drop count }

/-- Computes a value on the memory and pushes it. -/
def pushResult (x : Exec σ CTFEValue) : Frame σ Unit := do
  push m run (← onMem x)

/-- `run->locals[slot]`, an address into the block of the frame. -/
def localPtr (slot : Nat) : Exec σ Ptr :=
  if slot < run.localsAllocated then pure (run.locals + UInt64.ofNat (valueSize * slot))
  else throw (.outOfBounds .locals slot)

def loadLocal (slot : Nat) : Exec σ CTFEValue := do
  let p ← localPtr run slot
  return m.loadValue p (← get)

def storeLocal (slot : Nat) (v : CTFEValue) : Exec σ Unit := do
  let p ← localPtr run slot
  modify (m.storeValue p v)

/-- `H2MirGetLocalMeta`; a local without metadata has no type. -/
def localTypeRef (slot : Nat) : Exec σ UInt32 :=
  match run.program, run.function with
  | some program, some fn =>
    if run.localCount ≤ slot ∨ program.locals.length < fn.localStart.toNat
        ∨ program.locals.length - fn.localStart.toNat ≤ slot then pure noTypeRef
    else do
      let entry ← readTable .localMeta program.locals (fn.localStart + UInt32.ofNat slot).toNat
      return entry.typeRef
  | _, _ => pure noTypeRef

/-- The name range of an identifier or call instruction: that of its symbol, and the empty range where the
instruction has none. -/
def resolveSymbolName (ins : MirInst) (expected : MirSymbolKind) : Exec σ (UInt32 × UInt32) :=
  match run.program with
  | none => pure (0, 0)
  | some program =>
    if program.symbols.length ≤ ins.aux.toNat then pure (0, 0)
    else do
      let symbol ← readTable .symbols program.symbols ins.aux.toNat
      if symbol.kind ≠ expected then pure (0, 0) else pure (symbol.nameStart, symbol.nameEnd)

def resolveFieldName (ins : MirInst) : Exec σ (UInt32 × UInt32) :=
  match run.program with
  | none => pure (0, 0)
  | some program =>
    if program.fields.length ≤ ins.aux.toNat then pure (0, 0)
    else do
      let field ← readTable .fields program.fields ins.aux.toNat
      pure (field.nameStart, field.nameEnd)

def resolveHostId (ins : MirInst) : Exec σ UInt32 :=
  match run.program with
  | none => pure hostTargetInvalid
  | some program =>
    if program.hosts.length ≤ ins.aux.toNat then pure hostTargetInvalid
    else readTable .hosts program.hosts ins.aux.toNat

/-- A function value, as `H2MirValueSetFunctionRef` makes it. -/
def functionRefTag : UInt64 := 0x0200000000000000

def functionRef (functionIndex : UInt32) : CTFEValue :=
  { CTFEValue.invalid with kind := .TYPE, typeTag := functionRefTag ||| functionIndex.toUInt64 }

/-- `H2MirValueIsFunctionValue`: the function index and the closure record of a function value. -/
def functionValue (v : CTFEValue) : Option (UInt32 × Ptr) :=
  if v.kind ≠ .TYPE ∨ v.typeTag &&& functionRefTag = 0 then none
  else some ((v.typeTag &&& ~~~functionRefTag).toUInt32, v.s.bytes)

def constToValue (c : MirConst) : Option CTFEValue :=
  match c.kind with
  | .INT => some (.int c.bits.toInt64)
  | .FLOAT => some (.float (Float.ofBits c.bits))
  | .BOOL => some (.bool (c.bits ≠ 0))
  | .STRING => some (.string c.bytes)
  | .TYPE => some { CTFEValue.invalid with kind := .TYPE, typeTag := c.bits, s := c.bytes }
  | .FUNCTION => some (functionRef c.aux)
  | .NULL => some .null
  | _ => none

def byteRefProxyTag : UInt64 := 0x0100000000000000

/-- `H2MirValueAsByteRefProxy`: the byte an integer value stands in for. -/
def byteRefProxy (v : CTFEValue) : Option Ptr :=
  if v.kind ≠ .INT ∨ v.typeTag &&& byteRefProxyTag = 0 ∨ v.s.bytes = 0 then none else some v.s.bytes

def jump (ins : MirInst) : Frame σ Unit := do
  let c ← get
  if run.env.backwardJumpLimit ≠ 0 ∧ ins.aux.toNat < c.pc then
    set { c with backwardJumpCount := c.backwardJumpCount + 1 }
    if run.env.backwardJumpLimit < c.backwardJumpCount + 1 then
      onMem (refuse run.env ins "for-loop exceeded const-eval iteration limit")
  modify fun c => { c with pc := ins.aux.toNat }

/-- The reference a capture instruction names, in the closure record that comes as the hidden last argument. -/
def captureRef (ins : MirInst) : Frame σ Ptr :=
  match run.function with
  | none => throw .notConst
  | some fn =>
    if fn.isFunctionValueEntry = false ∨ fn.paramCount = 0 ∨ fn.captureCount ≤ ins.aux then throw .notConst
    else do
      match functionValue (← onMem (loadLocal m run (fn.paramCount.toNat - 1))) with
      | none => throw .notConst
      | some (_, data) =>
        let closure := m.loadClosure data (← get).mem
        if data = 0 ∨ closure.count ≤ ins.aux then throw .notConst
        else pure (closure.refs + UInt64.ofNat (valueSize * ins.aux.toNat))

/-- The cell behind a captured reference. -/
def captureTarget (ins : MirInst) : Frame σ Ptr := do
  let ref ← captureRef m run ins
  match referenceTarget (m.loadValue ref (← get).mem) with
  | none => throw .notConst
  | some target => pure target

/-- Takes the captured references from the stack, last one first; each must be a reference. -/
def popCaptures (refs : Ptr) : Nat → Frame σ Unit
  | 0 => pure ()
  | i + 1 => do
    let v ← pop
    modify fun c => { c with mem := m.storeValue (refs + UInt64.ofNat (valueSize * i)) v c.mem }
    if v.kind ≠ .REFERENCE then throw .notConst
    popCaptures refs i

def makeClosure (ins : MirInst) : Frame σ Unit := do
  let consts := (run.program.map MirProgram.consts).getD []
  let captureCount := ins.tok.toNat
  if consts.length ≤ ins.aux.toNat then throw .notConst
  let c ← onMem (readTable .consts consts ins.aux.toNat)
  if c.kind ≠ .FUNCTION ∨ (← get).stack.length < captureCount then throw .notConst
  let data ← onMem (m.allocOr 16 ins.start.toNat ins.stop.toNat)
  let refs ← if captureCount = 0 then pure 0
    else onMem (m.allocOr (valueSize * captureCount) ins.start.toNat ins.stop.toNat)
  modify fun c => { c with mem := m.storeClosure data ⟨UInt32.ofNat captureCount, refs⟩ c.mem }
  popCaptures m refs captureCount
  push m run { functionRef c.aux with s := ⟨data, 0⟩ }

def derefLoad : Frame σ Unit := do
  let ref ← pop
  match referenceTarget ref with
  | none => throw .notConst
  | some target =>
    let mem := (← get).mem
    let v := m.loadValue target mem
    match byteRefProxy v with
    | some byte =>
      push m run { v with i64 := Int64.ofNat (m.loadByte byte mem).toNat, f64 := 0, b := 0, typeTag := 0, s := ⟨0, 0⟩ }
    | none => push m run v

def derefStore (ins : MirInst) : Frame σ Unit := do
  let ref ← pop
  let v ← pop
  match referenceTarget ref with
  | none => throw .notConst
  | some target =>
    let cell := m.loadValue target (← get).mem
    match byteRefProxy cell with
    | some byte =>
      match v.toInt64 with
      | some i =>
        if i < 0 ∨ 255 < i then onMem (refuse run.env ins "byte reference store value is not supported")
        else
          modify fun c => { c with
            mem := m.storeValue target { cell with i64 := i } (m.storeByte byte (UInt8.ofNat i.toInt.toNat) c.mem) }
      | none => onMem (refuse run.env ins "byte reference store value is not supported")
    | none => modify fun c => { c with mem := m.storeValue target v c.mem }

/-- Asks for a zero value of the type at `typeRef`. -/
def zeroValue (typeRef : Nat) : Exec σ CTFEValue :=
  match run.env.zeroInitLocal, run.program with
  | some zero, some program =>
    if program.types.length ≤ typeRef then Exec.notConst
    else do ask (zero (← readTable .types program.types typeRef))
  | _, _ => Exec.notConst

def boolOf (v : CTFEValue) : Frame σ Bool :=
  match evalCast .BOOL v with
  | none => throw .notConst
  | some b => pure (b.b ≠ 0)

def optionalWrap (ins : MirInst) : Frame σ Unit := do
  let v ← pop
  if v.kind = .OPTIONAL then push m run v
  else if v.kind = .NULL then
    push m run { v with kind := .OPTIONAL, i64 := 0, f64 := 0, b := 0, typeTag := 0, s := ⟨0, 0⟩ }
  else
    let payload ← onMem (m.allocOr valueSize ins.start.toNat ins.stop.toNat)
    modify fun c => { c with mem := m.storeValue payload v c.mem }
    push m run { v with kind := .OPTIONAL, i64 := 0, f64 := 0, b := 1, typeTag := 0, s := ⟨payload, 0⟩ }

def optionalUnwrap (ins : MirInst) : Frame σ Unit := do
  let v ← pop
  match optionalPayload v with
  | none =>
    if v.kind = .NULL then onMem (refuse run.env ins "unwrap of empty optional in evaluator backend")
    else push m run v
  | some none => onMem (refuse run.env ins "unwrap of empty optional in evaluator backend")
  | some (some payload) => push m run (m.loadValue payload (← get).mem)

def iterNext (ins : MirInst) : Frame σ Unit := do
  let iter ← pop
  match run.env.iterNext with
  | none => throw .notConst
  | some next =>
    let answer ← onMem (modifyGet (next iter ins.tok))
    if answer.rc ≠ 0 then throw .error
    let hasKey : Bool := ins.tok &&& iterFlagHasKey ≠ 0
    let wantsValue : Bool := ins.tok &&& iterFlagValueDiscard = 0
    if answer.hasItem then
      if hasKey ∧ !answer.keyIsConst then throw .notConst
      if wantsValue ∧ !answer.valueIsConst then throw .notConst
      if hasKey then push m run answer.key
      if wantsValue then push m run answer.value
    push m run (.bool answer.hasItem)

/-- How the embedder adjusts the arguments of a call in place. -/
def adjustArgs (ins : MirInst) (functionIndex : UInt32) (args : List CTFEValue) : Exec σ (List CTFEValue) :=
  match run.env.adjustCallArgs with
  | none => pure args
  | some adjust => do
    let answer ← modifyGet (adjust ⟨run.program, run.function, ins⟩ functionIndex args)
    if answer.1 < 0 then Exec.error
    else if 0 < answer.1 then Exec.notConst
    else pure (args.mapIdx answer.2)

/-- Evaluation of another function of the program: its index, the arguments and the flags of the call. -/
abbrev Callee (σ : Type) := UInt32 → List CTFEValue → UInt16 → Exec σ CTFEValue

/-- Arguments without the receiver, where the instruction says it is dropped. -/
def dropReceiver (ins : MirInst) (args : List CTFEValue) : Exec σ (List CTFEValue) :=
  if callTokDropsReceiverArg0 ins.tok then
    match args with
    | [] => Exec.notConst
    | _ :: rest => pure rest
  else pure args

def callHost (ins : MirInst) : Frame σ Unit := do
  match run.env.hostCall with
  | none => throw .notConst
  | some host =>
    let args ← popArgs (callArgCountFromTok ins.tok)
    onMem (allocArgs m ins args.length)
    let args ← onMem (dropReceiver ins args)
    let hostId ← onMem (resolveHostId run ins)
    pushResult m run (askOr run.env ins "host call is not supported by evaluator backend" (host hostId args))

def callFn (callee : Callee σ) (ins : MirInst) : Frame σ Unit := do
  let funcs := (run.program.map MirProgram.funcs).getD []
  if funcs.length ≤ ins.aux.toNat then throw .notConst
  let args ← popArgs (callArgCountFromTok ins.tok)
  onMem (allocArgs m ins args.length)
  -- The callback sees the receiver; it is dropped only afterwards.
  let _ ← onMem (dropReceiver ins args)
  let args ← onMem (adjustArgs run ins ins.aux args)
  let args ← onMem (dropReceiver ins args)
  pushResult m run (callee ins.aux args ins.tok)

/-- The callback that may answer an indirect call itself. -/
def askIndirect (ins : MirInst) (target : CTFEValue) (args : List CTFEValue) : Exec σ (Option CTFEValue) :=
  match run.env.indirectCall with
  | none => pure none
  | some call => do
    let answer ← modifyGet (call ⟨run.program, run.function, ins⟩ target args)
    if answer.rc < 0 then Exec.error
    else if 0 < answer.rc then
      if answer.isConst then pure (some answer.value) else Exec.notConst
    else pure none

/-- The arguments of a function value entry: those of the call and the closure record it carries. -/
def entryArguments (ins : MirInst) (fn : MirFunction) (functionIndex : UInt32) (data : Ptr) (args : List CTFEValue) :
    Exec σ (List CTFEValue) :=
  if fn.isFunctionValueEntry then do
    allocArgs m ins (args.length + 1)
    pure (args ++ [{ functionRef functionIndex with s := ⟨data, 0⟩ }])
  else pure args

/-- Calls the function a value refers to. -/
def callFunctionValue (callee : Callee σ) (program : MirProgram) (ins : MirInst) (target : CTFEValue)
    (args : List CTFEValue) : Exec σ CTFEValue :=
  match functionValue target with
  | none => refuse run.env ins "indirect call target is not a function"
  | some (fnIndex, data) =>
    if program.funcs.length ≤ fnIndex.toNat then refuse run.env ins "indirect call target is not a function"
    else do
      let fn ← readTable .funcs program.funcs fnIndex.toNat
      let args ← entryArguments m ins fn fnIndex data args
      let args ← adjustArgs run ins fnIndex args
      callee fnIndex args ins.tok

def callIndirect (callee : Callee σ) (ins : MirInst) : Frame σ Unit :=
  match run.program with
  | none => onMem (refuse run.env ins "indirect call stack is invalid during const evaluation")
  | some program => do
    let argCount := callArgCountFromTok ins.tok
    if (← get).stack.length < argCount + 1 then
      onMem (setReason run.env ins "indirect call stack is invalid during const evaluation")
      throw .popEmpty
    else
      let args ← popArgs argCount
      onMem (allocArgs m ins args.length)
      let target ← pop
      pushResult m run (do
        match ← askIndirect run ins target args with
        | some v => pure v
        | none => callFunctionValue m run callee program ins target args)

def callByName (ins : MirInst) : Frame σ Unit := do
  let site : CallSite := ⟨run.program, run.function, ins⟩
  let name ← onMem (resolveSymbolName run ins .CALL)
  match ← onMem (callPre run.env site name.1 name.2) with
  | some v => push m run v
  | none =>
    if run.env.resolveCall.isNone then throw .notConst
    let args ← popArgs (callArgCountFromTok ins.tok)
    pushResult m run (callResolved m run.env site name.1 name.2 args)

def sliceMake (ins : MirInst) : Frame σ Unit := do
  match run.env.sliceValue with
  | none => throw .notConst
  | some slice =>
    let stop ← if ins.tok &&& 4 ≠ 0 then some <$> pop else pure none
    let start ← if ins.tok &&& 2 ≠ 0 then some <$> pop else pure none
    let base ← pop
    pushResult m run (ask (slice base start stop ins.tok))

def pushConst (ins : MirInst) : Frame σ Unit := do
  let consts := (run.program.map MirProgram.consts).getD []
  if consts.length ≤ ins.aux.toNat then throw .notConst
  let c ← onMem (readTable .consts consts ins.aux.toNat)
  pushResult m run ((constToValue c).elim Exec.notConst pure)

/-- The slot of a local instruction, when the frame has it. -/
def frameSlot (ins : MirInst) : Frame σ Nat :=
  if run.localCount ≤ ins.aux.toNat then throw .notConst else pure ins.aux.toNat

def localZero (ins : MirInst) : Frame σ Unit := do
  let slot ← frameSlot run ins
  if run.env.zeroInitLocal.isNone then throw .notConst
  let typeRef ← onMem (localTypeRef run slot)
  if typeRef = noTypeRef then throw .notConst
  onMem (do storeLocal m run slot (← zeroValue run typeRef.toNat))

def localStore (ins : MirInst) : Frame σ Unit := do
  let slot ← frameSlot run ins
  let v ← pop
  onMem (do
    let typeRef ← localTypeRef run slot
    storeLocal m run slot (← coerceValueForType run.env run.program typeRef v))

def captureStore (ins : MirInst) : Frame σ Unit := do
  let ref ← captureRef m run ins
  let v ← pop
  match referenceTarget (m.loadValue ref (← get).mem) with
  | none => throw .notConst
  | some target => modify fun c => { c with mem := m.storeValue target v c.mem }

def addrOf (ins : MirInst) : Frame σ Unit := do
  let v ← pop
  let target ← onMem (m.allocOr valueSize ins.start.toNat ins.stop.toNat)
  modify fun c => { c with mem := m.storeValue target v c.mem }
  push m run (.reference target)

/-- The target of a jump must lie in the code. -/
def guardJump (ins : MirInst) : Frame σ Unit :=
  if run.code.length ≤ ins.aux.toNat then throw .notConst else pure ()

/-- A callback that may be missing. -/
def installed {α β : Type} (hook : Option α) (use : α → Frame σ β) : Frame σ β :=
  match hook with
  | none => throw .notConst
  | some hook => use hook

def storeIdent (ins : MirInst) : Frame σ Unit := do
  let v ← pop
  installed run.env.assignIdent fun assign => onMem (do
    let name ← resolveSymbolName run ins .IDENT
    let _ ← ask (assign name.1 name.2 v))

def tupleMake (ins : MirInst) : Frame σ Unit :=
  installed run.env.makeTuple fun makeTuple => do
    let elems ← popArgs ins.tok.toNat
    onMem (allocArgs m ins elems.length)
    pushResult m run (ask (makeTuple elems ins.aux))

def castInst (ins : MirInst) : Frame σ Unit := do
  let input ← pop
  pushResult m run (do
    let out ← castValue (castTargetOfCode ins.tok) input
    coerceValueForType run.env run.program ins.aux out)

def aggPartialTag : UInt64 := 0x0200000000000000

def coerceInst (ins : MirInst) : Frame σ Unit := do
  let v ← pop
  let v := if v.kind = .AGGREGATE then { v with typeTag := v.typeTag ||| aggPartialTag } else v
  pushResult m run (coerceValueForType run.env run.program ins.aux v)

/-- One instruction other than a return. -/
def execOp (callee : Callee σ) (ins : MirInst) : Frame σ Unit :=
  match ins.op with
  | .PUSH_CONST => pushConst m run ins
  | .PUSH_INT => pushResult m run (pushIntValue m run.env ins)
  | .PUSH_FLOAT => pushResult m run (pushFloatValue run.env ins)
  | .PUSH_BOOL => pushResult m run (pushBoolValue run.env ins)
  | .PUSH_STRING => pushResult m run (pushStringValue m run.env ins)
  | .PUSH_NULL => push m run .null
  | .MAKE_CLOSURE => makeClosure m run ins
  | .LOCAL_LOAD => do pushResult m run (loadLocal m run (← frameSlot run ins))
  | .LOCAL_ADDR => do
    let slot ← frameSlot run ins
    pushResult m run (do return .reference (← localPtr run slot))
  | .CAPTURE_ADDR => do
    let ref ← captureRef m run ins
    push m run (m.loadValue ref (← get).mem)
  | .CAPTURE_LOAD => do
    let target ← captureTarget m run ins
    push m run (m.loadValue target (← get).mem)
  | .CAPTURE_STORE => captureStore m run ins
  | .ADDR_OF => addrOf m run ins
  | .LOCAL_ZERO => localZero m run ins
  | .DEREF_LOAD => derefLoad m run
  | .DEREF_STORE => derefStore m run ins
  | .LOCAL_STORE => localStore m run ins
  | .DROP => do let _ ← pop
  | .JUMP => do
    guardJump run ins
    jump run ins
  | .JUMP_IF_FALSE => do
    guardJump run ins
    if !(← boolOf (← pop)) then jump run ins
  | .ASSERT => do
    if !(← boolOf (← pop)) then
      onMem (refuse run.env ins "assert condition evaluated to false during const evaluation")
  | .LOAD_IDENT =>
    pushResult m run (do
      let name ← resolveSymbolName run ins .IDENT
      loadIdent run.env name.1 name.2)
  | .STORE_IDENT => storeIdent run ins
  | .CALL => callByName m run ins
  | .CALL_HOST => callHost m run ins
  | .CALL_FN => callFn m run callee ins
  | .CALL_INDIRECT => callIndirect m run callee ins
  | .UNARY => do
    let input ← pop
    pushResult m run (unaryValue (TokenKind.ofCode ins.tok) input)
  | .BINARY => do
    let rhs ← pop
    let lhs ← pop
    pushResult m run (binaryValue m run.env run.depth ins lhs rhs)
  | .INDEX => do
    let idx ← pop
    let base ← pop
    pushResult m run (indexValue m run.env ins base idx)
  | .SEQ_LEN => do
    let base ← pop
    pushResult m run (sequenceLen run.env base)
  | .STR_CSTR => do
    let base ← pop
    pushResult m run (cstrValue m base)
  | .ARRAY_ADDR => do
    let idx ← pop
    let base ← pop
    installed run.env.indexAddr fun addr => pushResult m run
      (askOr run.env ins "array index is out of bounds or unsupported during const evaluation" (addr base idx))
  | .SLICE_MAKE => sliceMake m run ins
  | .AGG_MAKE => installed run.env.makeAggregate fun make => pushResult m run (ask (make ins.aux ins.tok.toUInt32))
  | .AGG_ZERO => pushResult m run (zeroValue run ins.aux.toNat)
  | .AGG_SET => do
    let v ← pop
    let base ← pop
    installed run.env.aggSetField fun setField => pushResult m run (do
      let name ← resolveFieldName run ins
      ask (setField base name.1 name.2 v))
  | .AGG_GET => do
    let base ← pop
    pushResult m run (do
      let name ← resolveFieldName run ins
      aggGet run.env base name.1 name.2)
  | .AGG_ADDR => do
    let base ← pop
    installed run.env.aggAddrField fun addrField => pushResult m run (do
      let name ← resolveFieldName run ins
      ask (addrField base name.1 name.2))
  | .TUPLE_MAKE => tupleMake m run ins
  | .ITER_INIT => do
    let source ← pop
    installed run.env.iterInit fun init => pushResult m run (ask (init ins.aux source ins.tok))
  | .ITER_NEXT => iterNext m run ins
  | .CAST => castInst m run ins
  | .COERCE => coerceInst m run ins
  | .OPTIONAL_WRAP => optionalWrap m run ins
  | .OPTIONAL_UNWRAP => optionalUnwrap m run ins
  | .ALLOC_NEW =>
    pushResult m run
      (askPositive run.env ins "alloc expression is not supported during const evaluation"
        (run.env.allocNew.map fun alloc => alloc ins.aux))
  | .CTX_GET =>
    pushResult m run
      (askPositive run.env ins "context access is not supported during const evaluation"
        (run.env.contextGet.map fun contextGet => contextGet ins.aux))
  | .CTX_ADDR =>
    pushResult m run
      (askPositive run.env ins "context address is not supported during const evaluation"
        (run.env.contextAddr.map fun contextAddr => contextAddr ins.aux))
  | .CTX_SET =>
    pushResult m run
      (askPositive run.env ins "context overlay is not supported during const evaluation"
        (run.env.evalWithContext.map fun evalWithContext => evalWithContext ins.aux))
  | _ => throw .notConst

/-- The value of a `RETURN`: the operand stack must hold exactly one. -/
def returnValue (ins : MirInst) : Frame σ CTFEValue := do
  match (← get).stack with
  | [v] =>
    let typeRef := (run.function.map MirFunction.typeRef).getD noTypeRef
    onMem (coerceValueForType run.env run.program typeRef v)
  | _ => onMem (refuse run.env ins "return stack is invalid during const evaluation")

/-- One instruction. `some` is the value of a return, which ends the run. -/
def execInst (callee : Callee σ) (ins : MirInst) : Frame σ (Option CTFEValue) :=
  if ins.op = .RETURN then some <$> returnValue run ins
  else if ins.op = .RETURN_VOID then pure (some .invalid)
  else do
    execOp m run callee ins
    pure none

/-- Result of a run: the value it returned or why it stopped, with the memory it left. -/
abbrev RunResult (σ : Type) := EStateM.Result Stop σ CTFEValue

/-- One round of the loop of `H2MirRunLoop`. -/
def runStep (callee : Callee σ) (c : Config σ) : Steps.Next (Config σ) (RunResult σ) :=
  if run.code.length ≤ c.pc then .halt (.error .notConst c.mem)
  else
    match (do execInst m run callee (← onMem (readTable .insts run.code c.pc)) : Frame σ (Option CTFEValue))
        { c with pc := c.pc + 1 } with
    | .ok none c' => .run c'
    | .ok (some v) c' => .halt (.ok v c'.mem)
    | .error stop c' => .halt (.error stop c'.mem)

def startConfig (mem : σ) : Config σ := ⟨0, [], 0, mem⟩

/-- `H2MirRunLoop`, up to a number of rounds. -/
def runLoop (callee : Callee σ) (fuel : Nat) : Exec σ CTFEValue := fun mem =>
  (Steps.runFor (runStep m run callee) fuel (startConfig mem)).getD (.error .outOfFuel mem)

/-- Fills the frame with invalid values, slot by slot. -/
def clearLocals (slot : Nat) : Nat → Exec σ Unit
  | 0 => pure ()
  | count + 1 => do
    storeLocal m run slot .invalid
    clearLocals (slot + 1) count

/-- Whether a parameter slot is the one that receives the closure record of a function value. -/
def isHiddenClosureData (slot : Nat) : Bool :=
  run.function.any fun fn => fn.isFunctionValueEntry ∧ slot + 1 = fn.paramCount.toNat

/-- Moves the arguments into the frame, each coerced to the type of its local. A coercion that answers 0 ends
the moving; the run goes on without the remaining arguments. -/
def bindArgs (slot : Nat) : List CTFEValue → Exec σ Unit
  | [] => pure ()
  | arg :: rest => do
    storeLocal m run slot arg
    let typeRef ← localTypeRef run slot
    if isHiddenClosureData run slot ∨ typeRef = noTypeRef then bindArgs (slot + 1) rest
    else
      match ← tryCoerce run.env run.program typeRef (← loadLocal m run slot) with
      | none => pure ()
      | some v =>
        storeLocal m run slot v
        bindArgs (slot + 1) rest

end

section

variable {σ : Type} (m : Machine σ)

/-- How many whole values a block holds whose byte size is taken as a 32-bit number. -/
def valuesIn (count : Nat) : Nat := valueSize * count % UInt32.size / valueSize

/-- A block for `count` values; the size handed to the allocator is a 32-bit number. -/
def allocValues (count : Nat) : Exec σ Ptr := m.allocOr (valueSize * count % UInt32.size) 0 0

def allocLocals (count : Nat) : Exec σ Ptr :=
  if count = 0 then pure 0 else allocValues m count

/-- The arguments go to the frame only when it has a local for each of them. -/
def bindAll (run : ExecRun σ) (args : List CTFEValue) : Exec σ Unit :=
  if args.length ≤ run.localCount then bindArgs m run 0 args else pure ()

/-- `H2MirInitRun`. -/
def initRun (code : List MirInst) (program : Option MirProgram) (function : Option MirFunction) (localCount : Nat)
    (args : List CTFEValue) (env : ExecEnv σ) (depth : Nat) : Exec σ (ExecRun σ) := do
  let stackCap := (UInt32.ofNat code.length + UInt32.ofNat args.length + 1).toNat
  let _ ← allocValues m stackCap
  let locals ← allocLocals m localCount
  let run : ExecRun σ := ⟨code, program, function, env, stackCap, localCount, locals, valuesIn localCount, depth⟩
  clearLocals m run 0 localCount
  bindAll m run args
  pure run

/-- `H2MirEvalChunk`: code that belongs to no program. -/
def evalChunk (env : ExecEnv σ) (code : List MirInst) (fuel : Nat) : Exec σ CTFEValue := do
  modify (m.setDiag ⟨.NONE, 0, 0⟩)
  let run ← initRun m code none none 0 [] env fuel
  runLoop m run (fun _ _ _ => Exec.notConst) fuel

variable (program : MirProgram)

/-- The arguments with the hidden closure argument, for a function value entry without captures that is
called directly. -/
def hiddenArgument (fn : MirFunction) (functionIndex : UInt32) (args : List CTFEValue) : Exec σ (List CTFEValue) :=
  if fn.isFunctionValueEntry ∧ UInt32.ofNat args.length + 1 = fn.paramCount ∧ fn.captureCount = 0 then do
    let count := (UInt32.ofNat args.length + 1).toNat
    let _ ← allocValues m count
    if args.length < valuesIn count then pure (args ++ [functionRef functionIndex])
    else throw (.outOfBounds .args (valuesIn count))
  else pure args

/-- The type of the packed arguments, when the variadic local has one. -/
def packType (variadicLocal : MirLocal) : Exec σ (Option MirTypeRef) :=
  if variadicLocal.typeRef = noTypeRef then pure none
  else some <$> readTable .types program.types variadicLocal.typeRef.toNat

/-- The arguments that go to the frame and, for a variadic function, the packed rest of them. -/
def packArguments (env : ExecEnv σ) (fn : MirFunction) (callFlags : UInt16) (args : List CTFEValue) :
    Exec σ (List CTFEValue × Option CTFEValue) :=
  if fn.isVariadic then
    let fixedCount := fn.paramCount.toNat - 1
    match env.makeVariadicPack with
    | none => Exec.notConst
    | some makePack =>
      if args.length < fixedCount ∨ fn.paramCount = 0 then Exec.notConst
      else do
        let variadicLocal ← readTable .localMeta program.locals (fn.localStart + fn.paramCount - 1).toNat
        let ty ← packType program variadicLocal
        let pack ← ask (makePack program fn ty callFlags (args.drop fixedCount))
        pure (args.take fixedCount, some pack)
  else if args.length ≠ fn.paramCount.toNat then Exec.notConst
  else pure (args, none)

/-- Runs the body and then, whatever it came to, what has to be undone. -/
def finallyDo {α : Type} (body : Exec σ α) (undo : σ → σ) : Exec σ α := fun mem =>
  match body mem with
  | .ok a mem => .ok a (undo mem)
  | .error stop mem => .error stop (undo mem)

/-- Asks a callback that only answers a return code. -/
def askStatus (hook : Option (σ → Int × σ)) : Exec σ Unit :=
  match hook with
  | none => pure ()
  | some call => do
    if (← modifyGet call) ≠ 0 then Exec.error

/-- The packed arguments go to the last parameter. -/
def storePack (run : ExecRun σ) (fn : MirFunction) (pack : Option CTFEValue) : Exec σ Unit :=
  match pack with
  | none => pure ()
  | some pack => storeLocal m run (fn.paramCount.toNat - 1) pack

def clearDiag (top : Bool) : Exec σ Unit :=
  if top then modify (m.setDiag ⟨.NONE, 0, 0⟩) else pure ()

/-- The body of a call once the arguments are settled: the frame, the loop, and the callbacks around them. -/
def runFrame (callee : ExecEnv σ → Callee σ) (env : ExecEnv σ) (fn : MirFunction) (args : List CTFEValue)
    (pack : Option CTFEValue) (top : Bool) (fuel : Nat) : Exec σ CTFEValue := do
  clearDiag m top
  let run ← initRun m (fn.code program) (some program) (some fn) fn.localCount.toNat args env fuel
  storePack m run fn pack
  askStatus (env.bindFrame.map fun bind => bind program fn run.locals fn.localCount)
  finallyDo (runLoop m run (callee env) fuel)
    (if env.bindFrame.isSome then env.unbindFrame.getD id else id)

/-- The source text a function runs in: its own, or that of its caller. -/
def functionSource (env : ExecEnv σ) (fn : MirFunction) : Exec σ (List UInt8) :=
  if fn.sourceRef.toNat < program.sources.length then readTable .sources program.sources fn.sourceRef.toNat
  else pure env.src

/-- A call of a function whose ranges have been checked. -/
def callFunction (callee : ExecEnv σ → Callee σ) (env : ExecEnv σ) (fn : MirFunction) (functionIndex : UInt32)
    (args : List CTFEValue) (callFlags : UInt16) (top : Bool) (fuel : Nat) : Exec σ CTFEValue := do
  let args ← hiddenArgument m fn functionIndex args
  let packed ← packArguments program env fn callFlags args
  let src ← functionSource program env fn
  let frameEnv := { env with src := src }
  askStatus (frameEnv.enterFunction.map fun enter => enter functionIndex fn.sourceRef)
  finallyDo (runFrame m program callee frameEnv fn packed.1 packed.2 top fuel)
    (if frameEnv.enterFunction.isSome then frameEnv.leaveFunction.getD id else id)

def failWith (diag : Diag) : Exec σ CTFEValue := do
  modify (m.setDiag diag)
  Exec.error

/-- `H2MirEvalFunctionInternal`; `top` is the call from outside, which validates the program first. -/
def evalFunctionInternal : Nat → Bool → ExecEnv σ → Callee σ
  | 0, _, _, _, _, _ => throw .outOfFuel
  | fuel + 1, top, env, functionIndex, args, callFlags =>
    if program.funcs.length ≤ functionIndex.toNat then failWith m ⟨.UNEXPECTED_TOKEN, 0, 0⟩
    else
      match if top then validateProgram program else none with
      | some diag => failWith m diag
      | none => do
        let fn ← readTable .funcs program.funcs functionIndex.toNat
        if program.insts.length < fn.instStart.toNat
            ∨ program.insts.length - fn.instStart.toNat < fn.instLen.toNat then
          failWith m ⟨.UNEXPECTED_TOKEN, 0, 0⟩
        else if fn.localCount < fn.paramCount then Exec.notConst
        else callFunction m program (evalFunctionInternal fuel false) env fn functionIndex args callFlags top fuel

/-- `H2MirEvalFunction`. -/
def evalFunction (env : ExecEnv σ) (functionIndex : UInt32) (args : List CTFEValue) (fuel : Nat) :
    Exec σ CTFEValue :=
  evalFunctionInternal m program fuel true env functionIndex args 0

end

end HopHop
