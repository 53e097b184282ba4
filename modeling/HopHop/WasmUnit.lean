import HopHop.MirBuild
import HopHop.Worklist

namespace HopHop.Wasm

/-- The kinds of values that the backend tells apart. -/
inductive TypeKind
  | VOID | I32 | I64 | STR_REF | STR_PTR | U8_PTR | I32_PTR | I8_PTR | U16_PTR | I16_PTR | U32_PTR | OPAQUE_PTR
  | ARRAY_VIEW_U8 | ARRAY_VIEW_I8 | ARRAY_VIEW_U16 | ARRAY_VIEW_I16 | ARRAY_VIEW_U32 | ARRAY_VIEW_I32
  | SLICE_U8 | SLICE_I8 | SLICE_U16 | SLICE_I16 | SLICE_U32 | SLICE_I32 | SLICE_AGG
  | AGG_REF | FUNC_REF | FUNC_REF_PTR | ARRAY_VIEW_STR
  deriving DecidableEq, Repr

namespace TypeKind

def slotCount : TypeKind → Nat
  | .VOID => 0
  | .STR_REF | .SLICE_U8 | .SLICE_I8 | .SLICE_U16 | .SLICE_I16 | .SLICE_U32 | .SLICE_I32 | .SLICE_AGG => 2
  | _ => 1

def isSupported (kind : TypeKind) : Bool := kind.slotCount ≠ 0

def isPointer : TypeKind → Bool
  | .STR_PTR | .U8_PTR | .I32_PTR | .I8_PTR | .U16_PTR | .I16_PTR | .U32_PTR | .OPAQUE_PTR | .FUNC_REF_PTR => true
  | _ => false

def isArrayView : TypeKind → Bool
  | .ARRAY_VIEW_U8 | .ARRAY_VIEW_I8 | .ARRAY_VIEW_U16 | .ARRAY_VIEW_I16 | .ARRAY_VIEW_U32 | .ARRAY_VIEW_I32
  | .ARRAY_VIEW_STR => true
  | _ => false

def isSlice : TypeKind → Bool
  | .SLICE_U8 | .SLICE_I8 | .SLICE_U16 | .SLICE_I16 | .SLICE_U32 | .SLICE_I32 | .SLICE_AGG => true
  | _ => false

def usesSRet (kind : TypeKind) : Bool := kind = .AGG_REF ∨ kind.isArrayView

end TypeKind

inductive LinkageKind
  | NONE | WASM_IMPORT_FN | WASM_IMPORT_CONST | WASM_IMPORT_VAR | EXPORT_FN
  deriving DecidableEq, Repr

structure LinkageEntry where
  functionIndex : Nat
  kind : LinkageKind
  platformPanic : Bool
  start : UInt32
  stop : UInt32
  arg0 : List UInt8
  arg1 : List UInt8
  deriving DecidableEq, Repr

/-- What the backend makes of the types of a program: the kind of a type and of a local, and how many bytes a type
takes. -/
structure TypeKinds where
  ofType : UInt32 → Option TypeKind
  ofLocal : MirFunction → MirLocal → Option TypeKind
  byteSize : UInt32 → Option UInt32

structure CodegenUnit where
  mirProgram : MirProgram
  foreign : List LinkageEntry
  platformTarget : Option String
  usesPlatform : Bool
  kinds : TypeKinds

def allocHasExplicitAllocator : UInt16 := 0x0080

def contextAllocator : UInt32 := 1
def contextTempAllocator : UInt32 := 2
def contextLogger : UInt32 := 3

def typeFlagOptional : UInt32 := 0x00200000

namespace CodegenUnit

variable (unit : CodegenUnit)

def isWasmMinPlatform : Bool := unit.platformTarget = some "wasm-min"

def isPlaybitPlatform : Bool := unit.platformTarget = some "playbit"

def supportsPlatformImports : Bool := unit.isWasmMinPlatform ∨ unit.isPlaybitPlatform

def funcLen : Nat := unit.mirProgram.funcs.length

/-- The instructions of a function. -/
def code (i : Nat) : List MirInst := ((unit.mirProgram.funcs[i]?).map (·.code unit.mirProgram)).getD []

def functionIsNamedMain (fn : MirFunction) : Bool :=
  (unit.mirProgram.sources[fn.sourceRef.toNat]?).any fun src => nameIs src fn.nameStart.toNat fn.nameEnd.toNat "main"

/-- A function is the main function. -/
def isMain (i : Nat) : Bool := (unit.mirProgram.funcs[i]?).any unit.functionIsNamedMain

/-! ### The scans for what the functions that are kept need -/

section Scan

variable (reachable : List Bool)

/-- A function that is kept has such an instruction. -/
def hasInst (wanted : MirInst → Bool) : Bool :=
  (List.range unit.funcLen).any fun i => isMarked reachable i && (unit.code i).any wanted

def programHasAssert : Bool := unit.hasInst reachable (·.op = .ASSERT)

/-- The instruction reads a field of the context. -/
def readsContext (fields : List UInt32) (inst : MirInst) : Bool :=
  (inst.op = .CTX_GET ∨ inst.op = .CTX_ADDR) ∧ inst.aux ∈ fields

def programNeedsRootAllocator : Bool :=
  unit.hasInst reachable (readsContext [contextAllocator, contextTempAllocator])

def programNeedsRootLogger : Bool := unit.hasInst reachable (readsContext [contextLogger])

def programNeedsRootContext : Bool :=
  unit.programNeedsRootAllocator reachable || unit.programNeedsRootLogger reachable

def hasExplicitAllocator (inst : MirInst) : Bool := inst.tok &&& allocHasExplicitAllocator ≠ 0

/-- An allocation that goes through an allocator. -/
def allocates (usesRootAllocator : Bool) (inst : MirInst) : Bool :=
  inst.op = .ALLOC_NEW ∧ (hasExplicitAllocator inst ∨ usesRootAllocator)

/-- The local is there and has a type that is not optional. -/
def hasPlainType (fn : MirFunction) (local_ : UInt32) : Bool :=
  local_ < fn.localCount &&
    (unit.mirProgram.locals[fn.localStart.toNat + local_.toNat]?).any fun l =>
      (unit.mirProgram.types[l.typeRef.toNat]?).any fun t => t.flags &&& typeFlagOptional = 0

/-- An allocation that goes through an allocator is stored at once, in a local whose type is not optional. -/
def storesAlloc (usesRootAllocator : Bool) (fn : MirFunction) : List MirInst → Bool
  | alloc :: next :: rest =>
    (allocates usesRootAllocator alloc && next.op = .LOCAL_STORE && unit.hasPlainType fn next.aux)
      || storesAlloc usesRootAllocator fn (next :: rest)
  | _ => false

def programHasAllocNullPanic : Bool :=
  let usesRootAllocator := unit.programNeedsRootAllocator reachable
  (List.range unit.funcLen).any fun i =>
    isMarked reachable i &&
      (unit.mirProgram.funcs[i]?).any fun fn => unit.storesAlloc usesRootAllocator fn (fn.code unit.mirProgram)

def programHasInvalidAllocatorPanic : Bool :=
  let usesRootAllocator := unit.programNeedsRootAllocator reachable
  unit.hasInst reachable (allocates usesRootAllocator)

def programNeedsFunctionTable : Bool :=
  unit.mirProgram.consts.any (·.kind = .FUNCTION)
    || unit.mirProgram.insts.any fun inst =>
      inst.op = .CALL_INDIRECT ∨ inst.op = .ALLOC_NEW ∧ hasExplicitAllocator inst

/-- The operations that work on memory. -/
def usesFrameMemory : MirOp → Bool
  | .AGG_ZERO | .AGG_SET | .LOCAL_ADDR | .MAKE_CLOSURE | .CAPTURE_LOAD | .CAPTURE_STORE | .CAPTURE_ADDR | .ARRAY_ADDR
  | .DEREF_LOAD | .DEREF_STORE | .SEQ_LEN | .STR_CSTR | .INDEX | .AGG_GET | .AGG_ADDR | .ALLOC_NEW | .CTX_GET
  | .CTX_ADDR | .SLICE_MAKE => true
  | _ => false

/-- A local that is kept in memory. -/
def localNeedsFrame (fn : MirFunction) (l : MirLocal) : Bool :=
  (unit.kinds.ofLocal fn l).any fun kind =>
    (kind = .STR_PTR ∨ kind = .AGG_REF ∨ kind.isPointer ∨ kind.isArrayView ∨ kind.isSlice)
      ∧ ¬ (kind = .AGG_REF ∧ unit.kinds.byteSize l.typeRef = some 0)

def functionNeedsFrameMemory (fn : MirFunction) : Bool :=
  (fn.localMeta unit.mirProgram).any (unit.localNeedsFrame fn)
    || (fn.code unit.mirProgram).any (usesFrameMemory ·.op)

def programNeedsFrameMemory : Bool :=
  (List.range unit.funcLen).any fun i =>
    isMarked reachable i && (unit.mirProgram.funcs[i]?).any unit.functionNeedsFrameMemory

def programNeedsHeapMemory : Bool := unit.hasInst reachable (·.op = .ALLOC_NEW)

def programNeedsClosureGlobals : Bool :=
  unit.mirProgram.funcs.any fun fn =>
    0 < fn.captureCount || (fn.code unit.mirProgram).any (·.op = .MAKE_CLOSURE)

end Scan

/-! ### The functions that are kept -/

/-- The function that a constant is. -/
def functionConst (const : UInt32) : Option Nat :=
  ((unit.mirProgram.consts[const.toNat]?).filter (·.kind = .FUNCTION)).map (·.aux.toNat)

/-- The function that an instruction calls or takes the value of, as far as the search for kept functions goes. -/
def callee (inst : MirInst) : Option Nat :=
  match inst.op with
  | .CALL_FN => some inst.aux.toNat
  | .PUSH_CONST => unit.functionConst inst.aux
  | _ => none

def callees (i : Nat) : List Nat := (unit.code i).filterMap unit.callee

def roots : List Nat :=
  (List.range unit.funcLen).filter unit.isMain
    ++ (unit.foreign.filter (·.kind = .EXPORT_FN)).map LinkageEntry.functionIndex

def needsPanic (reachable : List Bool) : Bool :=
  unit.programHasAssert reachable || unit.programHasAllocNullPanic reachable
    || unit.programHasInvalidAllocatorPanic reachable

/-- The entries that import the function to call on a panic. -/
def panicImports : List LinkageEntry := unit.foreign.filter fun e => e.kind = .WASM_IMPORT_FN ∧ e.platformPanic

def buildReachableFunctionSet : List Bool :=
  let marked := unit.roots.foldl Marking.mark ⟨List.replicate unit.funcLen false, []⟩
  let reachable := markFrom unit.callees unit.funcLen marked
  if unit.needsPanic reachable then markAll reachable (unit.panicImports.map LinkageEntry.functionIndex) else reachable

def markReachableClosure (reachable : List Bool) (root : Nat) : List Bool :=
  markPasses unit.callees (unit.funcLen + 1) (reachable.set root true)

def functionLooksAllocatorIndirect (fn : MirFunction) : Bool :=
  fn.paramCount = 7 && unit.kinds.ofType fn.typeRef = some .OPAQUE_PTR &&
    (List.range 7).all fun j =>
      (unit.mirProgram.locals[fn.localStart.toNat + j]?).any fun l =>
        (unit.kinds.ofLocal fn l).any fun kind => kind.slotCount = 1

def markTableSupportFunctionsReachable (reachable : List Bool) : List Bool :=
  (List.range unit.funcLen).foldl
    (fun r i =>
      if (unit.mirProgram.funcs[i]?).any fun fn => unit.functionLooksAllocatorIndirect fn || fn.isFunctionValueEntry
      then unit.markReachableClosure r i else r) reachable

/-- The functions that the module keeps. -/
def reachableFunctions : List Bool := unit.markTableSupportFunctionsReachable unit.buildReachableFunctionSet

end CodegenUnit

end HopHop.Wasm
