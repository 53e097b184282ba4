import HopHop.Numbering
import HopHop.WasmUnit

namespace HopHop.Wasm

inductive ValueType
  | i32 | i64
  deriving DecidableEq, Repr

def TypeKind.wasmValueType (kind : TypeKind) : ValueType := if kind = .I64 then .i64 else .i32

/-- The values that a value of this kind is passed as. -/
def TypeKind.wasmValueTypes (kind : TypeKind) : List ValueType :=
  if kind.slotCount = 2 then [.i32, .i32] else [kind.wasmValueType]

structure FnSig where
  typeIndex : Nat
  logicalParamKinds : List TypeKind
  wasmParamTypes : List ValueType
  logicalResultKind : TypeKind
  wasmResultTypes : List ValueType
  usesSRet : Bool
  logicalResultTypeRef : UInt32
  deriving DecidableEq, Repr

inductive DiagCode
  | UNSUPPORTED_MIR | UNSUPPORTED_HOSTCALL | INTERNAL | PLATFORM_REQUIRED | ARENA_OOM
  deriving DecidableEq, Repr

/-- Why the backend gives a program up. -/
structure Refusal where
  code : DiagCode
  start : UInt32
  stop : UInt32
  detail : String
  deriving DecidableEq, Repr

structure ImportLayout where
  importFuncCount : Nat
  importGlobalCount : Nat
  definedFuncCount : Nat
  frameGlobalIndex : Nat
  heapGlobalIndex : Nat
  closureGlobalStartIndex : Nat
  closureGlobalCount : Nat
  allocatorIndirectTypeIndex : Option Nat
  loggerIndirectTypeIndex : Option Nat
  wasmMinConsoleLogTypeIndex : Option Nat
  rootAllocFuncIndex : Option Nat
  wasmMinLoggerFuncIndex : Option Nat
  wasmMinConsoleLogFuncIndex : Option Nat
  tableFuncCount : Nat
  rootAllocTableIndex : Option Nat
  wasmMinLoggerTableIndex : Option Nat
  platformPanicFuncIndex : Option Nat
  funcWasmIndices : List (Option Nat)
  globalImportIndices : List (Option Nat)
  importedFunctions : List Bool
  reachableFunctions : List Bool
  hasFunctionTable : Bool
  hasRootAllocThunk : Bool
  hasWasmMinLogger : Bool
  hasPlatformPanicImport : Bool
  needsFrameGlobal : Bool
  needsHeapGlobal : Bool
  deriving DecidableEq, Repr

/-- The number of a component that is there only sometimes. -/
def count (present : Bool) : Nat := if present then 1 else 0

namespace CodegenUnit

variable (unit : CodegenUnit)

/-! ### The signatures -/

/-- The signature of a function that is not kept. -/
def emptySig (i : Nat) (fn : MirFunction) : FnSig := ⟨i, [], [], .VOID, [], false, fn.typeRef⟩

def paramKind (fn : MirFunction) (j : Nat) : Except Refusal TypeKind :=
  match unit.mirProgram.locals[fn.localStart.toNat + j]? with
  | none => .error ⟨.INTERNAL, fn.nameStart, fn.nameEnd, ""⟩
  | some l =>
    match (unit.kinds.ofLocal fn l).filter TypeKind.isSupported with
    | some kind => .ok kind
    | none =>
      .error ⟨.UNSUPPORTED_MIR, l.nameStart, l.nameEnd,
        "only scalar, pointer-like, array-view, slice, and &str parameters are supported"⟩

/-- The signature that a function has by itself, with its own type index. -/
def ownSig (i : Nat) (fn : MirFunction) : Except Refusal FnSig := do
  let tooMany : Refusal := ⟨.UNSUPPORTED_MIR, fn.nameStart, fn.nameEnd, "too many Wasm parameters"⟩
  if 32 < fn.paramCount then throw tooMany
  let paramKinds ← (List.range fn.paramCount.toNat).mapM (unit.paramKind fn)
  let params := paramKinds.flatMap TypeKind.wasmValueTypes
  if 64 < params.length then throw tooMany
  match unit.kinds.ofType fn.typeRef with
  | none =>
    throw ⟨.UNSUPPORTED_MIR, fn.nameStart, fn.nameEnd,
      "only void, scalar, pointer-like, slice, and &str returns are supported"⟩
  | some resultKind =>
    if resultKind.usesSRet then
      if 64 < params.length + 1 then throw tooMany
      return ⟨i, paramKinds, params ++ [.i32], resultKind, [], true, fn.typeRef⟩
    let results := if resultKind = .VOID then [] else resultKind.wasmValueTypes
    return ⟨i, paramKinds, params, resultKind, results, false, fn.typeRef⟩

end CodegenUnit

/-- `WasmSigSameShape`. -/
def FnSig.sameShape (a b : FnSig) : Bool :=
  a.logicalParamKinds = b.logicalParamKinds ∧ a.wasmParamTypes = b.wasmParamTypes ∧
    a.logicalResultKind = b.logicalResultKind ∧ a.wasmResultTypes = b.wasmResultTypes ∧ a.usesSRet = b.usesSRet

/-- A function takes the type of the first one before it that has the same shape. -/
def FnSig.shareType (sigs : List FnSig) (sig : FnSig) : FnSig :=
  { sig with typeIndex := ((sigs.find? sig.sameShape).map FnSig.typeIndex).getD sig.typeIndex }

namespace CodegenUnit

variable (unit : CodegenUnit)

/-- The signatures of the functions from this one on. -/
def signaturesFrom (reachable : List Bool) : List FnSig → List MirFunction → Except Refusal (List FnSig)
  | sigs, [] => .ok sigs
  | sigs, fn :: fns =>
    if isMarked reachable sigs.length then do
      let sig ← unit.ownSig sigs.length fn
      signaturesFrom reachable (sigs ++ [sig.shareType sigs]) fns
    else signaturesFrom reachable (sigs ++ [emptySig sigs.length fn]) fns

def buildFunctionSignatures (reachable : List Bool) : Except Refusal (List FnSig) :=
  unit.signaturesFrom reachable [] unit.mirProgram.funcs

/-! ### The imports -/

section Imports

variable (reachable : List Bool)

/-- The function imports that are kept. -/
def functionImports : List LinkageEntry :=
  unit.foreign.filter fun e => e.kind = .WASM_IMPORT_FN ∧ isMarked reachable e.functionIndex

/-- The global imports that are kept. -/
def globalImports : List LinkageEntry :=
  unit.foreign.filter fun e =>
    (e.kind = .WASM_IMPORT_CONST ∨ e.kind = .WASM_IMPORT_VAR) ∧ isMarked reachable e.functionIndex

def hostCallRefusal : Option Refusal :=
  ((List.range unit.funcLen).flatMap fun i =>
      if isMarked reachable i then (unit.code i).filter (·.op = .CALL_HOST) else []).head?.map fun inst =>
    ⟨.UNSUPPORTED_HOSTCALL, inst.start, inst.stop, "host calls are not supported in this Wasm mode"⟩

def entryRefusal (e : LinkageEntry) : Option Refusal :=
  if unit.funcLen ≤ e.functionIndex then some ⟨.INTERNAL, e.start, e.stop, ""⟩
  else if (e.kind = .WASM_IMPORT_CONST ∨ e.kind = .WASM_IMPORT_VAR) ∧ isMarked reachable e.functionIndex
      ∧ (unit.mirProgram.funcs[e.functionIndex]?).bind (unit.kinds.ofType ·.typeRef) ≠ some .I32 then
    some ⟨.UNSUPPORTED_MIR, e.start, e.stop, "direct Wasm imported globals currently support only i32-like values"⟩
  else none

def importedFunctions : List Bool :=
  markAll (List.replicate unit.funcLen false) ((unit.functionImports reachable).map LinkageEntry.functionIndex)

/-- The functions that get a body. -/
def definedFunctions : List Nat :=
  (List.range unit.funcLen).filter fun i =>
    isMarked reachable i ∧ (unit.importedFunctions reachable)[i]? = some false

def globalImportIndices : List (Option Nat) :=
  numberLast 0 (List.replicate unit.funcLen none) ((unit.globalImports reachable).map LinkageEntry.functionIndex)

/-- The indices of the imported functions: a function that is imported more than once keeps the first. -/
def importedIndices : List (Option Nat) :=
  numberFirst (List.replicate unit.funcLen none) ((unit.functionImports reachable).map LinkageEntry.functionIndex)

def funcWasmIndices (importFuncCount : Nat) : List (Option Nat) :=
  numberLast importFuncCount (unit.importedIndices reachable) (unit.definedFunctions reachable)

def platformPanicFuncIndex : Option Nat :=
  (unit.functionImports reachable).zipIdx.foldl (fun index e => if e.1.platformPanic then some e.2 else index) none

end Imports

/-- The layout, for functions that are kept and that nothing is refused of. -/
def importLayout (reachable : List Bool) : ImportLayout :=
  let hasWasmMinLogger := unit.isWasmMinPlatform && unit.programNeedsRootLogger reachable
  let hasRootAllocThunk := unit.programNeedsRootAllocator reachable || hasWasmMinLogger
  let needsFrameGlobal := unit.programNeedsFrameMemory reachable
  let needsHeapGlobal := unit.programNeedsHeapMemory reachable || hasRootAllocThunk
  let hasFunctionTable := hasRootAllocThunk || hasWasmMinLogger || unit.programNeedsFunctionTable
  let importGlobalCount := (unit.globalImports reachable).length
  let importFuncCount := (unit.functionImports reachable).length + count hasWasmMinLogger
  let definedFuncCount := (unit.definedFunctions reachable).length
  let heapGlobalIndex := importGlobalCount + count needsFrameGlobal
  let funcLen := unit.funcLen
  { importFuncCount, importGlobalCount, definedFuncCount, hasFunctionTable, hasRootAllocThunk, hasWasmMinLogger
    needsFrameGlobal, needsHeapGlobal
    frameGlobalIndex := importGlobalCount
    heapGlobalIndex
    closureGlobalStartIndex := heapGlobalIndex + count needsHeapGlobal
    closureGlobalCount := if unit.programNeedsClosureGlobals then funcLen else 0
    allocatorIndirectTypeIndex := if hasFunctionTable then some funcLen else none
    loggerIndirectTypeIndex := if hasFunctionTable then some (funcLen + 1) else none
    wasmMinConsoleLogTypeIndex := if hasFunctionTable then some (funcLen + 1 + count hasWasmMinLogger) else none
    rootAllocFuncIndex := if hasRootAllocThunk then some (importFuncCount + definedFuncCount) else none
    wasmMinLoggerFuncIndex :=
      if hasWasmMinLogger then some (importFuncCount + definedFuncCount + count hasRootAllocThunk) else none
    wasmMinConsoleLogFuncIndex :=
      if hasWasmMinLogger then some (unit.functionImports reachable).length else none
    tableFuncCount := if hasFunctionTable then funcLen + count hasRootAllocThunk + count hasWasmMinLogger else 0
    rootAllocTableIndex := if hasRootAllocThunk then some funcLen else none
    wasmMinLoggerTableIndex := if hasWasmMinLogger then some (funcLen + count hasRootAllocThunk) else none
    platformPanicFuncIndex := unit.platformPanicFuncIndex reachable
    funcWasmIndices := unit.funcWasmIndices reachable importFuncCount
    globalImportIndices := unit.globalImportIndices reachable
    importedFunctions := unit.importedFunctions reachable
    reachableFunctions := reachable
    hasPlatformPanicImport := (unit.functionImports reachable).any LinkageEntry.platformPanic }

def analyzeImports (reachable : List Bool) : Except Refusal ImportLayout :=
  match unit.hostCallRefusal reachable, unit.foreign.findSome? (unit.entryRefusal reachable) with
  | some refusal, _ => .error refusal
  | none, some refusal => .error refusal
  | none, none =>
    let imports := unit.importLayout reachable
    if unit.needsPanic reachable ∧ imports.hasPlatformPanicImport = false then
      .error ⟨.UNSUPPORTED_MIR, 0, 0, "selected platform does not provide imported panic for direct Wasm"⟩
    else .ok imports

end CodegenUnit

/-- `WasmSigMatchesAllocatorIndirect`. -/
def FnSig.matchesAllocatorIndirect (sig : FnSig) : Bool :=
  sig.wasmParamTypes = List.replicate 7 .i32 ∧ sig.wasmResultTypes = [.i32]

/-- The signatures of functions that fit the calls of an allocator take the type of these calls. -/
def ImportLayout.adjustSigs (imports : ImportLayout) (sigs : List FnSig) : List FnSig :=
  match imports.hasFunctionTable, imports.allocatorIndirectTypeIndex with
  | true, some index => sigs.map fun sig => if sig.matchesAllocatorIndirect then { sig with typeIndex := index } else sig
  | _, _ => sigs

end HopHop.Wasm
