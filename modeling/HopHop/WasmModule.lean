import HopHop.WasmLayout

namespace HopHop.Wasm

structure FuncType where
  params : List ValueType
  results : List ValueType
  deriving DecidableEq, Repr

def allocatorType : FuncType := ⟨List.replicate 7 .i32, [.i32]⟩
def loggerType : FuncType := ⟨List.replicate 5 .i32, []⟩
def consoleLogType : FuncType := ⟨List.replicate 3 .i32, []⟩
def wrapperType : FuncType := ⟨[], []⟩

def FnSig.funcType (sig : FnSig) : FuncType := ⟨sig.wasmParamTypes, sig.wasmResultTypes⟩

/-- What an index of a function is meant for. -/
inductive FuncEntity
  | function (i : Nat)
  | platformPanic
  | consoleLog
  | rootAlloc
  | logger
  | wrapper
  deriving DecidableEq, Repr

inductive GlobalEntity
  | imported (i : Nat)
  | frame
  | heap
  | closure (i : Nat)
  deriving DecidableEq, Repr

/-- An index that a body has, with what it is meant for. No index stands for the number 2^32 - 1. -/
inductive Ref
  | func (index : Option Nat) (target : FuncEntity)
  | type (index : Option Nat) (target : FuncType)
  | global (index : Nat) (target : GlobalEntity)
  | table (index : Nat) (target : FuncEntity)
  deriving DecidableEq, Repr

/-- The entries of a section and the number of them that stands before them. -/
structure Section (α : Type) where
  count : Nat
  entries : List α
  deriving DecidableEq, Repr

inductive Import
  | memory
  | function (entry : LinkageEntry) (typeIndex : Option Nat)
  | consoleLog (typeIndex : Option Nat)
  | global (entry : LinkageEntry)
  deriving DecidableEq, Repr

inductive ExportDesc
  | memory
  | func (ref : Ref)
  deriving DecidableEq, Repr

structure Export where
  name : List UInt8
  desc : ExportDesc
  deriving DecidableEq, Repr

structure Body where
  owner : FuncEntity
  refs : List Ref
  deriving DecidableEq, Repr

/-- The sections of a module, as far as they have indices, and the table indices in its data. -/
structure Module where
  types : Section FuncType
  imports : Section Import
  funcs : Section (Option Nat)
  table : Option Nat
  globals : Section GlobalEntity
  exports : Section Export
  elements : Section (Option Nat)
  codes : Section Body
  data : List Ref
  deriving DecidableEq, Repr

/-- Which of its forms an indirect call has: one of a function with a known signature, of a logger or of an
allocator. -/
inductive IndirectCall
  | known (i : Nat)
  | logger
  | allocator
  deriving DecidableEq, Repr

/-- What the operand stack of the emitter says: that the body of a function is accepted as far as that depends on it,
and the form of each indirect call. -/
structure StackFacts where
  accepts : Nat → Bool
  indirect : Nat → Nat → IndirectCall

namespace ModulePlan

variable (plan : ModulePlan)

def funcLen : Nat := plan.unit.funcLen

/-- The index of a function of the program, for the function that an index is meant for. -/
def funcRef (i : Nat) : Ref := .func ((plan.imports.funcWasmIndices[i]?).getD none) (.function i)

def closureRef (i : Nat) : Ref := .global (plan.imports.closureGlobalStartIndex + i) (.closure i)

def frameRefs (i : Nat) : List Ref :=
  if (plan.unit.mirProgram.funcs[i]?).any plan.unit.functionNeedsFrameMemory then
    [.global plan.imports.frameGlobalIndex .frame]
  else []

/-- The call of the platform's panic with a message, if there is one. -/
def panicRefs (message : Option StringRef) : List Ref :=
  if plan.imports.hasPlatformPanicImport ∧ message.isSome then
    [.func plan.imports.platformPanicFuncIndex .platformPanic]
  else []

/-- The indices of an allocation: it goes through the allocator that it is given or that of the context, if there is
one, and takes from the heap otherwise. -/
def allocRefs (inst : MirInst) : Option (List Ref) :=
  if plan.imports.needsHeapGlobal = false then none
  else
    let panics := plan.panicRefs plan.strings.invalidAllocatorPanic ++ plan.panicRefs plan.strings.allocNullPanic
    if CodegenUnit.hasExplicitAllocator inst then some (.type plan.imports.allocatorIndirectTypeIndex allocatorType :: panics)
    else
      match plan.strings.rootContext with
      | some context =>
        some (.type plan.imports.allocatorIndirectTypeIndex allocatorType :: .table context.allocHandler .rootAlloc
          :: panics)
      | none => some [.global plan.imports.heapGlobalIndex .heap]

/-- The indices of an indirect call. -/
def indirectRefs : IndirectCall → Option (List Ref)
  | .known i =>
    match plan.sigs[i]?, plan.unit.mirProgram.funcs[i]? with
    | some sig, some fn =>
      if sig.matchesAllocatorIndirect ∨ sig.usesSRet then none
      else if fn.isFunctionValueEntry then
        if plan.imports.closureGlobalCount ≤ i then none
        else some [plan.closureRef i, .type sig.typeIndex sig.funcType]
      else some [.type sig.typeIndex sig.funcType]
    | _, _ => none
  | .logger =>
    if plan.imports.hasWasmMinLogger then some [.type plan.imports.loggerIndirectTypeIndex loggerType] else none
  | .allocator => some [.type plan.imports.allocatorIndirectTypeIndex allocatorType]

/-- The indices that an instruction is emitted with; `none` where the emission gives up. -/
def instRefs (facts : StackFacts) (i pc : Nat) (inst : MirInst) : Option (List Ref) :=
  match inst.op with
  | .PUSH_CONST =>
    match plan.unit.functionConst inst.aux with
    | some target =>
      if plan.imports.hasFunctionTable = false ∨ plan.funcLen ≤ target then none
      else some [.table target (.function target)]
    | none => some []
  | .MAKE_CLOSURE =>
    match plan.unit.functionConst inst.aux with
    | some target =>
      if plan.imports.closureGlobalCount ≤ target ∨ plan.funcLen ≤ target then none
      else some [plan.closureRef target, .table target (.function target)]
    | none => none
  | .CAPTURE_ADDR => if plan.imports.closureGlobalCount ≤ i then none else some [plan.closureRef i]
  | .CAPTURE_LOAD | .CAPTURE_STORE => some [plan.closureRef i]
  | .ALLOC_NEW => plan.allocRefs inst
  | .CALL_FN => if plan.funcLen ≤ inst.aux.toNat then none else some [plan.funcRef inst.aux.toNat]
  | .CALL_INDIRECT => if plan.imports.hasFunctionTable then plan.indirectRefs (facts.indirect i pc) else none
  | .ASSERT => some (plan.panicRefs plan.strings.assertPanic)
  | .CALL_HOST | .LOAD_IDENT | .CALL => none
  | _ => some []

/-- The body of a function: an imported global is read, and other functions have the indices of their frame and of
their instructions. -/
def functionBody (facts : StackFacts) (i : Nat) : Option Body :=
  match (plan.imports.globalImportIndices[i]?).getD none with
  | some index => some ⟨.function i, [.global index (.imported i)]⟩
  | none =>
    if facts.accepts i then do
      let refs ← (plan.unit.code i).zipIdx.mapM fun inst => plan.instRefs facts i inst.2 inst.1
      return ⟨.function i, plan.frameRefs i ++ refs.flatten⟩
    else none

def rootAllocBody : Body := ⟨.rootAlloc, [.global plan.imports.heapGlobalIndex .heap]⟩

def loggerBody : Body := ⟨.logger, [.func plan.imports.wasmMinConsoleLogFuncIndex .consoleLog]⟩

def wrapperBody : Body := ⟨.wrapper, (plan.entry.mainFuncIndex.map plan.funcRef).toList⟩

/-- The parts that are there only for some programs, in their order. -/
def supportBodies : List Body :=
  (if plan.imports.hasRootAllocThunk then [plan.rootAllocBody] else []) ++
    (if plan.imports.hasWasmMinLogger then [plan.loggerBody] else []) ++
    (if plan.entry.hasWrapper then [plan.wrapperBody] else [])

def definedFunctions : List Nat := plan.unit.definedFunctions plan.imports.reachableFunctions

def functionImports : List LinkageEntry := plan.unit.functionImports plan.imports.reachableFunctions

def globalImports : List LinkageEntry := plan.unit.globalImports plan.imports.reachableFunctions

/-- The number of function bodies that the module says it has. -/
def codeCount : Nat :=
  plan.imports.definedFuncCount + count plan.imports.hasRootAllocThunk + count plan.imports.hasWasmMinLogger
    + count plan.entry.hasWrapper

def typeSection : Section FuncType where
  count := plan.funcLen + count plan.imports.hasFunctionTable + (if plan.imports.hasWasmMinLogger then 2 else 0)
    + count plan.entry.hasWrapper
  entries := plan.sigs.map FnSig.funcType ++ (if plan.imports.hasFunctionTable then [allocatorType] else []) ++
    (if plan.imports.hasWasmMinLogger then [loggerType, consoleLogType] else []) ++
    (if plan.entry.hasWrapper then [wrapperType] else [])

def sigTypeIndex (i : Nat) : Option Nat := (plan.sigs[i]?).map FnSig.typeIndex

def importsMemory : Bool := plan.unit.isPlaybitPlatform

/-- The import section; it is left out when it would be empty. -/
def importSection : Section Import where
  count := plan.imports.importFuncCount + plan.imports.importGlobalCount + count plan.importsMemory
  entries := (if plan.importsMemory then [.memory] else []) ++
    plan.functionImports.map (fun e => .function e (plan.sigTypeIndex e.functionIndex)) ++
    (if plan.imports.hasWasmMinLogger then [.consoleLog plan.imports.wasmMinConsoleLogTypeIndex] else []) ++
    plan.globalImports.map .global

def funcSection : Section (Option Nat) where
  count := plan.codeCount
  entries := plan.definedFunctions.map plan.sigTypeIndex ++
    (if plan.imports.hasRootAllocThunk then [plan.imports.allocatorIndirectTypeIndex] else []) ++
    (if plan.imports.hasWasmMinLogger then [plan.imports.loggerIndirectTypeIndex] else []) ++
    (if plan.entry.hasWrapper then [plan.entry.wrapperTypeIndex] else [])

def globalSection : Section GlobalEntity where
  count := count plan.imports.needsFrameGlobal + count plan.imports.needsHeapGlobal + plan.imports.closureGlobalCount
  entries := (if plan.imports.needsFrameGlobal then [.frame] else []) ++
    (if plan.imports.needsHeapGlobal then [.heap] else []) ++
    (List.range plan.imports.closureGlobalCount).map .closure

/-- The main functions that are kept. -/
def mainFunctions : List Nat :=
  (List.range plan.funcLen).filter fun i => isMarked plan.imports.reachableFunctions i ∧ plan.unit.isMain i

/-- The exports that the program asks for. -/
def exportEntries : List LinkageEntry :=
  plan.unit.foreign.filter fun e => e.kind = .EXPORT_FN ∧ isMarked plan.imports.reachableFunctions e.functionIndex

/-- The index that a function is exported with: that of its wrapper, if it has one. -/
def exportRef (i : Nat) : Ref :=
  if plan.entry.hasWrapper ∧ plan.entry.mainFuncIndex = some i then .func plan.entry.wrapperFuncIndex .wrapper
  else plan.funcRef i

def exportSection : Section Export where
  count := count (!plan.importsMemory) + plan.mainFunctions.length + plan.exportEntries.length
  entries := (if plan.importsMemory then [] else [⟨bytesOf "memory", .memory⟩]) ++
    plan.mainFunctions.map (fun i => ⟨bytesOf "hop_main", .func (plan.exportRef i)⟩) ++
    plan.exportEntries.map (fun e => ⟨e.arg0, .func (plan.exportRef e.functionIndex)⟩)

/-- The index that stands in the table for a function that the module does not keep. -/
def fillIndex : Option Nat :=
  if plan.imports.hasWasmMinLogger then plan.imports.wasmMinLoggerFuncIndex
  else if plan.imports.hasRootAllocThunk then plan.imports.rootAllocFuncIndex
  else (plan.imports.funcWasmIndices.filterMap id).head?

def elementIndex (i : Nat) : Option Nat :=
  match (plan.imports.funcWasmIndices[i]?).getD none with
  | some index => some index
  | none => plan.fillIndex

/-- The element section; it is left out when there is no table. -/
def elementSection : Section (Option Nat) where
  count := plan.imports.tableFuncCount
  entries :=
    if plan.imports.hasFunctionTable then
      (List.range plan.funcLen).map plan.elementIndex ++
        (if plan.imports.hasRootAllocThunk then [plan.imports.rootAllocFuncIndex] else []) ++
        (if plan.imports.hasWasmMinLogger then [plan.imports.wasmMinLoggerFuncIndex] else [])
    else []

/-- The table indices of the handlers in the context that the program starts with. -/
def dataRefs : List Ref :=
  if plan.strings.rootContext.isSome then
    (plan.imports.rootAllocTableIndex.map (Ref.table · .rootAlloc)).toList ++
      (plan.imports.wasmMinLoggerTableIndex.map (Ref.table · .logger)).toList
  else []

/-- `EmitWasmBackend` from the sections on; `none` where the body of a function is given up. -/
def emitModule (facts : StackFacts) : Option Module := do
  let bodies ← plan.definedFunctions.mapM (plan.functionBody facts)
  return {
    types := plan.typeSection
    imports := plan.importSection
    funcs := plan.funcSection
    table := if plan.imports.hasFunctionTable then some plan.imports.tableFuncCount else none
    globals := plan.globalSection
    exports := plan.exportSection
    elements := plan.elementSection
    codes := ⟨plan.codeCount, bodies ++ plan.supportBodies⟩
    data := plan.dataRefs }

end ModulePlan

end HopHop.Wasm
