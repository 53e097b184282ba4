import HopHop.WasmIndices

namespace HopHop.Wasm

/-- What is at an index of a function: an import or a body. -/
inductive Slot
  | imported (entry : LinkageEntry)
  | consoleLog
  | body (owner : FuncEntity)

def Slot.Denotes : Slot → FuncEntity → Prop
  | .imported e, .function i => e.functionIndex = i
  | .imported e, .platformPanic => e.platformPanic = true
  | .consoleLog, .consoleLog => True
  | .body owner, target => owner = target
  | _, _ => False

def Import.slot? : Import → Option Slot
  | .function e _ => some (.imported e)
  | .consoleLog _ => some .consoleLog
  | _ => none

def Import.global? : Import → Option GlobalEntity
  | .global e => some (.imported e.functionIndex)
  | _ => none

namespace Module

variable (m : Module)

/-- The functions by their indices: the imports come first, the bodies after them. -/
def funcSpace : List Slot := m.imports.entries.filterMap Import.slot? ++ m.codes.entries.map (Slot.body ·.owner)

def globalSpace : List GlobalEntity := m.imports.entries.filterMap Import.global? ++ m.globals.entries

/-- An index is there and what is at it is what it is meant for. -/
def Resolves : Ref → Prop
  | .func index target => ∃ k slot, index = some k ∧ m.funcSpace[k]? = some slot ∧ slot.Denotes target
  | .type index target => ∃ k, index = some k ∧ m.types.entries[k]? = some target
  | .global index target => m.globalSpace[index]? = some target
  | .table index target => ∃ k slot, m.elements.entries[index]? = some (some k) ∧ m.funcSpace[k]? = some slot ∧
      slot.Denotes target

end Module

/-- The type that a body has to have. -/
def FuncEntity.funcType? (sigs : List FnSig) : FuncEntity → Option FuncType
  | .function i => (sigs[i]?).map FnSig.funcType
  | .platformPanic => none
  | .consoleLog => some consoleLogType
  | .rootAlloc => some allocatorType
  | .logger => some loggerType
  | .wrapper => some wrapperType

/-- The index of a type that stands for a body is that of the type that the body has to have. -/
def Module.Typed (m : Module) (sigs : List FnSig) (index : Option Nat) (body : Body) : Prop :=
  ∃ type, body.owner.funcType? sigs = some type ∧ m.Resolves (.type index type)

/-- A module is well formed: every section has as many entries as it says, every index that is used is there and refers
to what it is meant for, no place of the table is without a function, and no two exports have one name. -/
structure Module.WellFormed (m : Module) (sigs : List FnSig) : Prop where
  typeCount : m.types.count = m.types.entries.length
  importCount : m.imports.count = m.imports.entries.length
  funcCount : m.funcs.count = m.funcs.entries.length
  globalCount : m.globals.count = m.globals.entries.length
  exportCount : m.exports.count = m.exports.entries.length
  elementCount : m.elements.count = m.elements.entries.length
  codeCount : m.codes.count = m.codes.entries.length
  tableSize : m.table = none ∧ m.elements.entries = [] ∨ m.table = some m.elements.entries.length
  bodyTypes : List.Forall₂ (m.Typed sigs) m.funcs.entries m.codes.entries
  importTypes : ∀ e index, Import.function e index ∈ m.imports.entries →
    ∃ sig, sigs[e.functionIndex]? = some sig ∧ m.Resolves (.type index sig.funcType)
  consoleLogType : ∀ index, Import.consoleLog index ∈ m.imports.entries → m.Resolves (.type index consoleLogType)
  bodyRefs : ∀ body ∈ m.codes.entries, ∀ ref ∈ body.refs, m.Resolves ref
  dataRefs : ∀ ref ∈ m.data, m.Resolves ref
  elementsThere : ∀ index ∈ m.elements.entries, ∃ k, index = some k ∧ k < m.funcSpace.length
  exportRefs : ∀ e ∈ m.exports.entries, ∀ ref, e.desc = .func ref → m.Resolves ref
  exportNames : (m.exports.entries.map Export.name).Nodup

namespace CodegenUnit

variable (unit : CodegenUnit)

/-- The functions whose instructions are emitted: those that are kept and not imported. -/
def writtenFunctions : List Nat :=
  (unit.definedFunctions unit.reachableFunctions).filter fun i =>
    i ∉ (unit.globalImports unit.reachableFunctions).map LinkageEntry.functionIndex

/-- The names of the exports: the memory, each main function, and what the program asks for. -/
def exportNames : List (List UInt8) :=
  (if unit.isPlaybitPlatform then [] else [bytesOf "memory"]) ++
    ((List.range unit.funcLen).filter unit.isMain).map (fun _ => bytesOf "hop_main") ++
    (unit.foreign.filter (·.kind = .EXPORT_FN)).map LinkageEntry.arg0

/-- What an instruction that is emitted needs for its indices to be right: a closure is made of a function that is kept,
a capture is read and written where there are captures, and where there is a context for its logger an allocation
finds an allocator in it too. -/
structure InstCoherent (inst : MirInst) : Prop where
  closure : inst.op = .MAKE_CLOSURE → ∀ target, unit.functionConst inst.aux = some target →
    isMarked unit.reachableFunctions target = true
  capture : inst.op = .CAPTURE_LOAD ∨ inst.op = .CAPTURE_STORE → unit.programNeedsClosureGlobals = true
  allocator : inst.op = .ALLOC_NEW → hasExplicitAllocator inst = true ∨
    (unit.programNeedsRootLogger unit.reachableFunctions = true →
      unit.programNeedsRootAllocator unit.reachableFunctions = true ∨ unit.isWasmMinPlatform = true)

/-- What a program has to be for its module to be well formed: no two exports have one name (so there is one main
function, and no export is named like it or the memory), functions have values only if some function is kept, and every
instruction has what it needs. -/
structure Coherent : Prop where
  exportNames : unit.exportNames.Nodup
  filled : unit.programNeedsFunctionTable = true →
    unit.funcLen = 0 ∨ ∃ i, isMarked unit.reachableFunctions i = true
  insts : ∀ i ∈ unit.writtenFunctions, ∀ inst ∈ unit.code i, unit.InstCoherent inst

end CodegenUnit

/-! ### What a plan settles -/

namespace ModulePlan

variable {unit : CodegenUnit} {plan : ModulePlan}

theorem entries_inside {reachable : List Bool} {imports : ImportLayout}
    (analyzed : unit.analyzeImports reachable = .ok imports) : ∀ e ∈ unit.foreign, e.functionIndex < unit.funcLen := by
  intro e isIn
  rw [CodegenUnit.analyzeImports] at analyzed
  cases refusal : unit.foreign.findSome? (unit.entryRefusal reachable) with
  | some _ =>
    rw [refusal] at analyzed
    split at analyzed <;> simp_all
  | none =>
    have accepted := List.findSome?_eq_none_iff.mp refusal e isIn
    rw [CodegenUnit.entryRefusal] at accepted
    split at accepted
    · cases accepted
    · omega

/-- The layout of the imports, for the functions that the plan keeps. -/
structure Settled (plan : ModulePlan) : Prop where
  reachable : plan.imports.reachableFunctions = plan.unit.reachableFunctions
  entries : ∀ e ∈ plan.unit.foreign, e.functionIndex < plan.unit.funcLen
  kept : plan.unit.Kept plan.imports.reachableFunctions
  imports : plan.imports = plan.unit.importLayout plan.imports.reachableFunctions
  sigs : ∃ ownSigs, CodegenUnit.TypesShared ownSigs ∧ ownSigs.length = plan.funcLen ∧
    plan.sigs = plan.imports.adjustSigs ownSigs
  entry : plan.unit.planEntryLayout plan.sigs plan.imports plan.strings = .ok plan.entry
  strings : plan.unit.buildStringLayout plan.imports = some plan.strings

theorem settled_of_planned (planned : unit.Planned plan) : plan.Settled := by
  have imports := CodegenUnit.analyzeImports_eq planned.imports
  have reachable : plan.imports.reachableFunctions = unit.reachableFunctions := by
    rw [imports]
    rfl
  obtain ⟨ownSigs, built, adjusted⟩ := planned.sigs
  have shared : CodegenUnit.TypesShared [] := by
    intro sig isIn
    cases isIn
  obtain ⟨shared, length⟩ := CodegenUnit.signaturesFrom_shared shared built
  have unit_eq := planned.unit_eq
  refine ⟨?_, ?_, ?_, ?_, ⟨ownSigs, shared, ?_, adjusted⟩, ?_, ?_⟩
  · rw [reachable, unit_eq]
  · rw [unit_eq]
    exact entries_inside planned.imports
  · rw [reachable, unit_eq]
    exact CodegenUnit.kept_reachableFunctions
  · rw [reachable, unit_eq]
    exact imports
  · rw [length, funcLen, unit_eq]
    simp [CodegenUnit.funcLen]
  · rw [unit_eq]
    exact planned.entry
  · rw [unit_eq]
    exact planned.strings

namespace Settled

/-- There is a root allocator where the program needs one, and for the logger of the platform. -/
theorem hasRootAllocThunk_iff (settled : plan.Settled) :
    plan.imports.hasRootAllocThunk = true ↔
      plan.unit.programNeedsRootAllocator plan.unit.reachableFunctions = true ∨
        plan.unit.isWasmMinPlatform = true ∧ plan.unit.programNeedsRootLogger plan.unit.reachableFunctions = true := by
  rw [settled.imports, settled.reachable]
  simp only [CodegenUnit.importLayout, Bool.or_eq_true, Bool.and_eq_true]

theorem hasRootAllocThunk_of_logger (settled : plan.Settled) (logger : plan.imports.hasWasmMinLogger = true) :
    plan.imports.hasRootAllocThunk = true := by
  rw [settled.imports] at logger ⊢
  simp only [CodegenUnit.importLayout] at logger ⊢
  simp [logger]

theorem hasFunctionTable_of_thunk (settled : plan.Settled) (thunk : plan.imports.hasRootAllocThunk = true) :
    plan.imports.hasFunctionTable = true := by
  rw [settled.imports] at thunk ⊢
  simp only [CodegenUnit.importLayout] at thunk ⊢
  simp [thunk]

theorem needsHeapGlobal_of_thunk (settled : plan.Settled) (thunk : plan.imports.hasRootAllocThunk = true) :
    plan.imports.needsHeapGlobal = true := by
  rw [settled.imports] at thunk ⊢
  simp only [CodegenUnit.importLayout] at thunk ⊢
  simp [thunk]

theorem importFuncCount (settled : plan.Settled) :
    plan.imports.importFuncCount = plan.functionImports.length + count plan.imports.hasWasmMinLogger := by
  rw [functionImports, settled.imports]
  rfl

theorem definedFuncCount (settled : plan.Settled) : plan.imports.definedFuncCount = plan.definedFunctions.length := by
  rw [definedFunctions, settled.imports]
  rfl

theorem importGlobalCount (settled : plan.Settled) : plan.imports.importGlobalCount = plan.globalImports.length := by
  rw [globalImports, settled.imports]
  rfl

theorem functionTableOf (settled : plan.Settled) (needed : plan.unit.programNeedsFunctionTable = true) :
    plan.imports.hasFunctionTable = true := by
  rw [settled.imports]
  simp only [CodegenUnit.importLayout]
  simp [needed]

theorem frameGlobalIndex (settled : plan.Settled) : plan.imports.frameGlobalIndex = plan.globalImports.length := by
  rw [globalImports, settled.imports]
  rfl

theorem heapGlobalIndex (settled : plan.Settled) :
    plan.imports.heapGlobalIndex = plan.globalImports.length + count plan.imports.needsFrameGlobal := by
  rw [globalImports, settled.imports]
  rfl

theorem closureGlobalStartIndex (settled : plan.Settled) :
    plan.imports.closureGlobalStartIndex
      = plan.globalImports.length + count plan.imports.needsFrameGlobal + count plan.imports.needsHeapGlobal := by
  rw [globalImports, settled.imports]
  rfl

theorem closureGlobalCount (settled : plan.Settled) :
    plan.imports.closureGlobalCount = if plan.unit.programNeedsClosureGlobals then plan.funcLen else 0 := by
  rw [settled.imports]
  rfl

theorem allocatorIndirectTypeIndex (settled : plan.Settled) (table : plan.imports.hasFunctionTable = true) :
    plan.imports.allocatorIndirectTypeIndex = some plan.funcLen := by
  rw [settled.imports] at table ⊢
  exact if_pos table

theorem loggerIndirectTypeIndex (settled : plan.Settled) (table : plan.imports.hasFunctionTable = true) :
    plan.imports.loggerIndirectTypeIndex = some (plan.funcLen + 1) := by
  rw [settled.imports] at table ⊢
  exact if_pos table

theorem wasmMinConsoleLogTypeIndex (settled : plan.Settled) (table : plan.imports.hasFunctionTable = true) :
    plan.imports.wasmMinConsoleLogTypeIndex = some (plan.funcLen + 1 + count plan.imports.hasWasmMinLogger) := by
  rw [settled.imports] at table ⊢
  exact if_pos table

theorem rootAllocFuncIndex (settled : plan.Settled) :
    plan.imports.rootAllocFuncIndex =
      if plan.imports.hasRootAllocThunk then some (plan.imports.importFuncCount + plan.imports.definedFuncCount)
      else none := by
  rw [settled.imports]
  rfl

theorem wasmMinLoggerFuncIndex (settled : plan.Settled) :
    plan.imports.wasmMinLoggerFuncIndex =
      if plan.imports.hasWasmMinLogger then
        some (plan.imports.importFuncCount + plan.imports.definedFuncCount + count plan.imports.hasRootAllocThunk)
      else none := by
  rw [settled.imports]
  rfl

theorem wasmMinConsoleLogFuncIndex (settled : plan.Settled) (logger : plan.imports.hasWasmMinLogger = true) :
    plan.imports.wasmMinConsoleLogFuncIndex = some plan.functionImports.length := by
  rw [functionImports]
  rw [settled.imports] at logger ⊢
  exact if_pos logger

theorem tableFuncCount (settled : plan.Settled) :
    plan.imports.tableFuncCount =
      if plan.imports.hasFunctionTable then
        plan.funcLen + count plan.imports.hasRootAllocThunk + count plan.imports.hasWasmMinLogger
      else 0 := by
  rw [settled.imports]
  rfl

theorem rootAllocTableIndex (settled : plan.Settled) :
    plan.imports.rootAllocTableIndex = if plan.imports.hasRootAllocThunk then some plan.funcLen else none := by
  rw [settled.imports]
  rfl

theorem wasmMinLoggerTableIndex (settled : plan.Settled) :
    plan.imports.wasmMinLoggerTableIndex =
      if plan.imports.hasWasmMinLogger then some (plan.funcLen + count plan.imports.hasRootAllocThunk) else none := by
  rw [settled.imports]
  rfl

theorem funcWasmIndices (settled : plan.Settled) :
    plan.imports.funcWasmIndices
      = plan.unit.funcWasmIndices plan.imports.reachableFunctions plan.imports.importFuncCount := by
  rw [settled.imports]
  rfl

theorem exists_index {i : Nat} (settled : plan.Settled)
    (marked : isMarked plan.imports.reachableFunctions i = true) :
    ∃ k, plan.imports.funcWasmIndices[i]? = some (some k) := by
  have inside : i < plan.unit.funcLen := settled.kept.length ▸ isMarked_lt marked
  rw [settled.funcWasmIndices]
  by_cases imported : i ∈ plan.functionImports.map LinkageEntry.functionIndex
  · obtain ⟨k, _, _, _, number⟩ := CodegenUnit.funcWasmIndices_imported inside imported
    exact ⟨k, number⟩
  · obtain ⟨k, _, number⟩ :=
      CodegenUnit.funcWasmIndices_defined (CodegenUnit.mem_definedFunctions.mpr ⟨inside, marked, imported⟩)
    exact ⟨_, number⟩

/-- The allocator in the context that the program starts with is the root allocator, where there is one. -/
theorem allocHandler {context : RootContext} (settled : plan.Settled)
    (thunk : plan.imports.hasRootAllocThunk = true) (isContext : plan.strings.rootContext = some context) :
    context.allocHandler = plan.funcLen := by
  have built := settled.strings
  simp only [CodegenUnit.buildStringLayout, Option.bind_eq_bind, Option.bind_eq_some_iff, Option.pure_def,
    Option.some.injEq, Prod.exists] at built
  obtain ⟨_, len, _, rootContext, _, context_, _, _, _, _, _, _, _, _, _, same⟩ := built
  rw [← same] at isContext
  rw [CodegenUnit.layoutRootContext] at context_
  split at context_
  · simp only [Option.map_eq_some_iff, Prod.mk.injEq] at context_
    obtain ⟨_, _, made, _⟩ := context_
    rw [show rootContext = some context from isContext] at made
    rw [← Option.some.inj made, settled.rootAllocTableIndex, if_pos thunk]
    rfl
  · rw [show rootContext = some context from isContext] at context_
    cases context_

end Settled

end ModulePlan

end HopHop.Wasm
