import HopHop.WasmImports

namespace HopHop.Wasm

def align4 (n : UInt32) : UInt32 := (n + 3) &&& ~~~3

/-- `WasmReserve`, as far as lengths go: the length after more bytes, unless it has more than 32 bits. -/
def reserve (len extra : Nat) : Option Nat := if 0xFFFFFFFF - len < extra then none else some (len + extra)

structure StringRef where
  objectOffset : Nat
  dataOffset : Nat
  len : Nat
  deriving DecidableEq, Repr

/-- The context that the program starts with, and the table indices of the handlers in it; 0 stands for none. -/
structure RootContext where
  offset : Nat
  allocHandler : Nat
  loggerHandler : Nat
  deriving DecidableEq, Repr

structure StringLayout where
  constRefs : List (Option StringRef)
  dataLen : Nat
  rootContext : Option RootContext
  assertPanic : Option StringRef
  allocNullPanic : Option StringRef
  invalidAllocatorPanic : Option StringRef
  deriving DecidableEq, Repr

def contextSize : Nat := 56

/-- The loop over the constants, with the length of the data before them. -/
def layoutConsts : Nat → List MirConst → Option (List (Option StringRef) × Nat)
  | len, [] => some ([], len)
  | len, const :: consts =>
    if const.kind = .STRING then do
      let next ← reserve len (const.bytes.len.toNat + 9)
      let (refs, stop) ← layoutConsts next consts
      return (some ⟨len, len + 8, const.bytes.len.toNat⟩ :: refs, stop)
    else do
      let (refs, stop) ← layoutConsts len consts
      return (none :: refs, stop)

/-- A message for a panic, with a zero behind it, if the program needs it. -/
def layoutMessage (needed : Bool) (len messageLen : Nat) : Option (Option StringRef × Nat) :=
  if needed then (reserve len (messageLen + 1)).map fun next => (some ⟨0xFFFFFFFF, len, messageLen⟩, next)
  else some (none, len)

structure EntryLayout where
  mainFuncIndex : Option Nat
  wrapperTypeIndex : Option Nat
  wrapperFuncIndex : Option Nat
  resultOffset : UInt32
  resultSize : UInt32
  hasWrapper : Bool
  resultKind : TypeKind
  usesSRet : Bool
  deriving DecidableEq, Repr

def EntryLayout.none : EntryLayout := ⟨.none, .none, .none, 0xFFFFFFFF, 0, false, .VOID, false⟩

namespace CodegenUnit

variable (unit : CodegenUnit)

def layoutRootContext (imports : ImportLayout) (len : Nat) : Option (Option RootContext × Nat) :=
  if unit.programNeedsRootContext imports.reachableFunctions then
    let offset := max len 4
    (reserve offset contextSize).map fun next =>
      (some ⟨offset, imports.rootAllocTableIndex.getD 0, imports.wasmMinLoggerTableIndex.getD 0⟩, next)
  else some (none, len)

def buildStringLayout (imports : ImportLayout) : Option StringLayout := do
  let reachable := imports.reachableFunctions
  let hasPanic := imports.hasPlatformPanicImport
  let (constRefs, len) ← layoutConsts 0 unit.mirProgram.consts
  let (rootContext, len) ← unit.layoutRootContext imports len
  let (assertPanic, len) ← layoutMessage (hasPanic && unit.programHasAssert reachable) len "assertion failed".length
  let (allocNullPanic, len) ←
    layoutMessage (hasPanic && unit.programHasAllocNullPanic reachable) len "unwrap: null value".length
  let (invalidAllocatorPanic, len) ←
    layoutMessage (hasPanic && unit.programHasInvalidAllocatorPanic reachable) len "invalid allocator".length
  return ⟨constRefs, len, rootContext, assertPanic, allocNullPanic, invalidAllocatorPanic⟩

/-- The number of bytes that the result of the main function takes. -/
def resultSize (sig : FnSig) (typeRef : UInt32) : Option UInt32 :=
  if sig.usesSRet then some ((unit.kinds.byteSize typeRef).getD 0xFFFFFFFF)
  else
    match sig.logicalResultKind.slotCount with
    | 2 => some 8
    | 1 => some 4
    | _ => none

def planEntryLayout (sigs : List FnSig) (imports : ImportLayout) (strings : StringLayout) :
    Except Refusal EntryLayout :=
  match (List.range unit.funcLen).find? unit.isMain with
  | none => .ok EntryLayout.none
  | some i =>
    match unit.mirProgram.funcs[i]?, sigs[i]? with
    | some fn, some sig =>
      if sig.logicalResultKind = .VOID ∨ sig.logicalResultKind = .I32 then
        .ok { EntryLayout.none with mainFuncIndex := some i }
      else
        match unit.resultSize sig fn.typeRef with
        | none => .error ⟨.UNSUPPORTED_MIR, fn.nameStart, fn.nameEnd, "unsupported exported main return kind"⟩
        | some resultSize =>
          .ok
            { mainFuncIndex := some i
              wrapperTypeIndex :=
                some (unit.funcLen + count imports.hasFunctionTable + (if imports.hasWasmMinLogger then 2 else 0))
              wrapperFuncIndex :=
                some (imports.importFuncCount + imports.definedFuncCount + count imports.hasRootAllocThunk
                  + count imports.hasWasmMinLogger)
              resultOffset := align4 (UInt32.ofNat strings.dataLen)
              resultSize, hasWrapper := true, resultKind := sig.logicalResultKind, usesSRet := sig.usesSRet }
    | _, _ => .ok EntryLayout.none

end CodegenUnit

def staticDataEnd (strings : StringLayout) (entry : EntryLayout) : UInt32 :=
  let stop := align4 (UInt32.ofNat strings.dataLen)
  let resultEnd := align4 (entry.resultOffset + entry.resultSize)
  if entry.hasWrapper ∧ stop < resultEnd then resultEnd else stop

/-- What `EmitWasmBackend` settles before it writes the sections. -/
structure ModulePlan where
  unit : CodegenUnit
  sigs : List FnSig
  imports : ImportLayout
  strings : StringLayout
  entry : EntryLayout

/-- An instruction whose name is still to be resolved. -/
def CodegenUnit.needsDynamicResolution (unit : CodegenUnit) : Bool :=
  unit.mirProgram.insts.any fun inst => inst.op = .LOAD_IDENT ∨ inst.op = .CALL

def CodegenUnit.plan (unit : CodegenUnit) : Except Refusal ModulePlan := do
  if unit.usesPlatform ∧ unit.supportsPlatformImports = false then
    throw ⟨.PLATFORM_REQUIRED, 0, 0, "packages using import \"platform\" require --platform wasm-min or playbit"⟩
  if unit.needsDynamicResolution then throw ⟨.UNSUPPORTED_MIR, 0, 0, "MIR still needs dynamic resolution"⟩
  let reachable := unit.reachableFunctions
  let ownSigs ← unit.buildFunctionSignatures reachable
  let imports ← unit.analyzeImports reachable
  let sigs := imports.adjustSigs ownSigs
  match unit.buildStringLayout imports with
  | none => throw ⟨.ARENA_OOM, 0, 0, ""⟩
  | some strings =>
    let entry ← unit.planEntryLayout sigs imports strings
    return ⟨unit, sigs, imports, strings, entry⟩

namespace ModulePlan

variable (plan : ModulePlan)

def pageSize : Nat := 65536

/-- The pages of the memory: those that are declared, or the least that an imported memory has. -/
def memoryPages : Nat :=
  if plan.unit.isPlaybitPlatform then 512
  else if plan.imports.needsFrameGlobal ∧ plan.imports.needsHeapGlobal then 2
  else 1

def memorySize : Nat := plan.memoryPages * pageSize

def heapBaseInit : UInt32 := staticDataEnd plan.strings plan.entry

def frameBaseInit : UInt32 :=
  if plan.imports.needsHeapGlobal ∧ plan.heapBaseInit ≤ 65536 then 65536 else plan.heapBaseInit

end ModulePlan

/-- What is known of a plan: each part is what its function makes of the parts before it. -/
structure CodegenUnit.Planned (unit : CodegenUnit) (plan : ModulePlan) : Prop where
  unit_eq : plan.unit = unit
  sigs : ∃ ownSigs, unit.buildFunctionSignatures unit.reachableFunctions = .ok ownSigs ∧
    plan.sigs = plan.imports.adjustSigs ownSigs
  imports : unit.analyzeImports unit.reachableFunctions = .ok plan.imports
  strings : unit.buildStringLayout plan.imports = some plan.strings
  entry : unit.planEntryLayout plan.sigs plan.imports plan.strings = .ok plan.entry

theorem CodegenUnit.plan_planned {unit : CodegenUnit} {plan : ModulePlan} (planned : unit.plan = .ok plan) :
    unit.Planned plan := by
  rw [CodegenUnit.plan] at planned
  by_cases platform : unit.usesPlatform = true ∧ unit.supportsPlatformImports = false
  · rw [if_pos platform] at planned
    cases planned
  rw [if_neg platform] at planned
  by_cases dynamic : unit.needsDynamicResolution = true
  · rw [if_pos dynamic] at planned
    cases planned
  rw [if_neg dynamic] at planned
  cases built : unit.buildFunctionSignatures unit.reachableFunctions with
  | error refusal =>
    simp only [built, bind, Except.bind] at planned
    cases planned
  | ok ownSigs =>
    cases analyzed : unit.analyzeImports unit.reachableFunctions with
    | error refusal =>
      simp only [built, analyzed, bind, Except.bind] at planned
      cases planned
    | ok imports =>
      cases strings : unit.buildStringLayout imports with
      | none =>
        simp only [built, analyzed, strings, bind, Except.bind] at planned
        cases planned
      | some strings' =>
        cases entry : unit.planEntryLayout (imports.adjustSigs ownSigs) imports strings' with
        | error refusal =>
          simp only [built, analyzed, strings, entry, bind, Except.bind] at planned
          cases planned
        | ok entry' =>
          simp only [built, analyzed, strings, entry, bind, Except.bind, pure, Except.pure, Except.ok.injEq] at planned
          rw [← planned]
          exact ⟨rfl, ⟨ownSigs, built, rfl⟩, analyzed, strings, entry⟩

theorem CodegenUnit.analyzeImports_eq {unit : CodegenUnit} {reachable : List Bool} {imports : ImportLayout}
    (analyzed : unit.analyzeImports reachable = .ok imports) : imports = unit.importLayout reachable := by
  rw [CodegenUnit.analyzeImports] at analyzed
  split at analyzed
  · cases analyzed
  · cases analyzed
  · simp only at analyzed
    split at analyzed
    · cases analyzed
    · exact (Except.ok.inj analyzed).symm

end HopHop.Wasm
