import HopHop.WasmValid

namespace HopHop

theorem forall₂_of_mapM {α β : Type} {f : α → Option β} {l : List α} {l' : List β} (result : l.mapM f = some l') :
    List.Forall₂ (fun a b => f a = some b) l l' := by
  induction l generalizing l' with
  | nil =>
    simp only [List.mapM_nil, Option.pure_def, Option.some.injEq] at result
    rw [← result]
    exact .nil
  | cons a l ih =>
    simp only [List.mapM_cons, Option.bind_eq_bind, Option.bind_eq_some_iff] at result
    obtain ⟨b, head, bs, tail, same⟩ := result
    rw [← Option.some.inj same]
    exact .cons head (ih tail)

theorem forall₂_exists_right {α β : Type} {r : α → β → Prop} {l : List α} {l' : List β} (each : List.Forall₂ r l l') :
    ∀ a ∈ l, ∃ b ∈ l', r a b := by
  intro a isIn
  induction each with
  | nil => cases isIn
  | @cons a' b _ _ head _ ih =>
    rcases List.mem_cons.mp isIn with here | later
    · exact ⟨b, List.mem_cons_self, here ▸ head⟩
    · obtain ⟨b', isIn', related⟩ := ih later
      exact ⟨b', List.mem_cons_of_mem _ isIn', related⟩

theorem forall₂_exists_left {α β : Type} {r : α → β → Prop} {l : List α} {l' : List β} (each : List.Forall₂ r l l') :
    ∀ b ∈ l', ∃ a ∈ l, r a b := forall₂_exists_right each.flip

namespace Wasm

namespace ModulePlan

variable {plan : ModulePlan} {facts : StackFacts} {m : Module}

/-- What is known of an emitted module: its sections are those of the plan, with a body for each function that is
defined. -/
structure Emitted (plan : ModulePlan) (facts : StackFacts) (m : Module) : Prop where
  types : m.types = plan.typeSection
  imports : m.imports = plan.importSection
  funcs : m.funcs = plan.funcSection
  table : m.table = if plan.imports.hasFunctionTable then some plan.imports.tableFuncCount else none
  globals : m.globals = plan.globalSection
  exports : m.exports = plan.exportSection
  elements : m.elements = plan.elementSection
  codeCount : m.codes.count = plan.codeCount
  codes : ∃ bodies, List.Forall₂ (fun i body => plan.functionBody facts i = some body) plan.definedFunctions bodies ∧
    m.codes.entries = bodies ++ plan.supportBodies
  data : m.data = plan.dataRefs

theorem emitModule_emitted (emitted : plan.emitModule facts = some m) : plan.Emitted facts m := by
  simp only [emitModule, Option.bind_eq_bind, Option.pure_def, Option.bind_eq_some_iff, Option.some.injEq] at emitted
  obtain ⟨bodies, each, same⟩ := emitted
  rw [← same]
  exact ⟨rfl, rfl, rfl, rfl, rfl, rfl, rfl, rfl, ⟨bodies, forall₂_of_mapM each, rfl⟩, rfl⟩

theorem functionBody_owner {i : Nat} {body : Body} (made : plan.functionBody facts i = some body) :
    body.owner = .function i := by
  rw [functionBody] at made
  split at made
  · rw [← Option.some.inj made]
  · split at made
    · simp only [Option.bind_eq_bind, Option.pure_def, Option.bind_eq_some_iff, Option.some.injEq] at made
      obtain ⟨refs, _, same⟩ := made
      rw [← same]
    · cases made

theorem mem_supportBodies {body : Body} :
    body ∈ plan.supportBodies ↔ plan.imports.hasRootAllocThunk = true ∧ body = plan.rootAllocBody ∨
      plan.imports.hasWasmMinLogger = true ∧ body = plan.loggerBody ∨
      plan.entry.hasWrapper = true ∧ body = plan.wrapperBody := by
  simp only [supportBodies, List.mem_append, or_assoc]
  cases plan.imports.hasRootAllocThunk <;> cases plan.imports.hasWasmMinLogger <;> cases plan.entry.hasWrapper <;> simp

namespace Emitted

/-! ### The functions -/

/-- The functions that the imports give, in the order of their indices. -/
def importSlots (plan : ModulePlan) : List Slot :=
  plan.functionImports.map .imported ++ (if plan.imports.hasWasmMinLogger then [.consoleLog] else [])

/-- The functions that have bodies, in the order of their indices. -/
def bodySlots (plan : ModulePlan) : List Slot :=
  plan.definedFunctions.map (fun i => .body (.function i)) ++ plan.supportBodies.map (Slot.body ·.owner)

theorem importSlots_length (settled : plan.Settled) : (importSlots plan).length = plan.imports.importFuncCount := by
  rw [settled.importFuncCount, importSlots, List.length_append, List.length_map]
  cases plan.imports.hasWasmMinLogger <;> rfl

theorem import_slots : plan.importSection.entries.filterMap Import.slot? = importSlots plan := by
  have functions : ∀ entries : List LinkageEntry,
      (entries.map fun e => Import.function e (plan.sigTypeIndex e.functionIndex)).filterMap Import.slot?
        = entries.map .imported := by
    intro entries
    induction entries with
    | nil => rfl
    | cons e entries ih => simp only [List.map_cons, List.filterMap_cons, Import.slot?, ih]
  have globals : ∀ entries : List LinkageEntry, (entries.map Import.global).filterMap Import.slot? = [] := by
    intro entries
    induction entries with
    | nil => rfl
    | cons e entries ih => simp only [List.map_cons, List.filterMap_cons, Import.slot?, ih]
  simp only [importSection, List.filterMap_append, functions, globals, List.append_nil, importSlots]
  cases plan.importsMemory <;> cases plan.imports.hasWasmMinLogger <;> rfl

theorem body_slots {is : List Nat} {bodies : List Body}
    (each : List.Forall₂ (fun i body => plan.functionBody facts i = some body) is bodies) :
    bodies.map (Slot.body ·.owner) = is.map fun i => .body (.function i) := by
  induction each with
  | nil => rfl
  | cons made _ ih => rw [List.map_cons, List.map_cons, ih, functionBody_owner made]

theorem funcSpace (emitted : plan.Emitted facts m) : m.funcSpace = importSlots plan ++ bodySlots plan := by
  obtain ⟨bodies, each, codes⟩ := emitted.codes
  rw [Module.funcSpace, emitted.imports, import_slots, codes, List.map_append, body_slots each, bodySlots]

theorem funcSpace_import {k : Nat} {slot : Slot} (emitted : plan.Emitted facts m)
    (atIndex : (importSlots plan)[k]? = some slot) : m.funcSpace[k]? = some slot := by
  rw [emitted.funcSpace, List.getElem?_append_left (List.getElem?_eq_some_iff.mp atIndex).1, atIndex]

theorem funcSpace_body {k : Nat} (settled : plan.Settled) (emitted : plan.Emitted facts m) :
    m.funcSpace[plan.imports.importFuncCount + k]? = (bodySlots plan)[k]? := by
  rw [emitted.funcSpace, ← importSlots_length settled, List.getElem?_append_right (by omega)]
  congr
  omega

theorem funcSpace_support {k : Nat} (settled : plan.Settled) (emitted : plan.Emitted facts m) :
    m.funcSpace[plan.imports.importFuncCount + plan.imports.definedFuncCount + k]?
      = (plan.supportBodies[k]?).map (Slot.body ·.owner) := by
  rw [Nat.add_assoc, funcSpace_body settled emitted, bodySlots, settled.definedFuncCount,
    List.getElem?_append_right (by simp), List.length_map, Nat.add_sub_cancel_left, List.getElem?_map]

theorem funcSpace_rootAlloc (settled : plan.Settled) (emitted : plan.Emitted facts m)
    (thunk : plan.imports.hasRootAllocThunk = true) :
    ∃ k, plan.imports.rootAllocFuncIndex = some k ∧ m.funcSpace[k]? = some (.body .rootAlloc) := by
  refine ⟨_, by rw [settled.rootAllocFuncIndex, if_pos thunk], ?_⟩
  have first := @funcSpace_support _ _ _ 0 settled emitted
  rw [Nat.add_zero] at first
  rw [first, supportBodies, if_pos thunk]
  rfl

theorem funcSpace_logger (settled : plan.Settled) (emitted : plan.Emitted facts m)
    (logger : plan.imports.hasWasmMinLogger = true) :
    ∃ k, plan.imports.wasmMinLoggerFuncIndex = some k ∧ m.funcSpace[k]? = some (.body .logger) := by
  have thunk := settled.hasRootAllocThunk_of_logger logger
  refine ⟨_, by rw [settled.wasmMinLoggerFuncIndex, if_pos logger], ?_⟩
  rw [funcSpace_support settled emitted, supportBodies, if_pos thunk, if_pos logger, thunk]
  rfl

theorem funcSpace_consoleLog (settled : plan.Settled) (emitted : plan.Emitted facts m)
    (logger : plan.imports.hasWasmMinLogger = true) :
    ∃ k, plan.imports.wasmMinConsoleLogFuncIndex = some k ∧ m.funcSpace[k]? = some .consoleLog := by
  refine ⟨_, settled.wasmMinConsoleLogFuncIndex logger, emitted.funcSpace_import ?_⟩
  rw [importSlots, if_pos logger, List.getElem?_append_right (by simp)]
  simp

/-- What is at an index of a function of the program: an import or the body of it. -/
theorem funcSpace_function {i k : Nat} (settled : plan.Settled) (emitted : plan.Emitted facts m)
    (number : plan.imports.funcWasmIndices[i]? = some (some k)) :
    ∃ slot, m.funcSpace[k]? = some slot ∧ slot.Denotes (.function i) := by
  have marked : isMarked plan.imports.reachableFunctions i = true := by
    rw [settled.imports] at number
    exact CodegenUnit.isMarked_of_funcWasmIndices number
  have inside : i < plan.unit.funcLen := settled.kept.length ▸ isMarked_lt marked
  by_cases imported : i ∈ plan.functionImports.map LinkageEntry.functionIndex
  · obtain ⟨k', e, atIndex, same, number'⟩ :=
      CodegenUnit.funcWasmIndices_imported (c := plan.imports.importFuncCount) inside imported
    rw [settled.funcWasmIndices, number', Option.some.injEq, Option.some.injEq] at number
    refine ⟨.imported e, emitted.funcSpace_import ?_, same⟩
    rw [importSlots, ← number, List.getElem?_append_left, List.getElem?_map]
    · exact congrArg (Option.map Slot.imported) atIndex
    · rw [List.length_map]
      exact (List.getElem?_eq_some_iff.mp atIndex).1
  · have defined : i ∈ plan.definedFunctions := CodegenUnit.mem_definedFunctions.mpr ⟨inside, marked, imported⟩
    obtain ⟨k', atIndex, number'⟩ := CodegenUnit.funcWasmIndices_defined (c := plan.imports.importFuncCount) defined
    rw [settled.funcWasmIndices, number', Option.some.injEq, Option.some.injEq] at number
    refine ⟨.body (.function i), ?_, rfl⟩
    rw [← number, funcSpace_body settled emitted, bodySlots, List.getElem?_append_left, List.getElem?_map]
    · exact congrArg (Option.map _) atIndex
    · rw [List.length_map]
      exact (List.getElem?_eq_some_iff.mp atIndex).1

/-- Only a function that is kept is at an index. -/
theorem marked_of_denotes {i k : Nat} {slot : Slot} (emitted : plan.Emitted facts m)
    (atIndex : m.funcSpace[k]? = some slot) (denotes : slot.Denotes (.function i)) :
    isMarked plan.imports.reachableFunctions i = true := by
  have isIn := List.mem_of_getElem? atIndex
  rw [emitted.funcSpace] at isIn
  cases slot with
  | imported e =>
    have isImport : e ∈ plan.functionImports := by
      simpa [importSlots, bodySlots] using isIn
    rw [← (show e.functionIndex = i from denotes)]
    exact (CodegenUnit.mem_functionImports.mp isImport).2.2
  | consoleLog => exact denotes.elim
  | body owner =>
    rw [show owner = .function i from denotes] at isIn
    have defined : i ∈ plan.definedFunctions := by
      simp only [importSlots, bodySlots, List.mem_append, List.mem_map, Slot.body.injEq, FuncEntity.function.injEq,
        exists_eq_right] at isIn
      rcases isIn with (⟨_, _, none⟩ | none) | defined | ⟨body, isSupport, same⟩
      · cases none
      · split at none <;> simp at none
      · exact defined
      · rcases mem_supportBodies.mp isSupport with ⟨_, here⟩ | ⟨_, here⟩ | ⟨_, here⟩
        all_goals
          rw [here] at same
          cases same
    exact (CodegenUnit.mem_definedFunctions.mp defined).2.1

/-- The root allocator is at an index only where there is one. -/
theorem thunk_of_denotes {k : Nat} {slot : Slot} (emitted : plan.Emitted facts m)
    (atIndex : m.funcSpace[k]? = some slot) (denotes : slot.Denotes .rootAlloc) :
    plan.imports.hasRootAllocThunk = true := by
  have isIn := List.mem_of_getElem? atIndex
  rw [emitted.funcSpace] at isIn
  cases slot with
  | imported e => exact denotes.elim
  | consoleLog => exact denotes.elim
  | body owner =>
    rw [show owner = .rootAlloc from denotes] at isIn
    simp only [importSlots, bodySlots, List.mem_append, List.mem_map, Slot.body.injEq] at isIn
    rcases isIn with (⟨_, _, none⟩ | none) | ⟨_, _, none⟩ | ⟨body, isSupport, same⟩
    · cases none
    · split at none <;> simp at none
    · cases none
    · rcases mem_supportBodies.mp isSupport with ⟨thunk, _⟩ | ⟨_, here⟩ | ⟨_, here⟩
      · exact thunk
      all_goals
        rw [here] at same
        cases same

/-- A function that is kept has an index, and it is at that index. -/
theorem resolves_funcRef {i : Nat} (settled : plan.Settled) (emitted : plan.Emitted facts m)
    (marked : isMarked plan.imports.reachableFunctions i = true) : m.Resolves (plan.funcRef i) := by
  obtain ⟨k, number⟩ := settled.exists_index marked
  obtain ⟨slot, atIndex, denotes⟩ := funcSpace_function settled emitted number
  rw [funcRef, number]
  exact ⟨k, slot, rfl, atIndex, denotes⟩

/-! ### The types -/

theorem sigs_length (settled : plan.Settled) : plan.sigs.length = plan.funcLen := by
  obtain ⟨ownSigs, _, length, adjusted⟩ := settled.sigs
  rw [adjusted, ImportLayout.adjustSigs, ← length]
  split
  · rw [List.length_map]
  · rfl

theorem typeSection_sig {k : Nat} {sig : FnSig} (atIndex : plan.sigs[k]? = some sig) :
    plan.typeSection.entries[k]? = some sig.funcType := by
  have inside := (List.getElem?_eq_some_iff.mp atIndex).1
  simp only [typeSection, List.append_assoc]
  rw [List.getElem?_append_left (by rw [List.length_map]; exact inside), List.getElem?_map, atIndex]
  rfl

theorem typeSection_allocator (settled : plan.Settled) (table : plan.imports.hasFunctionTable = true) :
    plan.typeSection.entries[plan.funcLen]? = some allocatorType := by
  simp only [typeSection, List.append_assoc]
  rw [List.getElem?_append_right (by rw [List.length_map, sigs_length settled]), List.length_map, sigs_length settled,
    Nat.sub_self, if_pos table]
  rfl

theorem typeSection_logger (settled : plan.Settled) (logger : plan.imports.hasWasmMinLogger = true) :
    plan.typeSection.entries[plan.funcLen + 1]? = some loggerType ∧
      plan.typeSection.entries[plan.funcLen + 2]? = some consoleLogType := by
  have table := settled.hasFunctionTable_of_thunk (settled.hasRootAllocThunk_of_logger logger)
  have length : (plan.sigs.map FnSig.funcType).length = plan.funcLen := by rw [List.length_map, sigs_length settled]
  simp only [typeSection, List.append_assoc, if_pos table, if_pos logger]
  constructor
  · rw [List.getElem?_append_right (by omega), length, Nat.add_sub_cancel_left]
    rfl
  · rw [List.getElem?_append_right (by omega), length, Nat.add_sub_cancel_left]
    rfl

theorem typeSection_wrapper (settled : plan.Settled) (wrapper : plan.entry.hasWrapper = true) :
    plan.typeSection.entries[plan.funcLen + count plan.imports.hasFunctionTable
      + (if plan.imports.hasWasmMinLogger then 2 else 0)]? = some wrapperType := by
  have length : (plan.sigs.map FnSig.funcType).length = plan.funcLen := by rw [List.length_map, sigs_length settled]
  simp only [typeSection, List.append_assoc, if_pos wrapper]
  rw [List.getElem?_append_right (by omega), length, Nat.add_assoc, Nat.add_sub_cancel_left]
  cases plan.imports.hasFunctionTable <;> cases plan.imports.hasWasmMinLogger <;> rfl

/-- The index of a signature, also of one that takes the type of an allocator, is that of a type with its values. -/
theorem typeSection_typeIndex {sig : FnSig} (settled : plan.Settled) (isIn : sig ∈ plan.sigs) :
    plan.typeSection.entries[sig.typeIndex]? = some sig.funcType := by
  obtain ⟨ownSigs, shared, length, adjusted⟩ := settled.sigs
  cases table : plan.imports.hasFunctionTable with
  | false =>
    have own : plan.sigs = ownSigs := by rw [adjusted, ImportLayout.adjustSigs, table]
    rw [own] at isIn
    obtain ⟨sig', atIndex, same⟩ := shared sig isIn
    rw [typeSection_sig (own ▸ atIndex), same]
  | true =>
    have index := settled.allocatorIndirectTypeIndex table
    have own : plan.sigs = ownSigs.map fun sig =>
        if sig.matchesAllocatorIndirect then { sig with typeIndex := plan.funcLen } else sig := by
      rw [adjusted, ImportLayout.adjustSigs, table, index]
    rw [own, List.mem_map] at isIn
    obtain ⟨ownSig, isOwn, same⟩ := isIn
    split at same
    · rename_i matched
      simp only [FnSig.matchesAllocatorIndirect, decide_eq_true_eq] at matched
      rw [← same]
      simp only [FnSig.funcType, matched]
      exact typeSection_allocator settled table
    · obtain ⟨sig', atIndex, sameType⟩ := shared ownSig isOwn
      have atIndex' : ∃ sig'', plan.sigs[ownSig.typeIndex]? = some sig'' ∧ sig''.funcType = sig'.funcType := by
        rw [own, List.getElem?_map, atIndex]
        refine ⟨_, rfl, ?_⟩
        simp only
        split <;> rfl
      obtain ⟨sig'', atIndex', sameType'⟩ := atIndex'
      rw [← same, typeSection_sig atIndex', sameType', sameType]

/-! ### The globals -/

theorem globalSpace (emitted : plan.Emitted facts m) :
    m.globalSpace = plan.globalImports.map (.imported ·.functionIndex) ++ plan.globalSection.entries := by
  have functions : ∀ entries : List LinkageEntry,
      (entries.map fun e => Import.function e (plan.sigTypeIndex e.functionIndex)).filterMap Import.global? = [] := by
    intro entries
    induction entries with
    | nil => rfl
    | cons e entries ih => simp only [List.map_cons, List.filterMap_cons, Import.global?, ih]
  have globals : ∀ entries : List LinkageEntry,
      (entries.map Import.global).filterMap Import.global? = entries.map (.imported ·.functionIndex) := by
    intro entries
    induction entries with
    | nil => rfl
    | cons e entries ih => simp only [List.map_cons, List.filterMap_cons, Import.global?, ih]
  rw [Module.globalSpace, emitted.imports, emitted.globals]
  simp only [importSection, List.filterMap_append, functions, globals]
  cases plan.importsMemory <;> cases plan.imports.hasWasmMinLogger <;> rfl

/-- The index of an imported global is that of an import of it. -/
theorem globalSpace_imported {i index : Nat} (settled : plan.Settled) (emitted : plan.Emitted facts m)
    (number : (plan.imports.globalImportIndices[i]?).getD none = some index) :
    m.globalSpace[index]? = some (.imported i) := by
  have number' : (numberLast 0 (List.replicate plan.unit.funcLen none)
      (plan.globalImports.map LinkageEntry.functionIndex))[i]?.getD none = some index := by
    rw [settled.imports] at number
    exact number
  by_cases imported : i ∈ plan.globalImports.map LinkageEntry.functionIndex
  · by_cases inside : i < plan.unit.funcLen
    · obtain ⟨k, atPlace, atIndex⟩ :=
        @numberLast_of_mem 0 (List.replicate plan.unit.funcLen none) _ _ imported (by simpa using inside)
      rw [atIndex, Option.getD_some, Nat.zero_add, Option.some.injEq] at number'
      rw [emitted.globalSpace, ← number', List.getElem?_append_left]
      · rw [List.getElem?_map] at atPlace ⊢
        obtain ⟨e, atEntry, same⟩ := Option.map_eq_some_iff.mp atPlace
        rw [atEntry, Option.map_some, same]
      · have short := (List.getElem?_eq_some_iff.mp atPlace).1
        rwa [List.length_map] at short ⊢
    · rw [List.getElem?_eq_none (by rw [numberLast_length, List.length_replicate]; omega)] at number'
      cases number'
  · rw [numberLast_of_notMem imported, List.getElem?_replicate] at number'
    split at number' <;> cases number'

theorem globalSpace_frame (settled : plan.Settled) (emitted : plan.Emitted facts m)
    (frame : plan.imports.needsFrameGlobal = true) :
    m.globalSpace[plan.imports.frameGlobalIndex]? = some .frame := by
  rw [emitted.globalSpace, settled.frameGlobalIndex, List.getElem?_append_right (by simp), List.length_map,
    Nat.sub_self]
  simp only [globalSection, List.append_assoc, if_pos frame]
  rfl

theorem globalSpace_heap (settled : plan.Settled) (emitted : plan.Emitted facts m)
    (heap : plan.imports.needsHeapGlobal = true) :
    m.globalSpace[plan.imports.heapGlobalIndex]? = some .heap := by
  rw [emitted.globalSpace, settled.heapGlobalIndex, List.getElem?_append_right (by simp), List.length_map,
    Nat.add_sub_cancel_left]
  simp only [globalSection, List.append_assoc, if_pos heap]
  cases plan.imports.needsFrameGlobal <;> rfl

theorem globalSpace_closure {i : Nat} (settled : plan.Settled) (emitted : plan.Emitted facts m)
    (inside : i < plan.imports.closureGlobalCount) : m.Resolves (plan.closureRef i) := by
  have there : (List.map GlobalEntity.closure (List.range plan.imports.closureGlobalCount))[i]? = some (.closure i) := by
    rw [List.getElem?_map, List.getElem?_range inside]
    rfl
  have index : plan.imports.closureGlobalStartIndex + i = plan.globalImports.length
      + (count plan.imports.needsFrameGlobal + (count plan.imports.needsHeapGlobal + i)) := by
    rw [settled.closureGlobalStartIndex]
    omega
  rw [closureRef, Module.Resolves, emitted.globalSpace, index, List.getElem?_append_right (by simp), List.length_map,
    Nat.add_sub_cancel_left]
  simp only [globalSection, List.append_assoc]
  cases plan.imports.needsFrameGlobal <;> cases plan.imports.needsHeapGlobal <;> simpa [count, Nat.add_comm 1] using there

/-- There are globals for closures only where the program has closures. -/
theorem closures_of_closureRef {i : Nat} (settled : plan.Settled) (emitted : plan.Emitted facts m)
    (there : m.Resolves (plan.closureRef i)) : plan.unit.programNeedsClosureGlobals = true := by
  have isIn := List.mem_of_getElem? (show m.globalSpace[_]? = some (.closure i) from there)
  rw [emitted.globalSpace, globalSection] at isIn
  by_contra none
  rw [settled.closureGlobalCount, if_neg none] at isIn
  cases plan.imports.needsFrameGlobal <;> cases plan.imports.needsHeapGlobal <;> simp at isIn

end Emitted

end ModulePlan

end Wasm

end HopHop
