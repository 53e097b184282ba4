import HopHop.WasmRegions
import HopHop.WasmSpaces

namespace HopHop.Wasm

namespace ModulePlan

variable {plan : ModulePlan} {facts : StackFacts} {m : Module}

/-! ### The functions that are kept -/

theorem mem_insts_of_code {unit : CodegenUnit} {i : Nat} {inst : MirInst} (isIn : inst ∈ unit.code i) :
    inst ∈ unit.mirProgram.insts := by
  rw [CodegenUnit.code] at isIn
  cases fn : unit.mirProgram.funcs[i]? with
  | none =>
    rw [fn] at isIn
    cases isIn
  | some fn' =>
    rw [fn] at isIn
    exact List.mem_of_mem_drop (List.mem_of_mem_take isIn)

/-- What is known of the entry: it is a main function, and the wrapper comes behind all other types and functions. -/
theorem planEntryLayout_spec {unit : CodegenUnit} {sigs : List FnSig} {imports : ImportLayout}
    {strings : StringLayout} {entry : EntryLayout} (planned : unit.planEntryLayout sigs imports strings = .ok entry) :
    (∀ i, entry.mainFuncIndex = some i → i ∈ unit.roots ∧ i < unit.funcLen) ∧
      (entry.hasWrapper = true →
        entry.wrapperTypeIndex =
          some (unit.funcLen + count imports.hasFunctionTable + (if imports.hasWasmMinLogger then 2 else 0)) ∧
        entry.wrapperFuncIndex =
          some (imports.importFuncCount + imports.definedFuncCount + count imports.hasRootAllocThunk
            + count imports.hasWasmMinLogger)) := by
  rw [CodegenUnit.planEntryLayout] at planned
  cases found : (List.range unit.funcLen).find? unit.isMain with
  | none =>
    simp only [found, Except.ok.injEq] at planned
    rw [← planned]
    simp [EntryLayout.none]
  | some i =>
    have inside : i < unit.funcLen := List.mem_range.mp (List.mem_of_find?_eq_some found)
    have root : i ∈ unit.roots := by
      rw [CodegenUnit.roots, List.mem_append, List.mem_filter]
      exact .inl ⟨List.mem_range.mpr inside, List.find?_some found⟩
    simp only [found] at planned
    split at planned
    · split at planned
      · rw [← Except.ok.inj planned]
        refine ⟨fun j same => ?_, fun wrapper => by cases wrapper⟩
        rw [← Option.some.inj same]
        exact ⟨root, inside⟩
      · split at planned
        · cases planned
        · rw [← Except.ok.inj planned]
          refine ⟨fun j same => ?_, fun _ => ⟨rfl, rfl⟩⟩
          rw [← Option.some.inj same]
          exact ⟨root, inside⟩
    · rw [← Except.ok.inj planned]
      simp [EntryLayout.none]

theorem kept_of_hasInst {unit : CodegenUnit} {reachable : List Bool} {wanted : MirInst → Bool}
    (has : unit.hasInst reachable wanted = true) : ∃ i, isMarked reachable i = true := by
  rw [CodegenUnit.hasInst, List.any_eq_true] at has
  obtain ⟨i, _, both⟩ := has
  rw [Bool.and_eq_true] at both
  exact ⟨i, both.1⟩

/-- A context is laid out where the program needs one. -/
theorem rootContext_isSome {unit : CodegenUnit} {imports : ImportLayout} {strings : StringLayout}
    (built : unit.buildStringLayout imports = some strings) :
    strings.rootContext.isSome = unit.programNeedsRootContext imports.reachableFunctions := by
  simp only [CodegenUnit.buildStringLayout, Option.bind_eq_bind, Option.bind_eq_some_iff, Option.pure_def,
    Option.some.injEq, Prod.exists] at built
  obtain ⟨_, len, _, rootContext, _, context_, _, _, _, _, _, _, _, _, _, same⟩ := built
  rw [← same]
  rw [CodegenUnit.layoutRootContext] at context_
  split at context_
  · rename_i needed
    simp only [Option.map_eq_some_iff, Prod.mk.injEq] at context_
    obtain ⟨_, _, made, _⟩ := context_
    rw [needed, ← made]
    rfl
  · rename_i notNeeded
    rw [Option.some.injEq, Prod.mk.injEq] at context_
    rw [Bool.not_eq_true] at notNeeded
    rw [notNeeded, ← context_.1]
    rfl

namespace Settled

/-- The context that the program starts with has an allocator, unless it is there for a logger only. -/
theorem context_thunk_iff (settled : plan.Settled) :
    (plan.strings.rootContext.isSome = true → plan.imports.hasRootAllocThunk = true) ↔
      (plan.unit.programNeedsRootLogger plan.unit.reachableFunctions = true →
        plan.unit.programNeedsRootAllocator plan.unit.reachableFunctions = true ∨
          plan.unit.isWasmMinPlatform = true) := by
  rw [settled.hasRootAllocThunk_iff, rootContext_isSome settled.strings, settled.reachable,
    CodegenUnit.programNeedsRootContext, Bool.or_eq_true]
  constructor
  · intro thunk logger
    exact (thunk (.inr logger)).imp_right And.left
  · intro allocator needed
    by_cases alloc : plan.unit.programNeedsRootAllocator plan.unit.reachableFunctions = true
    · exact .inl alloc
    · have logger := needed.resolve_left alloc
      exact .inr ⟨(allocator logger).resolve_left alloc, logger⟩

/-- The functions whose instructions are emitted are those that are defined and no imported globals. -/
theorem mem_writtenFunctions {i : Nat} (settled : plan.Settled) :
    i ∈ plan.unit.writtenFunctions ↔
      i ∈ plan.definedFunctions ∧ (plan.imports.globalImportIndices[i]?).getD none = none := by
  rw [CodegenUnit.writtenFunctions, List.mem_filter, definedFunctions, settled.reachable, decide_eq_true_eq]
  refine and_congr_right fun defined => ?_
  have inside : i < plan.unit.funcLen := (CodegenUnit.mem_definedFunctions.mp defined).1
  have indices : plan.imports.globalImportIndices = plan.unit.globalImportIndices plan.unit.reachableFunctions := by
    rw [settled.imports, settled.reachable]
    rfl
  rw [indices, CodegenUnit.globalImportIndices]
  by_cases imported : i ∈ (plan.unit.globalImports plan.unit.reachableFunctions).map LinkageEntry.functionIndex
  · obtain ⟨k, _, number⟩ :=
      @numberLast_of_mem 0 (List.replicate plan.unit.funcLen none) _ _ imported (by simpa using inside)
    rw [number]
    simp [imported]
  · rw [numberLast_of_notMem imported]
    simp [imported, inside]

theorem index_of_getD {i k : Nat} (number : (plan.imports.funcWasmIndices[i]?).getD none = some k) :
    plan.imports.funcWasmIndices[i]? = some (some k) := by
  rwa [Option.getD_eq_iff, or_iff_left (by simp)] at number

theorem marked_of_index {i k : Nat} (settled : plan.Settled)
    (number : (plan.imports.funcWasmIndices[i]?).getD none = some k) :
    isMarked plan.imports.reachableFunctions i = true := by
  have number' := index_of_getD number
  rw [settled.funcWasmIndices] at number'
  exact CodegenUnit.isMarked_of_funcWasmIndices number'

theorem hasFunctionTable_cases (settled : plan.Settled) (table : plan.imports.hasFunctionTable = true) :
    plan.imports.hasRootAllocThunk = true ∨ plan.unit.programNeedsFunctionTable = true := by
  by_cases thunk : plan.imports.hasRootAllocThunk = true
  · exact .inl thunk
  have logger : plan.imports.hasWasmMinLogger ≠ true := fun logger => thunk (settled.hasRootAllocThunk_of_logger logger)
  rw [settled.imports] at table thunk logger
  simp only [CodegenUnit.importLayout] at table thunk logger
  rw [Bool.or_eq_true, Bool.or_eq_true] at table
  rcases table with (table | table) | table
  · exact absurd table thunk
  · exact absurd table logger
  · exact .inr table

theorem functionTable_of_functionConst {const : UInt32} {target : Nat} (settled : plan.Settled)
    (isTarget : plan.unit.functionConst const = some target) : plan.imports.hasFunctionTable = true := by
  apply settled.functionTableOf
  rw [CodegenUnit.programNeedsFunctionTable, Bool.or_eq_true, List.any_eq_true]
  rw [CodegenUnit.functionConst, Option.map_eq_some_iff] at isTarget
  obtain ⟨const', found, _⟩ := isTarget
  rw [Option.filter_eq_some_iff] at found
  exact .inl ⟨const', List.mem_of_getElem? found.1, found.2⟩

/-- What a function with a body calls or takes the value of is kept. -/
theorem callee_marked {i j : Nat} (settled : plan.Settled) (defined : i ∈ plan.definedFunctions)
    (isCallee : j ∈ plan.unit.callees i) (inside : j < plan.funcLen) :
    isMarked plan.imports.reachableFunctions j = true := by
  obtain ⟨_, marked, notImported⟩ := CodegenUnit.mem_definedFunctions.mp defined
  rcases settled.kept.closed i marked with ⟨e, isPanic, same⟩ | closed
  · simp only [CodegenUnit.panicImports, List.mem_filter, decide_eq_true_eq] at isPanic
    refine absurd (List.mem_map.mpr ⟨e, ?_, same⟩) notImported
    exact CodegenUnit.mem_functionImports.mpr ⟨isPanic.1, isPanic.2.1, same ▸ marked⟩
  · exact closed j isCallee (settled.kept.length ▸ inside)

theorem root_marked {i : Nat} (settled : plan.Settled) (isRoot : i ∈ plan.unit.roots) (inside : i < plan.funcLen) :
    isMarked plan.imports.reachableFunctions i = true := settled.kept.roots i isRoot inside

theorem mainFuncIndex_marked {i : Nat} (settled : plan.Settled) (isMain : plan.entry.mainFuncIndex = some i) :
    isMarked plan.imports.reachableFunctions i = true := by
  obtain ⟨root, inside⟩ := (planEntryLayout_spec settled.entry).1 i isMain
  exact settled.root_marked root inside

/-- A program that needs the root allocator has an instruction that needs it, and so a function that is kept. -/
theorem kept_of_thunk (settled : plan.Settled) (thunk : plan.imports.hasRootAllocThunk = true) :
    ∃ i, isMarked plan.imports.reachableFunctions i = true := by
  rw [settled.imports] at thunk
  simp only [CodegenUnit.importLayout, Bool.or_eq_true, Bool.and_eq_true] at thunk
  rcases thunk with alloc | logger
  · exact kept_of_hasInst alloc
  · exact kept_of_hasInst logger.2

end Settled

namespace Emitted

theorem funcSpace_wrapper (settled : plan.Settled) (emitted : plan.Emitted facts m)
    (wrapper : plan.entry.hasWrapper = true) :
    ∃ k, plan.entry.wrapperFuncIndex = some k ∧ m.funcSpace[k]? = some (.body .wrapper) := by
  refine ⟨_, ((planEntryLayout_spec settled.entry).2 wrapper).2, ?_⟩
  rw [Nat.add_assoc _ (count plan.imports.hasRootAllocThunk), funcSpace_support settled emitted, supportBodies,
    if_pos wrapper]
  cases plan.imports.hasRootAllocThunk <;> cases plan.imports.hasWasmMinLogger <;> rfl

/-! ### The table -/

/-- The index that stands in the table for functions that are not kept is one of a function, if there is any. -/
theorem fillIndex_there (settled : plan.Settled) (emitted : plan.Emitted facts m)
    (kept : ∃ i, isMarked plan.imports.reachableFunctions i = true) :
    ∃ k, plan.fillIndex = some k ∧ k < m.funcSpace.length := by
  rw [fillIndex]
  split
  · rename_i logger
    obtain ⟨k, index, atIndex⟩ := funcSpace_logger settled emitted logger
    exact ⟨k, index, (List.getElem?_eq_some_iff.mp atIndex).1⟩
  split
  · rename_i thunk
    obtain ⟨k, index, atIndex⟩ := funcSpace_rootAlloc settled emitted thunk
    exact ⟨k, index, (List.getElem?_eq_some_iff.mp atIndex).1⟩
  obtain ⟨i, marked⟩ := kept
  obtain ⟨k, number⟩ := settled.exists_index marked
  cases first : (plan.imports.funcWasmIndices.filterMap id).head? with
  | none =>
    have isIn : k ∈ plan.imports.funcWasmIndices.filterMap id :=
      List.mem_filterMap.mpr ⟨some k, List.mem_of_getElem? number, rfl⟩
    rw [List.head?_eq_none_iff.mp first] at isIn
    cases isIn
  | some k' =>
    obtain ⟨_, isIn, same⟩ := List.mem_filterMap.mp (List.mem_of_mem_head? first)
    rw [id_eq] at same
    rw [same] at isIn
    obtain ⟨j, atPlace⟩ := List.getElem?_of_mem isIn
    obtain ⟨slot, atIndex, _⟩ := funcSpace_function settled emitted atPlace
    exact ⟨k', rfl, (List.getElem?_eq_some_iff.mp atIndex).1⟩

/-- Conversely a function is kept if there is such an index. -/
theorem kept_of_fillIndex {k : Nat} (settled : plan.Settled) (filled : plan.fillIndex = some k) :
    ∃ i, isMarked plan.imports.reachableFunctions i = true := by
  rw [fillIndex] at filled
  split at filled
  · rename_i logger
    exact settled.kept_of_thunk (settled.hasRootAllocThunk_of_logger logger)
  split at filled
  · rename_i thunk
    exact settled.kept_of_thunk thunk
  obtain ⟨_, isIn, same⟩ := List.mem_filterMap.mp (List.mem_of_mem_head? filled)
  rw [id_eq] at same
  rw [same] at isIn
  obtain ⟨j, atPlace⟩ := List.getElem?_of_mem isIn
  rw [settled.funcWasmIndices] at atPlace
  exact ⟨j, CodegenUnit.isMarked_of_funcWasmIndices atPlace⟩

theorem element_function {i : Nat} (emitted : plan.Emitted facts m) (table : plan.imports.hasFunctionTable = true)
    (inside : i < plan.funcLen) : m.elements.entries[i]? = some (plan.elementIndex i) := by
  rw [emitted.elements, elementSection]
  simp only [if_pos table, List.append_assoc]
  rw [List.getElem?_append_left (by simpa using inside), List.getElem?_map, List.getElem?_range inside]
  rfl

theorem element_rootAlloc (settled : plan.Settled) (emitted : plan.Emitted facts m)
    (thunk : plan.imports.hasRootAllocThunk = true) : m.Resolves (.table plan.funcLen .rootAlloc) := by
  obtain ⟨k, index, atIndex⟩ := funcSpace_rootAlloc settled emitted thunk
  refine ⟨k, _, ?_, atIndex, rfl⟩
  rw [emitted.elements, elementSection]
  simp only [if_pos (settled.hasFunctionTable_of_thunk thunk), if_pos thunk, List.append_assoc]
  rw [List.getElem?_append_right (by simp), List.length_map, List.length_range, Nat.sub_self, ← index]
  rfl

theorem element_logger (settled : plan.Settled) (emitted : plan.Emitted facts m)
    (logger : plan.imports.hasWasmMinLogger = true) : m.Resolves (.table (plan.funcLen + 1) .logger) := by
  have thunk := settled.hasRootAllocThunk_of_logger logger
  obtain ⟨k, index, atIndex⟩ := funcSpace_logger settled emitted logger
  refine ⟨k, _, ?_, atIndex, rfl⟩
  rw [emitted.elements, elementSection]
  simp only [if_pos (settled.hasFunctionTable_of_thunk thunk), if_pos thunk, if_pos logger, List.append_assoc]
  rw [List.getElem?_append_right (by simp), List.length_map, List.length_range, Nat.add_sub_cancel_left, ← index]
  rfl

/-- A table index is one of the function that it is meant for exactly if that function is kept. -/
theorem resolves_table_iff {i : Nat} (settled : plan.Settled) (emitted : plan.Emitted facts m)
    (table : plan.imports.hasFunctionTable = true) (inside : i < plan.funcLen) :
    m.Resolves (.table i (.function i)) ↔ isMarked plan.imports.reachableFunctions i = true := by
  constructor
  · rintro ⟨k, slot, _, atIndex, denotes⟩
    exact emitted.marked_of_denotes atIndex denotes
  · intro marked
    obtain ⟨k, number⟩ := settled.exists_index marked
    obtain ⟨slot, atIndex, denotes⟩ := funcSpace_function settled emitted number
    refine ⟨k, slot, ?_, atIndex, denotes⟩
    rw [emitted.element_function table inside, elementIndex, number]
    rfl

/-! ### Types, panics and allocations -/

theorem resolves_sig {i : Nat} {sig : FnSig} (settled : plan.Settled) (emitted : plan.Emitted facts m)
    (atIndex : plan.sigs[i]? = some sig) : m.Resolves (.type sig.typeIndex sig.funcType) := by
  refine ⟨_, rfl, ?_⟩
  rw [emitted.types]
  exact typeSection_typeIndex settled (List.mem_of_getElem? atIndex)

theorem resolves_allocatorType (settled : plan.Settled) (emitted : plan.Emitted facts m)
    (table : plan.imports.hasFunctionTable = true) :
    m.Resolves (.type plan.imports.allocatorIndirectTypeIndex allocatorType) := by
  refine ⟨_, settled.allocatorIndirectTypeIndex table, ?_⟩
  rw [emitted.types]
  exact typeSection_allocator settled table

theorem resolves_loggerType (settled : plan.Settled) (emitted : plan.Emitted facts m)
    (logger : plan.imports.hasWasmMinLogger = true) :
    m.Resolves (.type plan.imports.loggerIndirectTypeIndex loggerType) := by
  have table := settled.hasFunctionTable_of_thunk (settled.hasRootAllocThunk_of_logger logger)
  refine ⟨_, settled.loggerIndirectTypeIndex table, ?_⟩
  rw [emitted.types]
  exact (typeSection_logger settled logger).1

theorem resolves_consoleLogType (settled : plan.Settled) (emitted : plan.Emitted facts m)
    (logger : plan.imports.hasWasmMinLogger = true) :
    m.Resolves (.type plan.imports.wasmMinConsoleLogTypeIndex consoleLogType) := by
  have table := settled.hasFunctionTable_of_thunk (settled.hasRootAllocThunk_of_logger logger)
  refine ⟨_, settled.wasmMinConsoleLogTypeIndex table, ?_⟩
  rw [emitted.types, logger]
  exact (typeSection_logger settled logger).2

theorem resolves_panicRefs {message : Option StringRef} (settled : plan.Settled) (emitted : plan.Emitted facts m) :
    ∀ ref ∈ plan.panicRefs message, m.Resolves ref := by
  intro ref isIn
  rw [panicRefs] at isIn
  split at isIn
  · rename_i panics
    have has : (plan.unit.functionImports plan.imports.reachableFunctions).any LinkageEntry.platformPanic = true := by
      have has := panics.1
      rw [settled.imports] at has
      exact has
    obtain ⟨k, e, index, atPlace, isPanic⟩ := CodegenUnit.platformPanicFuncIndex_spec has
    rw [List.mem_singleton] at isIn
    rw [isIn]
    refine ⟨k, .imported e, ?_, emitted.funcSpace_import ?_, isPanic⟩
    · rw [settled.imports]
      exact index
    · rw [importSlots, List.getElem?_append_left, List.getElem?_map]
      · exact congrArg (Option.map Slot.imported) atPlace
      · rw [List.length_map]
        exact (List.getElem?_eq_some_iff.mp atPlace).1
  · cases isIn

/-! ### The instructions -/

theorem forall_singleton {p : Ref → Prop} {ref : Ref} : (∀ r ∈ [ref], p r) ↔ p ref := by simp

/-- The indices of an allocation. -/
theorem allocRefs_resolve {i : Nat} {inst : MirInst} {refs : List Ref} (settled : plan.Settled)
    (emitted : plan.Emitted facts m) (isIn : inst ∈ plan.unit.code i) (isAlloc : inst.op = .ALLOC_NEW)
    (made : plan.allocRefs inst = some refs) :
    (∀ ref ∈ refs, m.Resolves ref) ↔ CodegenUnit.hasExplicitAllocator inst = true ∨
      (plan.strings.rootContext.isSome = true → plan.imports.hasRootAllocThunk = true) := by
  rw [allocRefs] at made
  split at made
  · cases made
  rename_i heap
  rw [Bool.not_eq_false] at heap
  by_cases explicit : CodegenUnit.hasExplicitAllocator inst = true
  · have table : plan.imports.hasFunctionTable = true := by
      apply settled.functionTableOf
      rw [CodegenUnit.programNeedsFunctionTable, Bool.or_eq_true]
      exact .inr (List.any_eq_true.mpr ⟨inst, mem_insts_of_code isIn, by simp [isAlloc, explicit]⟩)
    rw [if_pos explicit] at made
    rw [← Option.some.inj made]
    refine iff_of_true ?_ (.inl explicit)
    intro ref isRef
    rcases List.mem_cons.mp isRef with here | panic
    · rw [here]
      exact resolves_allocatorType settled emitted table
    · rcases List.mem_append.mp panic with panic | panic
      · exact resolves_panicRefs settled emitted ref panic
      · exact resolves_panicRefs settled emitted ref panic
  rw [if_neg explicit] at made
  cases context : plan.strings.rootContext with
  | none =>
    rw [context] at made
    rw [← Option.some.inj made]
    refine iff_of_true ?_ (.inr fun none => by cases none)
    rw [forall_singleton]
    exact globalSpace_heap settled emitted heap
  | some context' =>
    rw [context] at made
    rw [← Option.some.inj made]
    constructor
    · intro resolve
      have handler : m.Resolves (.table context'.allocHandler .rootAlloc) := resolve _ (by simp)
      obtain ⟨k, slot, _, atIndex, denotes⟩ := handler
      exact .inr fun _ => emitted.thunk_of_denotes atIndex denotes
    · intro allocator
      have thunk := (allocator.resolve_left explicit) rfl
      intro ref isRef
      rcases List.mem_cons.mp isRef with here | isRef
      · rw [here]
        exact resolves_allocatorType settled emitted (settled.hasFunctionTable_of_thunk thunk)
      rcases List.mem_cons.mp isRef with here | panic
      · rw [here, settled.allocHandler thunk context]
        exact element_rootAlloc settled emitted thunk
      · rcases List.mem_append.mp panic with panic | panic
        · exact resolves_panicRefs settled emitted ref panic
        · exact resolves_panicRefs settled emitted ref panic

theorem indirectRefs_resolve {call : IndirectCall} {refs : List Ref} (settled : plan.Settled)
    (emitted : plan.Emitted facts m) (table : plan.imports.hasFunctionTable = true)
    (made : plan.indirectRefs call = some refs) : ∀ ref ∈ refs, m.Resolves ref := by
  cases call with
  | known i =>
    simp only [indirectRefs] at made
    split at made
    · rename_i sig fn atIndex atFn
      have type := resolves_sig settled emitted atIndex
      split at made
      · cases made
      · split at made
        · split at made
          · cases made
          · rename_i inside
            rw [← Option.some.inj made]
            intro ref isIn
            rcases List.mem_cons.mp isIn with here | isIn
            · rw [here]
              exact globalSpace_closure settled emitted (by omega)
            · rw [List.mem_singleton.mp isIn]
              exact type
        · rw [← Option.some.inj made, forall_singleton]
          exact type
    · cases made
  | logger =>
    simp only [indirectRefs] at made
    split at made
    · rename_i logger
      rw [← Option.some.inj made, forall_singleton]
      exact resolves_loggerType settled emitted logger
    · cases made
  | allocator =>
    simp only [indirectRefs] at made
    rw [← Option.some.inj made, forall_singleton]
    exact resolves_allocatorType settled emitted table

/-- The global of a capture is there exactly if the program has captures. -/
theorem captureRef_resolves {i : Nat} {inst : MirInst} (settled : plan.Settled) (emitted : plan.Emitted facts m)
    (defined : i ∈ plan.definedFunctions) (op : inst.op = .CAPTURE_LOAD ∨ inst.op = .CAPTURE_STORE) :
    m.Resolves (plan.closureRef i) ↔ plan.unit.InstCoherent inst := by
  constructor
  · intro there
    have needed := closures_of_closureRef settled emitted there
    rcases op with op | op
    · exact ⟨fun is => by simp [op] at is, fun _ => needed, fun is => by simp [op] at is⟩
    · exact ⟨fun is => by simp [op] at is, fun _ => needed, fun is => by simp [op] at is⟩
  · intro coherent
    apply globalSpace_closure settled emitted
    rw [settled.closureGlobalCount, if_pos (coherent.capture op)]
    exact (CodegenUnit.mem_definedFunctions.mp defined).1

/-- The indices that an instruction of a function with a body is emitted with are right exactly if it has what it
needs. -/
theorem instRefs_resolve {i pc : Nat} {inst : MirInst} {refs : List Ref} (settled : plan.Settled)
    (emitted : plan.Emitted facts m) (defined : i ∈ plan.definedFunctions) (isIn : inst ∈ plan.unit.code i)
    (made : plan.instRefs facts i pc inst = some refs) :
    (∀ ref ∈ refs, m.Resolves ref) ↔ plan.unit.InstCoherent inst := by
  have callee : ∀ j, plan.unit.callee inst = some j → j < plan.funcLen →
      isMarked plan.imports.reachableFunctions j = true :=
    fun j isCallee => settled.callee_marked defined (List.mem_filterMap.mpr ⟨inst, isIn, isCallee⟩)
  -- An instruction of another kind than the three of `InstCoherent` has what it needs.
  have other : inst.op ≠ .MAKE_CLOSURE → inst.op ≠ .CAPTURE_LOAD → inst.op ≠ .CAPTURE_STORE → inst.op ≠ .ALLOC_NEW →
      plan.unit.InstCoherent inst := fun noClosure noLoad noStore noAlloc =>
    ⟨fun is => absurd is noClosure, fun is => (is.elim noLoad noStore).elim, fun is => absurd is noAlloc⟩
  rw [instRefs] at made
  split at made
  -- a constant that is pushed
  · rename_i op
    refine iff_of_true ?_ (other (by simp [op]) (by simp [op]) (by simp [op]) (by simp [op]))
    split at made
    · rename_i target isTarget
      split at made
      · cases made
      rename_i both
      rw [not_or, Bool.not_eq_false, Nat.not_le] at both
      rw [← Option.some.inj made, forall_singleton]
      exact (resolves_table_iff settled emitted both.1 both.2).mpr
        (callee target (by rw [CodegenUnit.callee, op]; exact isTarget) both.2)
    · rw [← Option.some.inj made]
      intro ref none
      cases none
  -- a closure
  · rename_i op
    split at made
    · rename_i target isTarget
      split at made
      · cases made
      rename_i both
      rw [not_or, Nat.not_le, Nat.not_le] at both
      rw [← Option.some.inj made]
      have table := settled.functionTable_of_functionConst isTarget
      constructor
      · intro resolve
        refine ⟨fun _ target' isTarget' => ?_, fun is => ?_, fun is => ?_⟩
        · rw [isTarget, Option.some.injEq] at isTarget'
          rw [← isTarget']
          rw [← settled.reachable]
          exact (resolves_table_iff settled emitted table both.2).mp (resolve _ (by simp))
        · simp [op] at is
        · simp [op] at is
      · intro coherent ref isRef
        rcases List.mem_cons.mp isRef with here | isRef
        · rw [here]
          exact globalSpace_closure settled emitted both.1
        · rw [List.mem_singleton.mp isRef]
          have kept := coherent.closure op target isTarget
          rw [← settled.reachable] at kept
          exact (resolves_table_iff settled emitted table both.2).mpr kept
    · cases made
  -- the address of a capture
  · rename_i op
    split at made
    · cases made
    rename_i inside
    refine iff_of_true ?_ (other (by simp [op]) (by simp [op]) (by simp [op]) (by simp [op]))
    rw [← Option.some.inj made, forall_singleton]
    exact globalSpace_closure settled emitted (by omega)
  -- a capture that is read
  · rename_i op
    rw [← Option.some.inj made, forall_singleton]
    exact captureRef_resolves settled emitted defined (.inl op)
  -- a capture that is written
  · rename_i op
    rw [← Option.some.inj made, forall_singleton]
    exact captureRef_resolves settled emitted defined (.inr op)
  -- an allocation
  · rename_i op
    rw [allocRefs_resolve settled emitted isIn op made, settled.context_thunk_iff]
    exact ⟨fun allocator => ⟨fun is => by simp [op] at is, fun is => by simp [op] at is, fun _ => allocator⟩,
      fun coherent => coherent.allocator op⟩
  -- a call of a function
  · rename_i op
    split at made
    · cases made
    rename_i inside
    refine iff_of_true ?_ (other (by simp [op]) (by simp [op]) (by simp [op]) (by simp [op]))
    rw [← Option.some.inj made, forall_singleton]
    exact resolves_funcRef settled emitted (callee _ (by rw [CodegenUnit.callee, op]) (by omega))
  -- an indirect call
  · rename_i op
    refine iff_of_true ?_ (other (by simp [op]) (by simp [op]) (by simp [op]) (by simp [op]))
    split at made
    · rename_i table
      exact indirectRefs_resolve settled emitted table made
    · cases made
  -- an assertion
  · rename_i op
    refine iff_of_true ?_ (other (by simp [op]) (by simp [op]) (by simp [op]) (by simp [op]))
    rw [← Option.some.inj made]
    exact resolves_panicRefs settled emitted
  · cases made
  · cases made
  · cases made
  -- all other instructions
  · rename_i _ noClosure _ noLoad noStore noAlloc _ _ _ _ _ _
    refine iff_of_true ?_ (other noClosure noLoad noStore noAlloc)
    rw [← Option.some.inj made]
    intro ref none
    cases none

/-- The same for the instructions of a function one after another. -/
theorem insts_resolve {i : Nat} {insts : List (MirInst × Nat)} {refs : List (List Ref)} (settled : plan.Settled)
    (emitted : plan.Emitted facts m) (defined : i ∈ plan.definedFunctions)
    (isIn : ∀ inst ∈ insts, inst.1 ∈ plan.unit.code i)
    (each : List.Forall₂ (fun inst refs => plan.instRefs facts i inst.2 inst.1 = some refs) insts refs) :
    (∀ ref ∈ refs.flatten, m.Resolves ref) ↔ ∀ inst ∈ insts, plan.unit.InstCoherent inst.1 := by
  induction each with
  | nil => simp
  | @cons inst _ insts _ made _ ih =>
    have head := instRefs_resolve settled emitted defined (isIn inst List.mem_cons_self) made
    have tail := ih fun inst' later => isIn inst' (List.mem_cons_of_mem _ later)
    simp only [List.flatten_cons, List.mem_append, List.mem_cons, or_imp, forall_and, forall_eq]
    rw [head, tail]

theorem frameRefs_resolve {i : Nat} (settled : plan.Settled) (emitted : plan.Emitted facts m)
    (defined : i ∈ plan.definedFunctions) : ∀ ref ∈ plan.frameRefs i, m.Resolves ref := by
  intro ref isIn
  rw [frameRefs] at isIn
  split at isIn
  · rename_i needs
    obtain ⟨inside, marked, _⟩ := CodegenUnit.mem_definedFunctions.mp defined
    have frame : plan.imports.needsFrameGlobal = true := by
      rw [settled.imports]
      refine List.any_eq_true.mpr ⟨i, List.mem_range.mpr inside, ?_⟩
      rw [marked, Bool.true_and]
      exact needs
    rw [List.mem_singleton.mp isIn]
    exact globalSpace_frame settled emitted frame
  · cases isIn

theorem functionBody_resolves {i : Nat} {body : Body} (settled : plan.Settled) (emitted : plan.Emitted facts m)
    (defined : i ∈ plan.definedFunctions) (made : plan.functionBody facts i = some body) :
    (∀ ref ∈ body.refs, m.Resolves ref) ↔
      (i ∈ plan.unit.writtenFunctions → ∀ inst ∈ plan.unit.code i, plan.unit.InstCoherent inst) := by
  rw [functionBody] at made
  split at made
  · rename_i index number
    have notWritten : i ∉ plan.unit.writtenFunctions := by
      rw [settled.mem_writtenFunctions]
      rintro ⟨_, none⟩
      rw [number] at none
      cases none
    refine iff_of_true ?_ fun written => absurd written notWritten
    rw [← Option.some.inj made, forall_singleton]
    exact globalSpace_imported settled emitted number
  · rename_i number
    have written : i ∈ plan.unit.writtenFunctions := settled.mem_writtenFunctions.mpr ⟨defined, number⟩
    split at made
    · simp only [Option.bind_eq_bind, Option.pure_def, Option.bind_eq_some_iff, Option.some.injEq] at made
      obtain ⟨refs, each, same⟩ := made
      rw [← same]
      have isIn : ∀ inst ∈ (plan.unit.code i).zipIdx, inst.1 ∈ plan.unit.code i :=
        fun inst isIn => List.fst_mem_of_mem_zipIdx isIn
      have insts := insts_resolve settled emitted defined isIn (forall₂_of_mapM each)
      have all : (∀ inst ∈ (plan.unit.code i).zipIdx, plan.unit.InstCoherent inst.1) ↔
          ∀ inst ∈ plan.unit.code i, plan.unit.InstCoherent inst := by
        conv => rhs; rw [← List.zipIdx_map_fst 0 (plan.unit.code i)]
        simp only [List.mem_map, forall_exists_index, and_imp, forall_apply_eq_imp_iff₂]
      rw [all] at insts
      constructor
      · intro resolve _
        exact insts.mp fun ref isRef => resolve ref (List.mem_append_right _ isRef)
      · intro coherent ref isRef
        rcases List.mem_append.mp isRef with frame | isRef
        · exact frameRefs_resolve settled emitted defined ref frame
        · exact insts.mpr (coherent written) ref isRef
    · cases made

/-! ### The sections -/

theorem functions_typed {is : List Nat} {bodies : List Body} (settled : plan.Settled) (emitted : plan.Emitted facts m)
    (each : List.Forall₂ (fun i body => plan.functionBody facts i = some body) is bodies)
    (inside : ∀ i ∈ is, i < plan.funcLen) :
    List.Forall₂ (m.Typed plan.sigs) (is.map plan.sigTypeIndex) bodies := by
  induction each with
  | nil => exact .nil
  | @cons i body is _ made _ ih =>
    refine .cons ?_ (ih fun j later => inside j (List.mem_cons_of_mem _ later))
    have atIndex := List.getElem?_eq_getElem (sigs_length settled ▸ inside i List.mem_cons_self)
    refine ⟨_, by rw [functionBody_owner made, FuncEntity.funcType?, atIndex]; rfl, ?_⟩
    rw [sigTypeIndex, atIndex]
    exact resolves_sig settled emitted atIndex

theorem component_typed {present : Bool} {index : Option Nat} {body : Body}
    (typed : present = true → m.Typed plan.sigs index body) :
    List.Forall₂ (m.Typed plan.sigs) (if present then [index] else []) (if present then [body] else []) := by
  cases present with
  | false => exact .nil
  | true => exact .cons (typed rfl) .nil

theorem bodyTypes (settled : plan.Settled) (emitted : plan.Emitted facts m) :
    List.Forall₂ (m.Typed plan.sigs) m.funcs.entries m.codes.entries := by
  obtain ⟨bodies, each, codes⟩ := emitted.codes
  rw [emitted.funcs, codes, funcSection, supportBodies]
  simp only [List.append_assoc]
  refine List.rel_append ?_ (List.rel_append ?_ (List.rel_append ?_ ?_))
  · exact functions_typed settled emitted each fun i defined => (CodegenUnit.mem_definedFunctions.mp defined).1
  · apply component_typed
    intro thunk
    exact ⟨allocatorType, rfl, resolves_allocatorType settled emitted (settled.hasFunctionTable_of_thunk thunk)⟩
  · apply component_typed
    intro logger
    exact ⟨loggerType, rfl, resolves_loggerType settled emitted logger⟩
  · apply component_typed
    intro wrapper
    refine ⟨wrapperType, rfl, _, ((planEntryLayout_spec settled.entry).2 wrapper).1, ?_⟩
    rw [emitted.types]
    exact typeSection_wrapper settled wrapper

theorem importTypes {e : LinkageEntry} {index : Option Nat} (settled : plan.Settled) (emitted : plan.Emitted facts m)
    (isIn : Import.function e index ∈ m.imports.entries) :
    ∃ sig, plan.sigs[e.functionIndex]? = some sig ∧ m.Resolves (.type index sig.funcType) := by
  have isImport : e ∈ plan.functionImports ∧ index = plan.sigTypeIndex e.functionIndex := by
    rw [emitted.imports, importSection] at isIn
    simp only [List.mem_append, List.mem_map, Import.function.injEq] at isIn
    rcases isIn with ((none | ⟨e', isImport, same, sameIndex⟩) | none) | ⟨_, _, none⟩
    · split at none <;> simp at none
    · rw [same] at isImport sameIndex
      exact ⟨isImport, sameIndex.symm⟩
    · split at none <;> simp at none
    · cases none
  have inside : e.functionIndex < plan.sigs.length := by
    have marked := (CodegenUnit.mem_functionImports.mp isImport.1).2.2
    rw [sigs_length settled, funcLen, ← settled.kept.length]
    exact isMarked_lt marked
  have atIndex := List.getElem?_eq_getElem inside
  refine ⟨_, atIndex, ?_⟩
  rw [isImport.2, sigTypeIndex, atIndex, Option.map_some]
  exact resolves_sig settled emitted atIndex

theorem consoleLogType {index : Option Nat} (settled : plan.Settled) (emitted : plan.Emitted facts m)
    (isIn : Import.consoleLog index ∈ m.imports.entries) : m.Resolves (.type index consoleLogType) := by
  rw [emitted.imports, importSection] at isIn
  simp only [List.mem_append, List.mem_map] at isIn
  rcases isIn with ((none | ⟨_, _, none⟩) | console) | ⟨_, _, none⟩
  · split at none <;> simp at none
  · cases none
  · split at console
    · rename_i logger
      rw [List.mem_singleton, Import.consoleLog.injEq] at console
      rw [console]
      exact resolves_consoleLogType settled emitted logger
    · cases console
  · cases none

theorem exportRef_resolves {i : Nat} (settled : plan.Settled) (emitted : plan.Emitted facts m)
    (marked : isMarked plan.imports.reachableFunctions i = true) : m.Resolves (plan.exportRef i) := by
  rw [exportRef]
  split
  · rename_i both
    obtain ⟨k, index, atIndex⟩ := funcSpace_wrapper settled emitted both.1
    exact ⟨k, _, index, atIndex, rfl⟩
  · exact resolves_funcRef settled emitted marked

theorem exportRefs {e : Export} {ref : Ref} (settled : plan.Settled) (emitted : plan.Emitted facts m)
    (isIn : e ∈ m.exports.entries) (isRef : e.desc = .func ref) : m.Resolves ref := by
  rw [emitted.exports, exportSection] at isIn
  simp only [List.mem_append, List.mem_map] at isIn
  rcases isIn with (memory | ⟨i, isMain, same⟩) | ⟨entry, isExport, same⟩
  · split at memory
    · cases memory
    · rw [List.mem_singleton.mp memory] at isRef
      cases isRef
  · rw [← same, ExportDesc.func.injEq] at isRef
    rw [← isRef]
    have both := (List.mem_filter.mp isMain).2
    rw [decide_eq_true_eq] at both
    exact exportRef_resolves settled emitted both.1
  · rw [← same, ExportDesc.func.injEq] at isRef
    rw [← isRef]
    have both := (List.mem_filter.mp isExport).2
    rw [decide_eq_true_eq] at both
    exact exportRef_resolves settled emitted both.2

/-- Every main function and every function that is exported is kept, so that nothing that is asked for is left out. -/
theorem exportNames (settled : plan.Settled) (emitted : plan.Emitted facts m) :
    m.exports.entries.map Export.name = plan.unit.exportNames := by
  have mains : plan.mainFunctions = (List.range plan.unit.funcLen).filter plan.unit.isMain := by
    apply List.filter_congr
    intro i inside
    rw [Bool.eq_iff_iff, decide_eq_true_eq, and_iff_right_iff_imp]
    intro isMain
    apply settled.root_marked _ (List.mem_range.mp inside)
    rw [CodegenUnit.roots, List.mem_append, List.mem_filter]
    exact .inl ⟨inside, isMain⟩
  have entries : plan.exportEntries = plan.unit.foreign.filter (·.kind = .EXPORT_FN) := by
    apply List.filter_congr
    intro e isIn
    rw [decide_eq_decide, and_iff_left_iff_imp]
    intro isExport
    apply settled.root_marked _ (settled.entries e isIn)
    rw [CodegenUnit.roots, List.mem_append, List.mem_map]
    exact .inr ⟨e, List.mem_filter.mpr ⟨isIn, by simpa using isExport⟩, rfl⟩
  rw [emitted.exports, exportSection, CodegenUnit.exportNames, mains, entries]
  simp only [List.map_append, List.map_map]
  congr 1
  congr 1
  rw [importsMemory]
  split <;> rfl

theorem elementsThere_iff (settled : plan.Settled) (emitted : plan.Emitted facts m) :
    (∀ index ∈ m.elements.entries, ∃ k, index = some k ∧ k < m.funcSpace.length) ↔
      (plan.unit.programNeedsFunctionTable = true →
        plan.unit.funcLen = 0 ∨ ∃ i, isMarked plan.unit.reachableFunctions i = true) := by
  rw [← settled.reachable]
  constructor
  · intro there needed
    have table := settled.functionTableOf needed
    by_cases empty : plan.unit.funcLen = 0
    · exact .inl empty
    right
    have first := List.mem_of_getElem? (emitted.element_function table (Nat.pos_of_ne_zero empty))
    obtain ⟨k, index, _⟩ := there _ first
    rw [elementIndex] at index
    split at index
    · rename_i number
      exact ⟨0, settled.marked_of_index number⟩
    · exact kept_of_fillIndex settled index
  · intro kept index isIn
    rw [emitted.elements, elementSection] at isIn
    simp only at isIn
    split at isIn
    · rename_i table
      rw [List.mem_append, List.mem_append, List.mem_map] at isIn
      rcases isIn with (⟨i, inside, same⟩ | alloc) | logger
      · rw [List.mem_range] at inside
        have kept : ∃ i, isMarked plan.imports.reachableFunctions i = true := by
          rcases settled.hasFunctionTable_cases table with thunk | needed
          · exact settled.kept_of_thunk thunk
          · exact (kept needed).resolve_left (show plan.funcLen ≠ 0 by omega)
        rw [elementIndex] at same
        split at same
        · rename_i k number
          obtain ⟨slot, atIndex, _⟩ := funcSpace_function settled emitted (Settled.index_of_getD number)
          exact ⟨k, same.symm, (List.getElem?_eq_some_iff.mp atIndex).1⟩
        · rw [← same]
          exact fillIndex_there settled emitted kept
      · split at alloc
        · rename_i thunk
          obtain ⟨k, number, atIndex⟩ := funcSpace_rootAlloc settled emitted thunk
          exact ⟨k, (List.mem_singleton.mp alloc).trans number, (List.getElem?_eq_some_iff.mp atIndex).1⟩
        · cases alloc
      · split at logger
        · rename_i has
          obtain ⟨k, number, atIndex⟩ := funcSpace_logger settled emitted has
          exact ⟨k, (List.mem_singleton.mp logger).trans number, (List.getElem?_eq_some_iff.mp atIndex).1⟩
        · cases logger
    · cases isIn

theorem dataRefs_resolve (settled : plan.Settled) (emitted : plan.Emitted facts m) :
    ∀ ref ∈ m.data, m.Resolves ref := by
  intro ref isIn
  rw [emitted.data, dataRefs] at isIn
  split at isIn
  · rw [settled.rootAllocTableIndex, settled.wasmMinLoggerTableIndex, List.mem_append] at isIn
    rcases isIn with alloc | logger
    · split at alloc
      · rename_i thunk
        rw [show ref = _ from List.mem_singleton.mp alloc]
        exact element_rootAlloc settled emitted thunk
      · cases alloc
    · split at logger
      · rename_i has
        rw [show ref = _ from List.mem_singleton.mp logger, settled.hasRootAllocThunk_of_logger has]
        exact element_logger settled emitted has
      · cases logger
  · cases isIn

theorem supportBody_resolves {body : Body} (settled : plan.Settled) (emitted : plan.Emitted facts m)
    (isSupport : body ∈ plan.supportBodies) : ∀ ref ∈ body.refs, m.Resolves ref := by
  rcases mem_supportBodies.mp isSupport with ⟨thunk, here⟩ | ⟨logger, here⟩ | ⟨_, here⟩
  · rw [here, rootAllocBody, forall_singleton]
    exact globalSpace_heap settled emitted (settled.needsHeapGlobal_of_thunk thunk)
  · rw [here, loggerBody, forall_singleton]
    obtain ⟨k, index, atIndex⟩ := funcSpace_consoleLog settled emitted logger
    exact ⟨k, _, index, atIndex, trivial⟩
  · rw [here, wrapperBody]
    intro ref isIn
    rw [Option.mem_toList, Option.map_eq_some_iff] at isIn
    obtain ⟨i, isMain, same⟩ := isIn
    rw [← same]
    exact resolves_funcRef settled emitted (settled.mainFuncIndex_marked isMain)

theorem bodyRefs_iff (settled : plan.Settled) (emitted : plan.Emitted facts m) :
    (∀ body ∈ m.codes.entries, ∀ ref ∈ body.refs, m.Resolves ref) ↔
      ∀ i ∈ plan.unit.writtenFunctions, ∀ inst ∈ plan.unit.code i, plan.unit.InstCoherent inst := by
  obtain ⟨bodies, each, codes⟩ := emitted.codes
  rw [codes]
  constructor
  · intro resolve i written
    have defined : i ∈ plan.definedFunctions := (settled.mem_writtenFunctions.mp written).1
    obtain ⟨body, isIn, made⟩ := forall₂_exists_right each i defined
    exact (functionBody_resolves settled emitted defined made).mp
      (resolve body (List.mem_append_left _ isIn)) written
  · intro coherent body isIn
    rcases List.mem_append.mp isIn with isFunction | isSupport
    · obtain ⟨i, defined, made⟩ := forall₂_exists_left each body isFunction
      exact (functionBody_resolves settled emitted defined made).mpr (coherent i)
    · exact supportBody_resolves settled emitted isSupport

theorem codeEntries_length (emitted : plan.Emitted facts m) (settled : plan.Settled) :
    plan.codeCount = m.codes.entries.length := by
  obtain ⟨bodies, each, codes⟩ := emitted.codes
  rw [codes, List.length_append, ← List.Forall₂.length_eq each, ModulePlan.codeCount, settled.definedFuncCount,
    supportBodies]
  cases plan.imports.hasRootAllocThunk <;> cases plan.imports.hasWasmMinLogger <;> cases plan.entry.hasWrapper <;> simp [count]

theorem importCount (settled : plan.Settled) : plan.importSection.count = plan.importSection.entries.length := by
  simp only [importSection, settled.importFuncCount, settled.importGlobalCount, List.length_append, List.length_map]
  cases plan.importsMemory <;> cases plan.imports.hasWasmMinLogger <;> simp [count] <;> omega

theorem globalCount : plan.globalSection.count = plan.globalSection.entries.length := by
  simp only [globalSection, List.length_append, List.length_map, List.length_range]
  cases plan.imports.needsFrameGlobal <;> cases plan.imports.needsHeapGlobal <;> rfl

theorem exportCount : plan.exportSection.count = plan.exportSection.entries.length := by
  simp only [exportSection, List.length_append, List.length_map]
  cases plan.importsMemory <;> rfl

theorem typeCount (settled : plan.Settled) : plan.typeSection.count = plan.typeSection.entries.length := by
  simp only [typeSection, List.length_append, List.length_map, sigs_length settled]
  cases plan.imports.hasFunctionTable <;> cases plan.imports.hasWasmMinLogger <;> cases plan.entry.hasWrapper <;> rfl

theorem elementCount (settled : plan.Settled) :
    plan.imports.tableFuncCount = plan.elementSection.entries.length := by
  rw [settled.tableFuncCount, elementSection]
  cases table : plan.imports.hasFunctionTable with
  | false => rfl
  | true =>
    simp only [if_true, List.length_append, List.length_map, List.length_range]
    cases plan.imports.hasRootAllocThunk <;> cases plan.imports.hasWasmMinLogger <;> rfl

theorem tableSize (settled : plan.Settled) (emitted : plan.Emitted facts m) :
    m.table = none ∧ m.elements.entries = [] ∨ m.table = some m.elements.entries.length := by
  rw [emitted.table, emitted.elements]
  split
  · rw [elementCount settled]
    exact .inr rfl
  · rename_i table
    exact .inl ⟨rfl, if_neg table⟩

theorem wellFormed_coherent (settled : plan.Settled) (emitted : plan.Emitted facts m) :
    m.WellFormed plan.sigs ↔ plan.unit.Coherent := by
  constructor
  · intro wellFormed
    refine ⟨?_, ?_, ?_⟩
    · rw [← exportNames settled emitted]
      exact wellFormed.exportNames
    · exact (elementsThere_iff settled emitted).mp wellFormed.elementsThere
    · exact (bodyRefs_iff settled emitted).mp wellFormed.bodyRefs
  · intro coherent
    have types := bodyTypes settled emitted
    have codes := codeEntries_length emitted settled
    exact {
      typeCount := by rw [emitted.types, typeCount settled]
      importCount := by rw [emitted.imports, importCount settled]
      funcCount := by rw [types.length_eq, ← codes, emitted.funcs]; rfl
      globalCount := by rw [emitted.globals, globalCount]
      exportCount := by rw [emitted.exports, exportCount]
      elementCount := by rw [emitted.elements, ← elementCount settled]; rfl
      codeCount := by rw [emitted.codeCount, codes]
      tableSize := tableSize settled emitted
      bodyTypes := types
      importTypes := fun _ _ isIn => importTypes settled emitted isIn
      consoleLogType := fun _ isIn => consoleLogType settled emitted isIn
      bodyRefs := (bodyRefs_iff settled emitted).mpr coherent.insts
      dataRefs := dataRefs_resolve settled emitted
      elementsThere := (elementsThere_iff settled emitted).mpr coherent.filled
      exportRefs := fun _ isIn _ isRef => exportRefs settled emitted isIn isRef
      exportNames := by rw [exportNames settled emitted]; exact coherent.exportNames }

end Emitted

end ModulePlan

/-- The module that is emitted is well formed exactly if the program is coherent. -/
theorem emitModule_wellFormed_iff {unit : CodegenUnit} {plan : ModulePlan} {facts : StackFacts} {m : Module}
    (planned : unit.plan = .ok plan) (emitted : plan.emitModule facts = some m) :
    m.WellFormed plan.sigs ↔ unit.Coherent := by
  have parts := CodegenUnit.plan_planned planned
  rw [← parts.unit_eq]
  exact ModulePlan.Emitted.wellFormed_coherent (ModulePlan.settled_of_planned parts) (ModulePlan.emitModule_emitted emitted)

/-- The operand stack of functions that have no indirect calls. -/
def plainFacts : StackFacts := ⟨fun _ => true, fun _ _ => .allocator⟩

/-- The module of the main function that asks for the allocator of the context. -/
theorem contextUnit_wellFormed : ∃ m, contextPlan.emitModule plainFacts = some m ∧
    (m.WellFormed contextPlan.sigs ↔ contextUnit.Coherent) := by
  have planned : contextUnit.plan = .ok contextPlan := rfl
  have emitted : ∃ m, contextPlan.emitModule plainFacts = some m := ⟨_, rfl⟩
  obtain ⟨m, emitted⟩ := emitted
  exact ⟨m, emitted, emitModule_wellFormed_iff planned emitted⟩

/-- A function that takes its own value and is not main: nothing calls it from outside. -/
def valueUnit : CodegenUnit where
  mirProgram :=
    { insts := [⟨.PUSH_CONST, 0, 0, 0, 0⟩, ⟨.DROP, 0, 0, 0, 0⟩, ⟨.RETURN_VOID, 0, 0, 0, 0⟩]
      consts := [⟨.FUNCTION, 0, 0, ⟨0, 0⟩⟩]
      sources := [bytesOf "step"]
      funcs := [⟨0, 3, 0, 0, 0, 0, noTypeRef, 0, 4, 0, 0⟩]
      locals := []
      fields := []
      types := []
      hosts := []
      symbols := []
      lengths := by decide }
  foreign := []
  platformTarget := none
  usesPlatform := false
  kinds := ⟨fun _ => some .VOID, fun _ _ => none, fun _ => none⟩

def valuePlan : ModulePlan where
  unit := valueUnit
  sigs := [⟨0, [], [], .VOID, [], false, noTypeRef⟩]
  imports := valueUnit.importLayout [false]
  strings := ⟨[none], 0, none, none, none, none⟩
  entry := EntryLayout.none

/-- The module has a table with a place for the function and no function to put there. -/
theorem valueUnit_not_wellFormed : ¬ ∀ (unit : CodegenUnit) (plan : ModulePlan) (facts : StackFacts) (m : Module),
    unit.plan = .ok plan → plan.emitModule facts = some m → m.WellFormed plan.sigs := by
  intro wellFormed
  have planned : valueUnit.plan = .ok valuePlan := rfl
  have there := (wellFormed valueUnit valuePlan plainFacts _ planned rfl).elementsThere
  obtain ⟨k, index, _⟩ := there none (List.mem_singleton_self none)
  cases index

end HopHop.Wasm
