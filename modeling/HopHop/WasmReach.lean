import HopHop.WasmIndices

namespace HopHop.Wasm

namespace CodegenUnit

variable {unit : CodegenUnit}

/-! ### What the two searches come to -/

open Classical in
/-- The marks of the numbers of a set. -/
noncomputable def marksOf (unit : CodegenUnit) (S : Nat → Prop) : List Bool :=
  (List.range unit.funcLen).map fun i => decide (S i)

theorem eq_marksOf {marks : List Bool} {S : Nat → Prop} (length : marks.length = unit.funcLen)
    (same : ∀ i, isMarked marks i = true ↔ S i) : marks = unit.marksOf S := by
  apply List.ext_getElem (by simp [marksOf, length])
  intro i inside inside'
  have marked := same i
  simp only [isMarked, List.getElem?_eq_getElem inside, Option.some.injEq, decide_eq_true_eq] at marked
  rw [Bool.eq_iff_iff, marked]
  simp [marksOf]

/-- One of the functions of a set needs the panic. -/
def PanicNeeded (unit : CodegenUnit) (S : Nat → Prop) : Prop := unit.needsPanic (unit.marksOf S) = true

/-- A function that is kept whatever is reached: one that an allocator may be called through, or the entry of a function
value. -/
def isTableSupport (unit : CodegenUnit) (i : Nat) : Bool :=
  (unit.mirProgram.funcs[i]?).any fun fn => unit.functionLooksAllocatorIndirect fn || fn.isFunctionValueEntry

/-- What is called, or taken the value of, from the main function and the exported ones on. -/
def FirstKept (unit : CodegenUnit) : Nat → Prop := ReachedFrom unit.callees unit.funcLen (· ∈ unit.roots)

/-- What the first search leaves: the imports for the panic are kept when something it found needs them. -/
def SearchKept (unit : CodegenUnit) (i : Nat) : Prop :=
  unit.FirstKept i ∨ unit.PanicNeeded unit.FirstKept ∧ i < unit.funcLen ∧ unit.KeptForPanic i

/-- What both searches leave. -/
def KeptFn (unit : CodegenUnit) (i : Nat) : Prop :=
  unit.SearchKept i ∨ (∃ s, unit.isTableSupport s = true) ∧
    ReachedFrom unit.callees unit.funcLen (fun j => unit.SearchKept j ∨ unit.isTableSupport j = true) i

theorem isTableSupport_lt {i : Nat} (support : unit.isTableSupport i = true) : i < unit.funcLen := by
  by_contra outside
  rw [isTableSupport, List.getElem?_eq_none (by simpa [funcLen] using outside)] at support
  cases support

theorem buildReachableFunctionSet_length : unit.buildReachableFunctionSet.length = unit.funcLen :=
  kept_buildReachableFunctionSet.length

theorem isMarked_buildReachableFunctionSet {i : Nat} :
    isMarked unit.buildReachableFunctionSet i = true ↔ unit.SearchKept i := by
  have first (j : Nat) : isMarked (markFrom unit.callees unit.funcLen
      (unit.roots.foldl Marking.mark ⟨List.replicate unit.funcLen false, []⟩)) j = true ↔ unit.FirstKept j :=
    isMarked_markFrom
  have same := eq_marksOf (@kept_markFrom unit).length first
  have length := (@kept_markFrom unit).length
  simp only [buildReachableFunctionSet]
  split
  · rename_i needed
    rw [same] at needed
    rw [isMarked_markAll, first, length, List.mem_map]
    simp only [SearchKept, PanicNeeded, needed, KeptForPanic, true_and]
  · rename_i notNeeded
    rw [same] at notNeeded
    rw [first]
    simp only [SearchKept, PanicNeeded, notNeeded, false_and, or_false, Bool.false_eq_true]

theorem isMarked_markReachableClosure {marks : List Bool} (length : marks.length = unit.funcLen) {root i : Nat} :
    isMarked (unit.markReachableClosure marks root) i = true ↔
      ReachedFrom unit.callees unit.funcLen (fun j => isMarked marks j = true ∨ j = root) i := by
  have setLength : (marks.set root true).length = unit.funcLen := by rw [List.length_set, length]
  have enough : (marks.set root true).count false < unit.funcLen + 1 := length ▸ count_false_set_lt marks root
  have start (j : Nat) (inside : j < unit.funcLen) :
      isMarked (marks.set root true) j = true ↔ isMarked marks j = true ∨ j = root := by
    by_cases here : root = j
    · rw [here]
      simp [isMarked_set_self (length ▸ inside)]
    · rw [isMarked_set_ne here]
      simp [Ne.symm here]
  rw [markReachableClosure, isMarked_markPasses enough, setLength]
  constructor
  · exact fun reached => reached.lift fun j isStart inside => .start ((start j inside).mp isStart) inside
  · exact fun reached => reached.lift fun j isStart inside => .start ((start j inside).mpr isStart) inside

theorem markReachableClosure_length {marks : List Bool} (length : marks.length = unit.funcLen) (root : Nat) :
    (unit.markReachableClosure marks root).length = unit.funcLen := by
  have setLength : (marks.set root true).length = unit.funcLen := by rw [List.length_set, length]
  have enough : (marks.set root true).count false < unit.funcLen + 1 := length ▸ count_false_set_lt marks root
  rw [markReachableClosure, (@markPasses_closed unit.callees _ _ enough).1.length, setLength]

/-- One closure after another comes to one search from all their roots. -/
theorem isMarked_closures {is : List Nat} {marks : List Bool} (length : marks.length = unit.funcLen) {i : Nat} :
    isMarked (is.foldl unit.markReachableClosure marks) i = true ↔
      isMarked marks i = true ∨ is ≠ [] ∧
        ReachedFrom unit.callees unit.funcLen (fun j => isMarked marks j = true ∨ j ∈ is) i := by
  induction is generalizing marks with
  | nil => simp
  | cons root rest ih =>
    have closure (j : Nat) := @isMarked_markReachableClosure unit marks length root j
    rw [List.foldl_cons, ih (markReachableClosure_length length root), closure]
    constructor
    · rintro (reached | ⟨-, reached⟩)
      · refine .inr ⟨List.cons_ne_nil _ _, reached.lift fun j isStart inside => .start ?_ inside⟩
        exact isStart.imp_right fun same => List.mem_cons.mpr (.inl same)
      · refine .inr ⟨List.cons_ne_nil _ _, reached.lift fun j isStart inside => ?_⟩
        rcases isStart with marked | inRest
        · refine ((closure j).mp marked).lift fun k isStart inside => .start ?_ inside
          exact isStart.imp_right fun same => List.mem_cons.mpr (.inl same)
        · exact .start (.inr (List.mem_cons_of_mem _ inRest)) inside
    · rintro (marked | ⟨-, reached⟩)
      · exact .inl (.start (.inl marked) (length ▸ isMarked_lt marked))
      · by_cases last : rest = []
        · subst last
          refine .inl (reached.lift fun j isStart inside => .start ?_ inside)
          exact isStart.imp_right List.mem_singleton.mp
        · refine .inr ⟨last, reached.lift fun j isStart inside => .start ?_ inside⟩
          rcases isStart with marked | isIn
          · exact .inl ((closure j).mpr (.start (.inl marked) inside))
          · rcases List.mem_cons.mp isIn with same | inRest
            · exact .inl ((closure j).mpr (.start (.inr same) inside))
            · exact .inr inRest

theorem isMarked_reachableFunctions {i : Nat} : isMarked unit.reachableFunctions i = true ↔ unit.KeptFn i := by
  have support (j : Nat) : j ∈ (List.range unit.funcLen).filter unit.isTableSupport ↔ unit.isTableSupport j = true := by
    rw [List.mem_filter, List.mem_range]
    exact ⟨And.right, fun support => ⟨isTableSupport_lt support, support⟩⟩
  have hasSupport : (List.range unit.funcLen).filter unit.isTableSupport ≠ [] ↔ ∃ s, unit.isTableSupport s = true := by
    constructor
    · intro nonempty
      obtain ⟨s, isIn⟩ := List.exists_mem_of_ne_nil _ nonempty
      exact ⟨s, (support s).mp isIn⟩
    · rintro ⟨s, isSupport⟩
      exact List.ne_nil_of_mem ((support s).mpr isSupport)
  have fold : unit.reachableFunctions =
      ((List.range unit.funcLen).filter unit.isTableSupport).foldl unit.markReachableClosure
        unit.buildReachableFunctionSet := List.foldl_filter.symm
  rw [fold, isMarked_closures buildReachableFunctionSet_length]
  simp only [isMarked_buildReachableFunctionSet, hasSupport, support, KeptFn]

theorem reachableFunctions_length : unit.reachableFunctions.length = unit.funcLen := kept_reachableFunctions.length

theorem reachableFunctions_eq : unit.reachableFunctions = unit.marksOf unit.KeptFn :=
  eq_marksOf reachableFunctions_length fun _ => isMarked_reachableFunctions

/-! ### What a set of kept functions owes -/

/-- The function that an instruction calls, takes the value of or makes a closure of. -/
def calledOrMade (unit : CodegenUnit) (inst : MirInst) : Option Nat :=
  if inst.op = .MAKE_CLOSURE then unit.functionConst inst.aux else unit.callee inst

/-- A closed and complete set of kept functions. -/
structure KeepsAll (unit : CodegenUnit) (marks : List Bool) : Prop where
  roots : ∀ i ∈ unit.roots, i < unit.funcLen → isMarked marks i = true
  entries : ∀ (i : Nat) (fn : MirFunction), unit.mirProgram.funcs[i]? = some fn → fn.isFunctionValueEntry = true →
    isMarked marks i = true
  closed : ∀ i, isMarked marks i = true → ∀ inst ∈ unit.code i, ∀ j, unit.calledOrMade inst = some j →
    j < unit.funcLen → isMarked marks j = true
  /-- The imports for the panic are kept when a kept function has an assert or a checked allocation. -/
  panic : unit.needsPanic marks = true → ∀ e ∈ unit.panicImports, e.functionIndex < unit.funcLen →
    isMarked marks e.functionIndex = true
  /-- A panic that the platform provides is not missed. -/
  provided : unit.needsPanic marks = true → (∃ e ∈ unit.panicImports, e.functionIndex < unit.funcLen) →
    (unit.importLayout marks).hasPlatformPanicImport = true
  /-- What a function with a body calls has an index. -/
  indices : ∀ i ∈ unit.definedFunctions marks, ∀ inst ∈ unit.code i, inst.op = .CALL_FN →
    inst.aux.toNat < unit.funcLen →
    ∃ k, (unit.importLayout marks).funcWasmIndices[inst.aux.toNat]? = some (some k)

/-- The two searches and the decision for the panic between them agree. -/
structure SearchesAgree (unit : CodegenUnit) : Prop where
  /-- What a closure is made of is also called or taken the value of, or the entry of a function value. -/
  closures : ∀ i, unit.KeptFn i → ∀ inst ∈ unit.code i, inst.op = .MAKE_CLOSURE →
    ∀ j, unit.functionConst inst.aux = some j → j < unit.funcLen → unit.KeptFn j
  /-- Without a second search, an import for the panic that is kept has no calls of its own to others. -/
  imports : (∀ s, unit.isTableSupport s = false) → unit.PanicNeeded unit.FirstKept →
    ∀ e ∈ unit.panicImports, e.functionIndex < unit.funcLen → ∀ j ∈ unit.callees e.functionIndex,
      j < unit.funcLen → unit.KeptFn j
  /-- A panic that is needed is needed by a function that the first search finds, or kept for another reason. -/
  panic : unit.PanicNeeded unit.KeptFn → unit.PanicNeeded unit.FirstKept ∨
    ∀ e ∈ unit.panicImports, e.functionIndex < unit.funcLen → unit.KeptFn e.functionIndex

theorem mem_callees {i j : Nat} : j ∈ unit.callees i ↔ ∃ inst ∈ unit.code i, unit.callee inst = some j := by
  rw [callees, List.mem_filterMap]

theorem calledOrMade_of_callee {inst : MirInst} {j : Nat} (isCallee : unit.callee inst = some j) :
    unit.calledOrMade inst = some j := by
  have notClosure : inst.op ≠ .MAKE_CLOSURE := by
    intro isClosure
    simp [callee, isClosure] at isCallee
  rw [calledOrMade, if_neg notClosure, isCallee]

theorem needsPanic_reachableFunctions :
    unit.needsPanic unit.reachableFunctions = true ↔ unit.PanicNeeded unit.KeptFn := by
  rw [PanicNeeded, ← reachableFunctions_eq]

/-- The imports for the panic are where the two searches may leave something open. -/
theorem SearchesAgree.callee_kept (agree : unit.SearchesAgree) {i j : Nat} (kept : unit.KeptFn i)
    (isCallee : j ∈ unit.callees i) (inside : j < unit.funcLen) : unit.KeptFn j := by
  rcases kept with searched | ⟨support, reached⟩
  · rcases searched with first | ⟨needed, bound, e, isPanic, same⟩
    · exact .inl (.inl (first.next isCallee inside))
    · by_cases support : ∃ s, unit.isTableSupport s = true
      · have start : unit.SearchKept i := .inr ⟨needed, bound, e, isPanic, same⟩
        exact .inr ⟨support, .next (.start (.inl start) bound) isCallee inside⟩
      · have noSupport : ∀ s, unit.isTableSupport s = false := by simpa using support
        subst same
        exact agree.imports noSupport needed e isPanic bound j isCallee inside
  · exact .inr ⟨support, reached.next isCallee inside⟩

theorem KeepsAll.searchesAgree (all : unit.KeepsAll unit.reachableFunctions) : unit.SearchesAgree where
  closures i kept inst isIn isClosure j target inside := by
    refine isMarked_reachableFunctions.mp (all.closed i (isMarked_reachableFunctions.mpr kept) inst isIn j ?_ inside)
    rw [calledOrMade, if_pos isClosure, target]
  imports _ needed e isPanic bound j isCallee inside := by
    obtain ⟨inst, isIn, target⟩ := mem_callees.mp isCallee
    have kept : unit.KeptFn e.functionIndex := .inl (.inr ⟨needed, bound, e, isPanic, rfl⟩)
    exact isMarked_reachableFunctions.mp
      (all.closed _ (isMarked_reachableFunctions.mpr kept) inst isIn j (calledOrMade_of_callee target) inside)
  panic needed := .inr fun e isPanic inside =>
    isMarked_reachableFunctions.mp (all.panic (needsPanic_reachableFunctions.mpr needed) e isPanic inside)

/-- A kept import for the panic is an import of the module. -/
theorem hasPlatformPanicImport_of_marked {marks : List Bool} {e : LinkageEntry} (isPanic : e ∈ unit.panicImports)
    (marked : isMarked marks e.functionIndex = true) : (unit.importLayout marks).hasPlatformPanicImport = true := by
  simp only [panicImports, List.mem_filter, decide_eq_true_eq] at isPanic
  exact List.any_eq_true.mpr ⟨e, mem_functionImports.mpr ⟨isPanic.1, isPanic.2.1, marked⟩, isPanic.2.2⟩

theorem funcWasmIndices_of_marked {marks : List Bool} {j c : Nat} (inside : j < unit.funcLen)
    (marked : isMarked marks j = true) : ∃ k, (unit.funcWasmIndices marks c)[j]? = some (some k) := by
  by_cases imported : j ∈ (unit.functionImports marks).map LinkageEntry.functionIndex
  · obtain ⟨k, -, -, -, index⟩ := funcWasmIndices_imported (c := c) inside imported
    exact ⟨k, index⟩
  · obtain ⟨k, -, index⟩ := funcWasmIndices_defined (c := c) (mem_definedFunctions.mpr ⟨inside, marked, imported⟩)
    exact ⟨c + k, index⟩

theorem SearchesAgree.keepsAll (agree : unit.SearchesAgree) : unit.KeepsAll unit.reachableFunctions := by
  have closed : ∀ i, isMarked unit.reachableFunctions i = true → ∀ inst ∈ unit.code i, ∀ j,
      unit.calledOrMade inst = some j → j < unit.funcLen → isMarked unit.reachableFunctions j = true := by
    intro i marked inst isIn j target inside
    rw [isMarked_reachableFunctions] at marked ⊢
    by_cases isClosure : inst.op = .MAKE_CLOSURE
    · rw [calledOrMade, if_pos isClosure] at target
      exact agree.closures i marked inst isIn isClosure j target inside
    · rw [calledOrMade, if_neg isClosure] at target
      exact agree.callee_kept marked (mem_callees.mpr ⟨inst, isIn, target⟩) inside
  have panic : unit.needsPanic unit.reachableFunctions = true → ∀ e ∈ unit.panicImports,
      e.functionIndex < unit.funcLen → isMarked unit.reachableFunctions e.functionIndex = true := by
    intro needed e isPanic inside
    rw [isMarked_reachableFunctions]
    rcases agree.panic (needsPanic_reachableFunctions.mp needed) with first | kept
    · exact .inl (.inr ⟨first, inside, e, isPanic, rfl⟩)
    · exact kept e isPanic inside
  refine ⟨?_, ?_, closed, panic, ?_, ?_⟩
  · intro i isRoot inside
    exact isMarked_reachableFunctions.mpr (.inl (.inl (.start isRoot inside)))
  · intro i fn atIndex isEntry
    have support : unit.isTableSupport i = true := by simp [isTableSupport, atIndex, isEntry]
    exact isMarked_reachableFunctions.mpr (.inr ⟨⟨i, support⟩, .start (.inr support) (isTableSupport_lt support)⟩)
  · rintro needed ⟨e, isPanic, inside⟩
    exact hasPlatformPanicImport_of_marked isPanic (panic needed e isPanic inside)
  · intro i defined inst isIn isCall inside
    have marked := (mem_definedFunctions.mp defined).2.1
    have target : unit.calledOrMade inst = some inst.aux.toNat :=
      calledOrMade_of_callee (by simp [callee, isCall])
    exact funcWasmIndices_of_marked inside (closed i marked inst isIn _ target inside)

/-- The functions that are kept are closed and complete exactly when the two searches agree. -/
theorem reachableFunctions_keepsAll_iff (unit : CodegenUnit) :
    unit.KeepsAll unit.reachableFunctions ↔ unit.SearchesAgree := by
  constructor
  · exact KeepsAll.searchesAgree
  · exact SearchesAgree.keepsAll

end CodegenUnit

/-- A main function that makes a closure and calls it. Only the closure has an assert, and the platform provides the
panic. -/
def assertUnit : CodegenUnit where
  mirProgram :=
    { insts := [⟨.LOCAL_ADDR, 0, 0, 0, 0⟩, ⟨.MAKE_CLOSURE, 1, 0, 0, 0⟩, ⟨.CALL_INDIRECT, 0, 0, 0, 0⟩,
        ⟨.RETURN_VOID, 0, 0, 0, 0⟩, ⟨.CAPTURE_LOAD, 0, 0, 0, 0⟩, ⟨.ASSERT, 0, 0, 0, 0⟩, ⟨.RETURN_VOID, 0, 0, 0, 0⟩]
      consts := [⟨.FUNCTION, 1, 0, ⟨0, 0⟩⟩]
      sources := [bytesOf "main"]
      funcs := [⟨0, 4, 0, 0, 1, 0, noTypeRef, 0, 4, 0, 0⟩, ⟨4, 3, 0, 1, 0, 0, noTypeRef, 0, 0, 2, 1⟩,
        ⟨7, 0, 0, 1, 0, 0, noTypeRef, 0, 0, 0, 0⟩]
      locals := [⟨0, 0, 0, 0⟩]
      fields := []
      types := []
      hosts := []
      symbols := []
      lengths := by decide }
  foreign := [⟨2, .WASM_IMPORT_FN, true, 0, 0, bytesOf "wasm_min", bytesOf "panic"⟩]
  platformTarget := some "wasm-min"
  usesPlatform := true
  kinds := ⟨fun _ => some .VOID, fun _ _ => none, fun _ => none⟩

/-- The program is refused for a panic import that the platform provides. -/
theorem assertUnit_refused :
    ¬ assertUnit.KeepsAll assertUnit.reachableFunctions ∧
      (assertUnit.analyzeImports assertUnit.reachableFunctions).isOk = false := by
  refine ⟨fun all => ?_, by decide +kernel⟩
  have kept := all.panic (by decide +kernel) ⟨2, .WASM_IMPORT_FN, true, 0, 0, bytesOf "wasm_min", bytesOf "panic"⟩
    (by decide +kernel) (by decide +kernel)
  exact absurd kept (by decide +kernel)

end HopHop.Wasm
