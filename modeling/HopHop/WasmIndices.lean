import HopHop.WasmModule

namespace HopHop.Wasm

namespace CodegenUnit

variable {unit : CodegenUnit}

/-! ### The functions that are kept -/

/-- A function is kept for the panic only: it is imported and its instructions were not followed. -/
def KeptForPanic (unit : CodegenUnit) (i : Nat) : Prop := ∃ e ∈ unit.panicImports, e.functionIndex = i

/-- What a set of kept functions has to be: every function in it has its callees in it, unless it is kept for the panic
only, and the main and the exported functions are in it. -/
structure Kept (unit : CodegenUnit) (marks : List Bool) : Prop where
  length : marks.length = unit.funcLen
  closed : ∀ i, isMarked marks i = true → unit.KeptForPanic i ∨ ClosedAt unit.callees marks i
  roots : ∀ i ∈ unit.roots, i < unit.funcLen → isMarked marks i = true

theorem kept_markFrom :
    unit.Kept (markFrom unit.callees unit.funcLen
      (unit.roots.foldl Marking.mark ⟨List.replicate unit.funcLen false, []⟩)) := by
  obtain ⟨extends_, marked⟩ := Marking.foldl_mark_extends ⟨List.replicate unit.funcLen false, []⟩ unit.roots
  have work := extends_.work
  simp only [List.count_replicate_self, List.length_nil, Nat.add_zero] at work
  have none : ∀ i, isMarked (List.replicate unit.funcLen false) i ≠ true := by
    intro i isMarked_i
    simp [isMarked, List.getElem?_replicate] at isMarked_i
  obtain ⟨grow, closed⟩ := @markFrom_closed unit.callees unit.funcLen _ (by omega)
    (fun i isMarked_i => .inl ((extends_.new i isMarked_i).resolve_left (none i)))
  refine ⟨?_, fun i isMarked_i => .inr (closed i isMarked_i), ?_⟩
  · rw [grow.length, extends_.grow.length, List.length_replicate]
  · intro i isRoot inside
    exact grow.isMarked (marked i isRoot (by rwa [List.length_replicate]))

theorem kept_buildReachableFunctionSet : unit.Kept unit.buildReachableFunctionSet := by
  have kept := @kept_markFrom unit
  rw [buildReachableFunctionSet]
  generalize markFrom unit.callees unit.funcLen
    (unit.roots.foldl Marking.mark ⟨List.replicate unit.funcLen false, []⟩) = marks at kept ⊢
  split
  · have grow := MarksGrow.markAll marks (unit.panicImports.map LinkageEntry.functionIndex)
    refine ⟨by rw [grow.length, kept.length], ?_, fun i isRoot inside => grow.isMarked (kept.roots i isRoot inside)⟩
    intro i marked
    rcases isMarked_markAll.mp marked with before | ⟨_, panic⟩
    · rcases kept.closed i before with forPanic | closed
      · exact .inl forPanic
      · exact .inr (closed.grow grow)
    · obtain ⟨e, isPanic, same⟩ := List.mem_map.mp panic
      exact .inl ⟨e, isPanic, same⟩
  · exact kept

theorem kept_markReachableClosure {marks : List Bool} (kept : unit.Kept marks) (root : Nat) :
    unit.Kept (unit.markReachableClosure marks root) := by
  have set := MarksGrow.set marks root
  have length : (marks.set root true).length = unit.funcLen := by rw [List.length_set, kept.length]
  have enough : (marks.set root true).count false < unit.funcLen + 1 := kept.length ▸ count_false_set_lt marks root
  obtain ⟨grow, closed⟩ := @markPasses_closed unit.callees _ _ enough
  rw [markReachableClosure]
  refine ⟨by rw [grow.length, length], fun i marked => .inr (closed i marked), ?_⟩
  intro i isRoot inside
  exact grow.isMarked (set.isMarked (kept.roots i isRoot inside))

theorem kept_reachableFunctions : unit.Kept unit.reachableFunctions := by
  rw [reachableFunctions, markTableSupportFunctionsReachable]
  have fold : ∀ (is : List Nat) (marks : List Bool), unit.Kept marks →
      unit.Kept (is.foldl
        (fun r i =>
          if (unit.mirProgram.funcs[i]?).any fun fn => unit.functionLooksAllocatorIndirect fn || fn.isFunctionValueEntry
          then unit.markReachableClosure r i else r) marks) := by
    intro is
    induction is with
    | nil =>
      intro marks kept
      exact kept
    | cons i is ih =>
      intro marks kept
      rw [List.foldl_cons]
      apply ih
      split
      · exact kept_markReachableClosure kept i
      · exact kept
  exact fold _ _ kept_buildReachableFunctionSet

section Indices

variable {reachable : List Bool}

theorem importedFunctions_getElem? {i : Nat} (inside : i < unit.funcLen) :
    (unit.importedFunctions reachable)[i]? = some false ↔
      i ∉ (unit.functionImports reachable).map LinkageEntry.functionIndex := by
  have grow := MarksGrow.markAll (List.replicate unit.funcLen false)
    ((unit.functionImports reachable).map LinkageEntry.functionIndex)
  have length : (unit.importedFunctions reachable).length = unit.funcLen := by
    rw [importedFunctions, grow.length, List.length_replicate]
  have marked : isMarked (unit.importedFunctions reachable) i = true ↔
      i ∈ (unit.functionImports reachable).map LinkageEntry.functionIndex := by
    rw [importedFunctions, isMarked_markAll, List.length_replicate]
    simp [isMarked, inside]
  rw [← marked, isMarked, List.getElem?_eq_getElem (by rw [length]; exact inside)]
  simp

theorem mem_definedFunctions {i : Nat} :
    i ∈ unit.definedFunctions reachable ↔ i < unit.funcLen ∧ isMarked reachable i = true ∧
      i ∉ (unit.functionImports reachable).map LinkageEntry.functionIndex := by
  simp only [definedFunctions, List.mem_filter, List.mem_range, decide_eq_true_eq]
  constructor
  · rintro ⟨inside, marked, notImported⟩
    exact ⟨inside, marked, (importedFunctions_getElem? inside).mp notImported⟩
  · rintro ⟨inside, marked, notImported⟩
    exact ⟨inside, marked, (importedFunctions_getElem? inside).mpr notImported⟩

theorem mem_functionImports {e : LinkageEntry} :
    e ∈ unit.functionImports reachable ↔
      e ∈ unit.foreign ∧ e.kind = .WASM_IMPORT_FN ∧ isMarked reachable e.functionIndex = true := by
  simp [functionImports]

theorem funcWasmIndices_length {c : Nat} : (unit.funcWasmIndices reachable c).length = unit.funcLen := by
  rw [funcWasmIndices, numberLast_length, importedIndices, numberFirst_length, List.length_replicate]

/-- A function that gets a body has the index of its body behind the imports. -/
theorem funcWasmIndices_defined {c i : Nat} (defined : i ∈ unit.definedFunctions reachable) :
    ∃ k, (unit.definedFunctions reachable)[k]? = some i ∧
      (unit.funcWasmIndices reachable c)[i]? = some (some (c + k)) := by
  apply numberLast_of_mem defined
  rw [importedIndices, numberFirst_length, List.length_replicate]
  exact (mem_definedFunctions.mp defined).1

/-- An imported function has the index of an import of it. -/
theorem funcWasmIndices_imported {c i : Nat} (inside : i < unit.funcLen)
    (imported : i ∈ (unit.functionImports reachable).map LinkageEntry.functionIndex) :
    ∃ k e, (unit.functionImports reachable)[k]? = some e ∧ e.functionIndex = i ∧
      (unit.funcWasmIndices reachable c)[i]? = some (some k) := by
  have notDefined : i ∉ unit.definedFunctions reachable := fun defined => (mem_definedFunctions.mp defined).2.2 imported
  rw [funcWasmIndices, numberLast_of_notMem notDefined]
  obtain ⟨k, atPlace, number⟩ :=
    @numberFirst_of_mem (List.replicate unit.funcLen none) _ _ imported (by simp [inside])
  rw [List.getElem?_map, Option.map_eq_some_iff] at atPlace
  obtain ⟨e, atEntry, same⟩ := atPlace
  exact ⟨k, e, atEntry, same, number⟩

/-- Only a function that is kept has an index. -/
theorem isMarked_of_funcWasmIndices {c i k : Nat} (number : (unit.funcWasmIndices reachable c)[i]? = some (some k)) :
    isMarked reachable i = true := by
  by_cases defined : i ∈ unit.definedFunctions reachable
  · exact (mem_definedFunctions.mp defined).2.1
  by_cases imported : i ∈ (unit.functionImports reachable).map LinkageEntry.functionIndex
  · obtain ⟨e, isImport, same⟩ := List.mem_map.mp imported
    rw [← same]
    exact (mem_functionImports.mp isImport).2.2
  rw [funcWasmIndices, numberLast_of_notMem defined, importedIndices, numberFirst_of_notMem imported,
    List.getElem?_replicate] at number
  split at number <;> cases number

/-- The last import for the platform's panic is the one that is called. -/
theorem platformPanicFuncIndex_spec (has : (unit.functionImports reachable).any LinkageEntry.platformPanic = true) :
    ∃ k e, unit.platformPanicFuncIndex reachable = some k ∧ (unit.functionImports reachable)[k]? = some e ∧
      e.platformPanic = true := by
  rw [platformPanicFuncIndex]
  generalize unit.functionImports reachable = entries at has ⊢
  induction entries using List.reverseRecOn with
  | nil => cases has
  | append_singleton entries e ih =>
    rw [List.zipIdx_append, List.foldl_append]
    simp only [List.zipIdx_singleton, List.foldl_cons, List.foldl_nil, Nat.zero_add]
    by_cases panics : e.platformPanic = true
    · rw [if_pos panics]
      exact ⟨entries.length, e, rfl, by simp, panics⟩
    · have before : entries.any LinkageEntry.platformPanic = true := by simpa [panics] using has
      obtain ⟨k, e', index, atPlace, panics'⟩ := ih before
      have short := (List.getElem?_eq_some_iff.mp atPlace).1
      rw [if_neg panics]
      exact ⟨k, e', index, by rw [List.getElem?_append_left short, atPlace], panics'⟩

end Indices

/-! ### The types of the functions -/

/-- Each signature has the index of one that takes and gives the same values. -/
def TypesShared (sigs : List FnSig) : Prop :=
  ∀ sig ∈ sigs, ∃ sig', sigs[sig.typeIndex]? = some sig' ∧ sig'.funcType = sig.funcType

theorem TypesShared.concat {sigs : List FnSig} {sig : FnSig} (shared : TypesShared sigs)
    (known : sig.typeIndex = sigs.length ∨ ∃ sig' ∈ sigs, sig'.typeIndex = sig.typeIndex ∧ sig'.funcType = sig.funcType) :
    TypesShared (sigs ++ [sig]) := by
  have lift : ∀ sig' ∈ sigs, ∃ sig'', (sigs ++ [sig])[sig'.typeIndex]? = some sig'' ∧ sig''.funcType = sig'.funcType := by
    intro sig' isIn
    obtain ⟨sig'', atIndex, same⟩ := shared sig' isIn
    have short := (List.getElem?_eq_some_iff.mp atIndex).1
    exact ⟨sig'', by rw [List.getElem?_append_left short, atIndex], same⟩
  intro sig' isIn
  rcases List.mem_append.mp isIn with old | new
  · exact lift sig' old
  · rw [List.mem_singleton] at new
    rw [new]
    rcases known with own | ⟨earlier, isEarlier, index, type⟩
    · exact ⟨sig, by rw [own]; simp, rfl⟩
    · obtain ⟨sig'', atIndex, same⟩ := lift earlier isEarlier
      exact ⟨sig'', index ▸ atIndex, same.trans type⟩

theorem shareType_known {sigs : List FnSig} {sig : FnSig} (own : sig.typeIndex = sigs.length) :
    (sig.shareType sigs).typeIndex = sigs.length ∨
      ∃ sig' ∈ sigs, sig'.typeIndex = (sig.shareType sigs).typeIndex ∧ sig'.funcType = (sig.shareType sigs).funcType := by
  rw [FnSig.shareType]
  cases found : sigs.find? sig.sameShape with
  | none => exact .inl own
  | some sig' =>
    have same := List.find?_some found
    simp only [FnSig.sameShape, decide_eq_true_eq] at same
    refine .inr ⟨sig', List.mem_of_find?_eq_some found, rfl, ?_⟩
    rw [FnSig.funcType, ← same.2.1, ← same.2.2.2.1]
    rfl

theorem ownSig_typeIndex {i : Nat} {fn : MirFunction} {sig : FnSig} (own : unit.ownSig i fn = .ok sig) :
    sig.typeIndex = i := by
  simp only [ownSig, bind, Except.bind, pure, Except.pure, throw, throwThe, MonadExceptOf.throw] at own
  split at own
  · cases own
  split at own
  · cases own
  split at own
  · cases own
  split at own
  · cases own
  split at own
  · split at own
    · cases own
    · rw [← Except.ok.inj own]
  · rw [← Except.ok.inj own]

theorem signaturesFrom_shared {reachable : List Bool} {sigs result : List FnSig} {fns : List MirFunction}
    (shared : TypesShared sigs) (built : unit.signaturesFrom reachable sigs fns = .ok result) :
    TypesShared result ∧ result.length = sigs.length + fns.length := by
  induction fns generalizing sigs with
  | nil =>
    rw [signaturesFrom] at built
    rw [← Except.ok.inj built]
    exact ⟨shared, rfl⟩
  | cons fn fns ih =>
    rw [signaturesFrom] at built
    split at built
    · cases own : unit.ownSig sigs.length fn with
      | error refusal =>
        simp only [own, bind, Except.bind] at built
        cases built
      | ok sig =>
        simp only [own, bind, Except.bind] at built
        obtain ⟨done, length⟩ := ih (shared.concat (shareType_known (ownSig_typeIndex own))) built
        refine ⟨done, ?_⟩
        rw [length, List.length_append, List.length_singleton, List.length_cons]
        omega
    · obtain ⟨done, length⟩ := ih (shared.concat (.inl rfl)) built
      refine ⟨done, ?_⟩
      rw [length, List.length_append, List.length_singleton, List.length_cons]
      omega

end CodegenUnit

end HopHop.Wasm
