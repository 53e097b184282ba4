import HopHop.WasmRun
import HopHop.CTFEArith

namespace HopHop.Wasm

/-! ### The arithmetic of addresses -/

/-- A word is what a mask keeps of it and what it clears. -/
theorem and_not_add_and (a m : UInt32) : (a &&& ~~~m) + (a &&& m) = a := by
  apply UInt32.toBitVec_inj.mp
  have none : (a.toBitVec &&& ~~~m.toBitVec) &&& (a.toBitVec &&& m.toBitVec) = 0#32 := by
    ext i inside
    simp only [BitVec.getElem_and, BitVec.getElem_not, BitVec.getElem_zero]
    cases a.toBitVec[i] <;> cases m.toBitVec[i] <;> rfl
  have all : (a.toBitVec &&& ~~~m.toBitVec) ||| (a.toBitVec &&& m.toBitVec) = a.toBitVec := by
    ext i inside
    simp only [BitVec.getElem_and, BitVec.getElem_not, BitVec.getElem_or]
    cases a.toBitVec[i] <;> cases m.toBitVec[i] <;> rfl
  exact (BitVec.add_eq_or_of_and_eq_zero _ _ none).trans all

theorem and_not_toNat (a m : UInt32) : (a &&& ~~~m).toNat = a.toNat - (a.toNat &&& m.toNat) := by
  have below : a &&& m ≤ a := by
    rw [UInt32.le_iff_toNat_le, UInt32.toNat_and]
    exact Nat.and_le_left
  have same : a &&& ~~~m = a - (a &&& m) := by
    rw [eq_comm, UInt32.sub_eq_iff_eq_add]
    exact (and_not_add_and a m).symm
  rw [same, UInt32.toNat_sub_of_le _ _ below, UInt32.toNat_and]

theorem align4_toNat {n : UInt32} (small : n.toNat + 3 < 2 ^ 32) : (align4 n).toNat = (n.toNat + 3) / 4 * 4 := by
  have three : (3 : UInt32).toNat = 2 ^ 2 - 1 := rfl
  rw [align4, and_not_toNat, UInt32.toNat_add, three, Nat.and_two_pow_sub_one_eq_mod, Nat.mod_eq_of_lt (by omega)]
  omega

theorem neg_eq_not_sub_one (a : UInt32) : 0 - a = ~~~(a - 1) := by
  rw [UInt32.not_eq_neg_sub]
  grind

theorem AllocRequest.blockAlign_pos (r : AllocRequest) : 0 < r.blockAlign.toNat := by
  rw [AllocRequest.blockAlign]
  by_cases low : r.align < 4
  · rw [if_pos low]
    decide
  · rw [if_neg low]
    rw [UInt32.lt_iff_toNat_lt] at low
    have four : (4 : UInt32).toNat = 4 := rfl
    omega

theorem le_nextAddress (heap align : Nat) : heap ≤ ModulePlan.nextAddress heap align := by
  have cleared : (heap + (align - 1)) &&& (align - 1) ≤ align - 1 := Nat.and_le_right
  rw [ModulePlan.nextAddress]
  omega

/-- The address that the root allocator computes is the next one that the alignment allows, if that has 32 bits. -/
theorem blockBase_toNat {heap align : UInt32} (positive : 0 < align.toNat)
    (noWrap : heap.toNat + (align.toNat - 1) < 2 ^ 32) :
    ((heap + (align - 1)) &&& (0 - align)).toNat = ModulePlan.nextAddress heap.toNat align.toNat := by
  have one : (1 : UInt32) ≤ align := by
    rw [UInt32.le_iff_toNat_le]
    exact positive
  have pred : (align - 1).toNat = align.toNat - 1 := UInt32.toNat_sub_of_le _ _ one
  rw [neg_eq_not_sub_one, and_not_toNat, UInt32.toNat_add, pred, Nat.mod_eq_of_lt noWrap, ModulePlan.nextAddress]

/-! ### What an allocation grants -/

/-- The heap only grows, and a new block lies in the part that it grew by, below a limit and not at 0. -/
structure Granted.Above (g : Granted) (heap : UInt32) (limit : Nat) : Prop where
  grows : heap.toNat ≤ g.heap.toNat
  block : ∀ b, g.block = some b → heap.toNat ≤ b.base ∧ b.stop ≤ g.heap.toNat ∧ b.stop ≤ limit ∧ 0 < b.base

theorem rootAlloc_above {memory : Nat} {heap : UInt32} {r : AllocRequest} {g : Granted} {limit : Nat}
    (granted : rootAlloc memory heap r = some g) (small : limit < 2 ^ 32)
    (fits : r.isRefused = true ∨ r.newSize = 0 ∨ 0 < heap ∧ heap.toNat + (r.blockAlign.toNat - 1) < 2 ^ 32 ∧
      ModulePlan.nextAddress heap.toNat r.blockAlign.toNat + r.newSize.toNat ≤ limit) : g.Above heap limit := by
  have nothing : Granted.Above ⟨heap, none⟩ heap limit := ⟨le_rfl, fun b isBlock => by cases isBlock⟩
  rw [rootAlloc] at granted
  by_cases refused : r.isRefused = true
  · rw [if_pos refused, Option.some.injEq] at granted
    rwa [← granted]
  rw [if_neg refused] at granted
  by_cases outside : memory < r.newSizePtr.toNat + 4
  · rw [if_pos outside] at granted
    cases granted
  rw [if_neg outside] at granted
  by_cases empty : r.newSize = 0
  · rw [if_pos empty, Option.some.injEq] at granted
    rwa [← granted]
  simp only [if_neg empty] at granted
  obtain ⟨positive, noWrap, below⟩ := (fits.resolve_left refused).resolve_left empty
  have base := blockBase_toNat r.blockAlign_pos noWrap
  have above := le_nextAddress heap.toNat r.blockAlign.toNat
  generalize (heap + (r.blockAlign - 1)) &&& (0 - r.blockAlign) = start at granted base
  split at granted
  · rw [Option.some.injEq] at granted
    have top : (start + r.newSize).toNat = start.toNat + r.newSize.toNat := by
      rw [UInt32.toNat_add, Nat.mod_eq_of_lt (by omega)]
    rw [UInt32.lt_iff_toNat_lt] at positive
    have zero : (0 : UInt32).toNat = 0 := rfl
    rw [← granted]
    constructor
    · rw [top]
      omega
    · intro b isBlock
      cases isBlock
      rw [top]
      simp only [Region.stop]
      omega
  · cases granted

theorem bumpAlloc_eq {memory : Nat} {heap size : UInt32} {kind : BumpKind} {g : Granted}
    (granted : bumpAlloc memory heap kind size = some g) :
    g = ⟨heap + align4 size, some ⟨heap.toNat, size.toNat⟩⟩ := by
  cases kind with
  | slice => exact (Option.some.inj granted).symm
  | counted =>
    simp only [bumpAlloc] at granted
    split at granted
    · exact (Option.some.inj granted).symm
    · cases granted
  | fixed =>
    simp only [bumpAlloc] at granted
    split at granted
    · exact (Option.some.inj granted).symm
    · cases granted

theorem bumpAlloc_above {memory : Nat} {heap size : UInt32} {kind : BumpKind} {g : Granted} {limit : Nat}
    (granted : bumpAlloc memory heap kind size = some g) (small : limit + 3 < 2 ^ 32) (positive : 0 < heap)
    (fits : heap.toNat + size.toNat ≤ limit) : g.Above heap limit := by
  have aligned : (align4 size).toNat = (size.toNat + 3) / 4 * 4 := align4_toNat (by omega)
  have top : (heap + align4 size).toNat = heap.toNat + (size.toNat + 3) / 4 * 4 := by
    rw [UInt32.toNat_add, aligned, Nat.mod_eq_of_lt (by omega)]
  have zero : (0 : UInt32).toNat = 0 := rfl
  rw [UInt32.lt_iff_toNat_lt] at positive
  rw [bumpAlloc_eq granted]
  constructor
  · rw [top]
    omega
  · intro b isBlock
    cases isBlock
    rw [top]
    simp only [Region.stop]
    omega

/-! ### The invariant of the runs -/

namespace ModulePlan

variable {plan : ModulePlan}

/-- The blocks are piled up from the start of the heap to the start of the frames at most, the frames from there. -/
structure Ordered (plan : ModulePlan) (s : RunState) : Prop where
  blocks : Region.Piled plan.heapBaseInit.toNat s.heap.toNat s.blocks
  low : ∀ b ∈ s.blocks, b.stop ≤ plan.frameBaseInit.toNat ∧ 0 < b.base
  frames : Region.Piled plan.frameBaseInit.toNat s.frame.toNat s.frames
  positive : ∀ f ∈ s.frames, 0 < f.base
  room : s.frame.toNat ≤ plan.memorySize

theorem memorySize_small : plan.memorySize + 3 < 2 ^ 32 := by
  simp only [memorySize, memoryPages, pageSize]
  split
  · decide
  · split <;> decide

theorem Ordered.initial (room : plan.frameBaseInit.toNat ≤ plan.memorySize) : plan.Ordered plan.initialState where
  blocks := .nil le_rfl
  low := by
    intro b inBlocks
    cases inBlocks
  frames := .nil le_rfl
  positive := by
    intro f inFrames
    cases inFrames
  room := room

theorem Ordered.grant {s : RunState} {g : Granted} (ordered : plan.Ordered s)
    (above : g.Above s.heap plan.frameBaseInit.toNat) : plan.Ordered (s.grant g) := by
  cases block : g.block with
  | none =>
    have same : s.grant g = { s with heap := g.heap } := by simp only [RunState.grant, block, Option.toList_none,
      List.nil_append]
    rw [same]
    exact { ordered with blocks := ordered.blocks.mono above.grows }
  | some b =>
    obtain ⟨start, stop, limit, positive⟩ := above.block b block
    have same : s.grant g = { s with heap := g.heap, blocks := b :: s.blocks } := by
      simp only [RunState.grant, block, Option.toList_some, List.singleton_append]
    rw [same]
    refine { ordered with blocks := .cons stop (ordered.blocks.mono start), low := ?_ }
    intro b' inBlocks
    rcases List.mem_cons.mp inBlocks with new | old
    · rw [new]
      exact ⟨limit, positive⟩
    · exact ordered.low b' old

theorem Ordered.enter {s : RunState} {frameSize : UInt32} (ordered : plan.Ordered s) (positive : 0 < s.frame)
    (fits : s.frame.toNat + frameSize.toNat ≤ plan.memorySize) :
    plan.Ordered { s with frame := s.frame + frameSize, frames := ⟨s.frame.toNat, frameSize.toNat⟩ :: s.frames } := by
  have small := plan.memorySize_small
  have top : (s.frame + frameSize).toNat = s.frame.toNat + frameSize.toNat := by
    rw [UInt32.toNat_add, Nat.mod_eq_of_lt (by omega)]
  refine { ordered with frames := .cons (by rw [top]; rfl) ordered.frames, positive := ?_, room := by rw [top]; exact fits }
  intro f inFrames
  rcases List.mem_cons.mp inFrames with new | old
  · rw [new]
    exact UInt32.lt_iff_toNat_lt.mp positive
  · exact ordered.positive f old

theorem Ordered.leave {s : RunState} {top : Region} {frames : List Region} (ordered : plan.Ordered s)
    (active : s.frames = top :: frames) : plan.Ordered { s with frame := UInt32.ofNat top.base, frames } := by
  have piled := ordered.frames
  rw [active] at piled
  cases piled with
  | cons below rest =>
    have small := plan.memorySize_small
    have room := ordered.room
    rw [Region.stop] at below
    have base : (UInt32.ofNat top.base).toNat = top.base := by
      rw [UInt32.toNat_ofNat', Nat.mod_eq_of_lt (by omega)]
    refine { ordered with frames := by rw [base]; exact rest, positive := ?_, room := by rw [base]; omega }
    intro f inFrames
    exact ordered.positive f (active ▸ List.mem_cons_of_mem _ inFrames)

/-- An event that fits keeps the order. -/
theorem Ordered.step {s s' : RunState} {event : Event} (ordered : plan.Ordered s)
    (room : plan.frameBaseInit.toNat ≤ plan.memorySize) (fits : plan.Fits s event)
    (next : plan.step s event = some s') : plan.Ordered s' := by
  have small := plan.memorySize_small
  cases event with
  | enter frameSize =>
    rw [← Option.some.inj next]
    exact ordered.enter fits.1 fits.2
  | leave =>
    simp only [ModulePlan.step] at next
    split at next
    · cases next
    · rename_i top frames active
      rw [← Option.some.inj next]
      exact ordered.leave active
  | rootAlloc request =>
    simp only [ModulePlan.step] at next
    split at next
    · cases next
    · obtain ⟨g, granted, same⟩ := Option.map_eq_some_iff.mp next
      rw [← same]
      exact ordered.grant (rootAlloc_above granted (by omega) fits)
  | bump kind size =>
    simp only [ModulePlan.step] at next
    split at next
    · cases next
    · obtain ⟨g, granted, same⟩ := Option.map_eq_some_iff.mp next
      rw [← same]
      exact ordered.grant (bumpAlloc_above granted (by omega) fits.1 fits.2)

theorem Reached.ordered {s : RunState} (reached : plan.Reached plan.Fits s)
    (room : plan.frameBaseInit.toNat ≤ plan.memorySize) : plan.Ordered s := by
  induction reached with
  | start => exact Ordered.initial room
  | step _ fits next ih => exact ih.step room fits next

end ModulePlan

/-! ### The static part -/

theorem roundUp_le {n bound : Nat} (below : n ≤ bound) (aligned : bound % 4 = 0) : (n + 3) / 4 * 4 ≤ bound := by
  omega

/-- An aligned address in the memory. -/
theorem align4_bounds {plan : ModulePlan} {n : UInt32} (inside : n.toNat ≤ plan.memorySize) :
    n.toNat ≤ (align4 n).toNat ∧ (align4 n).toNat ≤ plan.memorySize := by
  have small := plan.memorySize_small
  have pages : plan.memorySize % 4 = 0 := by
    simp only [ModulePlan.memorySize, ModulePlan.pageSize]
    omega
  rw [align4_toNat (by omega)]
  exact ⟨by omega, roundUp_le inside pages⟩

theorem planEntryLayout_resultOffset {unit : CodegenUnit} {sigs : List FnSig} {imports : ImportLayout}
    {strings : StringLayout} {entry : EntryLayout} (planned : unit.planEntryLayout sigs imports strings = .ok entry)
    (wrapped : entry.hasWrapper = true) : entry.resultOffset = align4 (UInt32.ofNat strings.dataLen) := by
  rw [CodegenUnit.planEntryLayout] at planned
  split at planned
  · rw [← Except.ok.inj planned] at wrapped
    cases wrapped
  · split at planned
    · split at planned
      · rw [← Except.ok.inj planned] at wrapped
        cases wrapped
      · split at planned
        · cases planned
        · rw [← Except.ok.inj planned]
    · rw [← Except.ok.inj planned] at wrapped
      cases wrapped

/-- The first string object is at address 0. -/
theorem layoutConsts_first {consts : List MirConst} {refs : List (Option StringRef)} {stop : Nat}
    (laidOut : layoutConsts 0 consts = some (refs, stop)) (some_string : ∃ const ∈ consts, const.kind = .STRING) :
    ∃ ref, some ref ∈ refs ∧ ref.objectOffset = 0 := by
  induction consts generalizing refs stop with
  | nil =>
    obtain ⟨const, inConsts, _⟩ := some_string
    cases inConsts
  | cons first rest ih =>
    rw [layoutConsts] at laidOut
    by_cases string : first.kind = .STRING
    · rw [if_pos string] at laidOut
      simp only [Option.bind_eq_bind, Option.bind_eq_some_iff, Option.pure_def, Option.some.injEq] at laidOut
      obtain ⟨next, _, ⟨refs', stop'⟩, _, same⟩ := laidOut
      rw [← (Prod.mk.inj same).1]
      exact ⟨_, List.mem_cons_self, rfl⟩
    · rw [if_neg string] at laidOut
      simp only [Option.bind_eq_bind, Option.bind_eq_some_iff, Option.pure_def, Option.some.injEq] at laidOut
      obtain ⟨⟨refs', stop'⟩, laterLaidOut, same⟩ := laidOut
      obtain ⟨const, inConsts, isString⟩ := some_string
      have later : const ∈ rest := by
        rcases List.mem_cons.mp inConsts with here | later
        · exact absurd (here ▸ isString) string
        · exact later
      obtain ⟨ref, inRefs, zero⟩ := ih laterLaidOut ⟨const, later, isString⟩
      rw [← (Prod.mk.inj same).1]
      exact ⟨ref, List.mem_cons_of_mem _ inRefs, zero⟩

theorem layoutConsts_none {consts : List MirConst} {refs : List (Option StringRef)} {len stop : Nat}
    (laidOut : layoutConsts len consts = some (refs, stop)) (noStrings : ∀ const ∈ consts, const.kind ≠ .STRING) :
    ∀ ref, some ref ∉ refs := by
  induction consts generalizing refs stop with
  | nil =>
    rw [layoutConsts, Option.some.injEq] at laidOut
    rw [← (Prod.mk.inj laidOut).1]
    intro ref inRefs
    cases inRefs
  | cons first rest ih =>
    rw [layoutConsts, if_neg (noStrings first List.mem_cons_self)] at laidOut
    simp only [Option.bind_eq_bind, Option.bind_eq_some_iff, Option.pure_def, Option.some.injEq] at laidOut
    obtain ⟨⟨refs', stop'⟩, laterLaidOut, same⟩ := laidOut
    rw [← (Prod.mk.inj same).1]
    intro ref inRefs
    rcases List.mem_cons.mp inRefs with here | later
    · cases here
    · exact ih laterLaidOut (fun const later => noStrings const (List.mem_cons_of_mem _ later)) ref later

theorem buildStringLayout_constRefs {unit : CodegenUnit} {imports : ImportLayout} {strings : StringLayout}
    (built : unit.buildStringLayout imports = some strings) :
    ∃ stop, layoutConsts 0 unit.mirProgram.consts = some (strings.constRefs, stop) := by
  simp only [CodegenUnit.buildStringLayout, Option.bind_eq_bind, Option.bind_eq_some_iff, Option.pure_def,
    Option.some.injEq] at built
  obtain ⟨⟨refs, stop⟩, laidOut, _, _, _, _, _, _, _, _, same⟩ := built
  rw [← same]
  exact ⟨stop, laidOut⟩

/-- Only a unit with functions needs a context. -/
theorem CodegenUnit.funcLen_pos_of_hasInst {unit : CodegenUnit} {reachable : List Bool} {wanted : MirInst → Bool}
    (has : unit.hasInst reachable wanted = true) : 0 < unit.funcLen := by
  rw [CodegenUnit.hasInst, List.any_eq_true] at has
  obtain ⟨i, inRange, _⟩ := has
  rw [List.mem_range] at inRange
  omega

namespace ModulePlan

variable {unit : CodegenUnit} {plan : ModulePlan}

/-- The handlers of the context have table indices behind those of the functions. -/
theorem handler_ne_zero (planned : unit.Planned plan) :
    ∀ i ∈ plan.imports.rootAllocTableIndex.toList ++ plan.imports.wasmMinLoggerTableIndex.toList, i ≠ 0 := by
  have same := CodegenUnit.analyzeImports_eq planned.imports
  intro i handler
  rw [same] at handler
  simp only [CodegenUnit.importLayout, List.mem_append, Option.mem_toList] at handler
  have positive : 0 < unit.funcLen ∨ i ≠ 0 := by
    by_cases alloc : unit.programNeedsRootAllocator unit.reachableFunctions = true
    · exact .inl (CodegenUnit.funcLen_pos_of_hasInst alloc)
    by_cases logger : unit.programNeedsRootLogger unit.reachableFunctions = true
    · exact .inl (CodegenUnit.funcLen_pos_of_hasInst logger)
    rw [Bool.not_eq_true] at alloc logger
    simp only [alloc, logger, Bool.and_false, Bool.or_false] at handler
    rcases handler with none | none <;> cases none
  rcases positive with positive | done
  · rcases handler with isAlloc | isLogger
    · split at isAlloc
      · rw [Option.some.injEq] at isAlloc
        omega
      · cases isAlloc
    · split at isLogger
      · rw [Option.some.injEq] at isLogger
        omega
      · cases isLogger
  · exact done

theorem functionValues_ne_zero_iff (planned : unit.Planned plan) :
    (∀ i ∈ plan.functionValues, i ≠ 0) ↔
      ∀ i ∈ plan.unit.definedFunctions plan.imports.reachableFunctions, ∀ inst ∈ plan.unit.code i,
        plan.functionValue inst ≠ some 0 := by
  constructor
  · intro nonzero i defined inst inCode isZero
    apply nonzero 0 _ rfl
    rw [functionValues, List.mem_append, List.mem_flatMap]
    exact .inr ⟨i, defined, List.mem_filterMap.mpr ⟨inst, inCode, isZero⟩⟩
  · intro noFirst i value zero
    rw [functionValues, List.mem_append, List.mem_flatMap] at value
    rcases value with handler | ⟨f, defined, inValues⟩
    · exact handler_ne_zero planned i handler zero
    · obtain ⟨inst, inCode, isValue⟩ := List.mem_filterMap.mp inValues
      rw [zero] at isValue
      exact noFirst f defined inst inCode isValue

/-- Where the static regions are, if they fit. -/
theorem static_within (planned : unit.Planned plan) (laidOut : plan.LaidOut) :
    (∀ r ∈ plan.staticRegions, r.Within 0 plan.heapBaseInit.toNat) ∧ plan.staticRegions.Pairwise Region.Apart ∧
      plan.heapBaseInit.toNat ≤ plan.memorySize := by
  have small := plan.memorySize_small
  have dataFits := laidOut.dataFits
  have len : (UInt32.ofNat plan.strings.dataLen).toNat = plan.strings.dataLen := by
    rw [UInt32.toNat_ofNat', Nat.mod_eq_of_lt (by omega)]
  obtain ⟨above, inside⟩ := @align4_bounds plan (UInt32.ofNat plan.strings.dataLen) (by omega)
  rw [len] at above
  by_cases wrapped : plan.entry.hasWrapper = true
  · have offset := planEntryLayout_resultOffset planned.entry wrapped
    have fits := laidOut.resultFits wrapped
    have stop : (plan.entry.resultOffset + plan.entry.resultSize).toNat
        = plan.entry.resultOffset.toNat + plan.entry.resultSize.toNat := by
      rw [UInt32.toNat_add, Nat.mod_eq_of_lt (by omega)]
    obtain ⟨resultAbove, resultInside⟩ :=
      @align4_bounds plan (plan.entry.resultOffset + plan.entry.resultSize) (by omega)
    have base : plan.entry.resultOffset.toNat + plan.entry.resultSize.toNat ≤ plan.heapBaseInit.toNat ∧
        plan.heapBaseInit.toNat ≤ plan.memorySize := by
      rw [heapBaseInit, staticDataEnd, ← offset]
      split
      · exact ⟨by omega, resultInside⟩
      · rename_i low
        have order : ¬ plan.entry.resultOffset.toNat
            < (align4 (plan.entry.resultOffset + plan.entry.resultSize)).toNat :=
          fun less => low ⟨wrapped, UInt32.lt_iff_toNat_lt.mpr less⟩
        omega
    rw [staticRegions, if_pos wrapped]
    refine ⟨?_, ?_, by omega⟩
    · intro r inStatic
      rw [List.mem_cons, List.mem_singleton] at inStatic
      rcases inStatic with data | result
      · rw [data]
        constructor
        · exact le_rfl
        · simp only [Region.stop]
          rw [← offset] at above
          omega
      · rw [result]
        constructor
        · exact Nat.zero_le _
        · simp only [Region.stop]
          omega
    · rw [List.pairwise_pair]
      apply Region.apart_of_le
      simp only [Region.stop]
      rw [offset]
      omega
  · have base : plan.heapBaseInit = align4 (UInt32.ofNat plan.strings.dataLen) := by
      rw [heapBaseInit, staticDataEnd, if_neg (fun both => wrapped both.1)]
    rw [staticRegions, if_neg wrapped, base]
    refine ⟨?_, List.pairwise_singleton _ _, inside⟩
    intro r inStatic
    rw [List.mem_singleton] at inStatic
    rw [inStatic]
    constructor
    · exact le_rfl
    · simp only [Region.stop]
      omega

theorem frameBaseInit_bounds (inside : plan.heapBaseInit.toNat ≤ plan.memorySize) :
    plan.heapBaseInit.toNat ≤ plan.frameBaseInit.toNat ∧ plan.frameBaseInit.toNat ≤ plan.memorySize := by
  have page : 65536 ≤ plan.memorySize := by
    simp only [memorySize, memoryPages, pageSize]
    split
    · omega
    · split <;> omega
  have literal : (65536 : UInt32).toNat = 65536 := rfl
  rw [frameBaseInit]
  split
  · rename_i low
    have below := UInt32.le_iff_toNat_le.mp low.2
    omega
  · exact ⟨le_rfl, inside⟩

/-- A state in which blocks and frames are in order is safe, if the static part is laid out. -/
theorem Ordered.memorySafe (planned : unit.Planned plan) (laidOut : plan.LaidOut) {s : RunState}
    (ordered : plan.Ordered s) : plan.MemorySafe s := by
  obtain ⟨static, staticApart, heapInside⟩ := static_within planned laidOut
  obtain ⟨order, frameInside⟩ := frameBaseInit_bounds heapInside
  have blocks : ∀ b ∈ s.blocks, b.Within plan.heapBaseInit.toNat plan.frameBaseInit.toNat :=
    fun b inBlocks => ⟨(ordered.blocks.within b inBlocks).1, (ordered.low b inBlocks).1⟩
  have frames : ∀ f ∈ s.frames, f.Within plan.frameBaseInit.toNat plan.memorySize :=
    fun f inFrames => (ordered.frames.within f inFrames).mono le_rfl ordered.room
  have lower : ∀ r ∈ plan.staticRegions ++ s.blocks, r.Within 0 plan.frameBaseInit.toNat := by
    intro r inLower
    rcases List.mem_append.mp inLower with inStatic | inBlocks
    · exact (static r inStatic).mono le_rfl order
    · exact (blocks r inBlocks).mono (Nat.zero_le _) le_rfl
  constructor
  · exact Region.apart_append (Region.apart_append staticApart ordered.blocks.apart static blocks) ordered.frames.apart
      lower frames
  · intro r inRegions
    rcases List.mem_append.mp inRegions with inLower | inFrames
    · exact (lower r inLower).2.trans frameInside
    · exact (frames r inFrames).2
  · obtain ⟨stop, consts⟩ := buildStringLayout_constRefs planned.strings
    intro ref inRefs
    exact absurd inRefs (layoutConsts_none consts (planned.unit_eq ▸ laidOut.noStrings) ref)
  · intro b inBlocks
    have positive := (ordered.low b inBlocks).2
    omega
  · intro f inFrames
    have positive := ordered.positive f inFrames
    omega
  · exact (functionValues_ne_zero_iff planned).mpr laidOut.noFirstFunction

/-- A state that is safe shows that the static part is laid out. -/
theorem MemorySafe.laidOut (planned : unit.Planned plan) {s : RunState} (safe : plan.MemorySafe s) : plan.LaidOut where
  dataFits := by
    have inside := safe.inside ⟨0, plan.strings.dataLen⟩
      (List.mem_append_left _ (List.mem_append_left _ List.mem_cons_self))
    simpa only [Region.stop, Nat.zero_add] using inside
  noStrings := by
    obtain ⟨stop, consts⟩ := buildStringLayout_constRefs planned.strings
    intro const inConsts isString
    rw [planned.unit_eq] at inConsts
    obtain ⟨ref, inRefs, zero⟩ := layoutConsts_first consts ⟨const, inConsts, isString⟩
    exact safe.strings ref inRefs zero
  resultFits := by
    intro wrapped
    apply safe.inside ⟨plan.entry.resultOffset.toNat, plan.entry.resultSize.toNat⟩
    rw [staticRegions, if_pos wrapped]
    exact List.mem_append_left _ (List.mem_append_left _ (List.mem_cons_of_mem _ List.mem_cons_self))
  noFirstFunction := (functionValues_ne_zero_iff planned).mp safe.functions

end ModulePlan

/-- A program of one main function that runs these instructions, for no platform. -/
def mainUnit (insts : List MirInst) (short : insts.length < 100) : CodegenUnit where
  mirProgram :=
    { insts := insts
      consts := []
      sources := [bytesOf "main"]
      funcs := [⟨0, UInt32.ofNat insts.length, 0, 0, 0, 0, noTypeRef, 0, 4, 0, 0⟩]
      locals := []
      fields := []
      types := []
      hosts := []
      symbols := []
      lengths := by
        have bound : 100 < UInt32.size := by decide
        intro n isLength
        simp only [List.mem_cons, List.not_mem_nil, or_false] at isLength
        rcases isLength with same | same | same | same | same | same | same | same | same <;>
          simp only [same, List.length_cons, List.length_nil] <;> omega }
  foreign := []
  platformTarget := none
  usesPlatform := false
  kinds := ⟨fun _ => some .VOID, fun _ _ => none, fun _ => none⟩

/-- The plan of such a program with these static data. -/
def mainPlan (unit : CodegenUnit) (strings : StringLayout) : ModulePlan where
  unit := unit
  sigs := [⟨0, [], [], .VOID, [], false, noTypeRef⟩]
  imports := unit.importLayout [true]
  strings := strings
  entry := { EntryLayout.none with mainFuncIndex := some 0 }

/-- A main function that asks for the allocator of the context. -/
def contextUnit : CodegenUnit := mainUnit [⟨.CTX_GET, 0, 1, 0, 0⟩, ⟨.RETURN_VOID, 0, 0, 0, 0⟩] (by decide)

def contextPlan : ModulePlan := mainPlan contextUnit ⟨[], 60, some ⟨4, 1, 0⟩, none, none, none⟩

def eightBytes : AllocRequest := ⟨0, 8, 0, 65536, 0, 8⟩

/-- A main function that allocates a slice without an allocator. -/
def allocUnit : CodegenUnit := mainUnit [⟨.ALLOC_NEW, 0x40, 0, 0, 0⟩, ⟨.RETURN_VOID, 0, 0, 0, 0⟩] (by decide)

def allocPlan : ModulePlan := mainPlan allocUnit ⟨[], 0, none, none, none, none⟩

end HopHop.Wasm
