import HopHop.Region
import HopHop.WasmLayout

namespace HopHop.Wasm

/-- The arguments of a call of the root allocator, with the size that is stored where it looks for it. -/
structure AllocRequest where
  addr : UInt32
  align : UInt32
  curSize : UInt32
  newSizePtr : UInt32
  flags : UInt32
  newSize : UInt32
  deriving DecidableEq, Repr

/-- The root allocator answers 0 to such a request and does nothing. -/
def AllocRequest.isRefused (r : AllocRequest) : Bool :=
  r.newSizePtr = 0 ∨ r.addr ≠ 0 ∨ r.curSize ≠ 0 ∨ r.flags ≠ 0 ∨ r.align = 0

/-- The alignment of a block: at least 4. -/
def AllocRequest.blockAlign (r : AllocRequest) : UInt32 := if r.align < 4 then 4 else r.align

/-- The loop that clears the bytes from an address up to another one, with a bound on how many there are. A store past
the end of the memory traps. -/
def clears (memory : Nat) (stop : UInt32) : Nat → UInt32 → Bool
  | 0, _ => true
  | left + 1, cursor =>
    if stop ≤ cursor then true else if cursor.toNat < memory then clears memory stop left (cursor + 1) else false

/-- What a request of memory leads to: the heap starts further up, and there may be a new block. -/
structure Granted where
  heap : UInt32
  block : Option Region
  deriving DecidableEq, Repr

/-- The body of the root allocator; `none` when it traps. -/
def rootAlloc (memory : Nat) (heap : UInt32) (r : AllocRequest) : Option Granted :=
  if r.isRefused then some ⟨heap, none⟩
  else if memory < r.newSizePtr.toNat + 4 then none
  else if r.newSize = 0 then some ⟨heap, none⟩
  else
    let align := r.blockAlign
    let base := (heap + (align - 1)) &&& (0 - align)
    if clears memory (base + r.newSize) (base + r.newSize).toNat base then
      some ⟨base + r.newSize, some ⟨base.toNat, r.newSize.toNat⟩⟩
    else none

/-- The allocations that take memory from the heap without an allocator: a slice, which is not cleared, a number of
bytes that is counted out, and a type of known size. -/
inductive BumpKind
  | slice | counted | fixed
  deriving DecidableEq, Repr

/-- The allocation without an allocator; `none` when it traps. -/
def bumpAlloc (memory : Nat) (heap : UInt32) (kind : BumpKind) (size : UInt32) : Option Granted :=
  let granted : Granted := ⟨heap + align4 size, some ⟨heap.toNat, size.toNat⟩⟩
  match kind with
  | .slice => some granted
  | .counted => if clears memory (heap + size) (heap + size).toNat heap then some granted else none
  | .fixed =>
    if (List.range size.toNat).all fun i => (heap + UInt32.ofNat i).toNat < memory then some granted else none

/-- What the code of a module does to the regions of its memory: the entry of a function that has a frame, its return,
and the allocations. -/
inductive Event
  | enter (frameSize : UInt32)
  | leave
  | rootAlloc (request : AllocRequest)
  | bump (kind : BumpKind) (size : UInt32)
  deriving DecidableEq, Repr

/-- The two globals that move, the blocks that were handed out and the frames of the active calls, the last first. -/
structure RunState where
  heap : UInt32
  frame : UInt32
  blocks : List Region
  frames : List Region
  deriving DecidableEq, Repr

def RunState.grant (s : RunState) (granted : Granted) : RunState :=
  { s with heap := granted.heap, blocks := granted.block.toList ++ s.blocks }

namespace ModulePlan

variable (plan : ModulePlan)

def initialState : RunState := ⟨plan.heapBaseInit, plan.frameBaseInit, [], []⟩

/-- One event; `none` when it traps or cannot happen: only a function with a frame allocates. -/
def step (s : RunState) : Event → Option RunState
  | .enter frameSize =>
    some { s with frame := s.frame + frameSize, frames := ⟨s.frame.toNat, frameSize.toNat⟩ :: s.frames }
  | .leave =>
    match s.frames with
    | [] => none
    | top :: frames => some { s with frame := UInt32.ofNat top.base, frames }
  | .rootAlloc request => if s.frames = [] then none else (rootAlloc plan.memorySize s.heap request).map s.grant
  | .bump kind size => if s.frames = [] then none else (bumpAlloc plan.memorySize s.heap kind size).map s.grant

/-- The states of the runs whose events are all admitted. -/
inductive Reached (admits : RunState → Event → Prop) : RunState → Prop
  | start : Reached admits plan.initialState
  | step {s s' : RunState} {event : Event} :
    Reached admits s → admits s event → plan.step s event = some s' → Reached admits s'

/-! ### What the regions have to be -/

/-- The static data and the place of the result of the main function. -/
def staticRegions : List Region :=
  ⟨0, plan.strings.dataLen⟩ ::
    (if plan.entry.hasWrapper then [⟨plan.entry.resultOffset.toNat, plan.entry.resultSize.toNat⟩] else [])

/-- The table index that an instruction pushes. -/
def functionValue (inst : MirInst) : Option Nat :=
  if inst.op = .PUSH_CONST ∨ inst.op = .MAKE_CLOSURE then plan.unit.functionConst inst.aux else none

/-- The table indices of the functions that values stand for, in the code and in the context. -/
def functionValues : List Nat :=
  plan.imports.rootAllocTableIndex.toList ++ plan.imports.wasmMinLoggerTableIndex.toList ++
    (plan.unit.definedFunctions plan.imports.reachableFunctions).flatMap fun i =>
      (plan.unit.code i).filterMap plan.functionValue

/-- The regions of the memory are apart and inside it, and nothing that has an address has that of null. -/
structure MemorySafe (s : RunState) : Prop where
  apart : (plan.staticRegions ++ s.blocks ++ s.frames).Pairwise Region.Apart
  inside : ∀ r ∈ plan.staticRegions ++ s.blocks ++ s.frames, r.stop ≤ plan.memorySize
  strings : ∀ ref, some ref ∈ plan.strings.constRefs → ref.objectOffset ≠ 0
  blocks : ∀ r ∈ s.blocks, r.base ≠ 0
  frames : ∀ r ∈ s.frames, r.base ≠ 0
  functions : ∀ i ∈ plan.functionValues, i ≠ 0

/-- The static part of the memory is one that leaves null alone: there is no string object, the function of index 0 is
no value, and the data and the result of the main function fit. -/
structure LaidOut : Prop where
  dataFits : plan.strings.dataLen ≤ plan.memorySize
  noStrings : ∀ const ∈ plan.unit.mirProgram.consts, const.kind ≠ .STRING
  resultFits : plan.entry.hasWrapper = true →
    plan.entry.resultOffset.toNat + plan.entry.resultSize.toNat ≤ plan.memorySize
  noFirstFunction : ∀ i ∈ plan.unit.definedFunctions plan.imports.reachableFunctions, ∀ inst ∈ plan.unit.code i,
    plan.functionValue inst ≠ some 0

/-- The next address that an alignment allows: the bits below it are cleared. -/
def nextAddress (heap align : Nat) : Nat := heap + (align - 1) - ((heap + (align - 1)) &&& (align - 1))

/-- An event that leaves the regions where they belong: a frame ends inside the memory, a block ends where the frames
start, and neither begins at 0. -/
def Fits (s : RunState) : Event → Prop
  | .enter frameSize => 0 < s.frame ∧ s.frame.toNat + frameSize.toNat ≤ plan.memorySize
  | .leave => True
  | .rootAlloc r =>
    r.isRefused = true ∨ r.newSize = 0 ∨ 0 < s.heap ∧ s.heap.toNat + (r.blockAlign.toNat - 1) < 2 ^ 32 ∧
      nextAddress s.heap.toNat r.blockAlign.toNat + r.newSize.toNat ≤ plan.frameBaseInit.toNat
  | .bump _ size => 0 < s.heap ∧ s.heap.toNat + size.toNat ≤ plan.frameBaseInit.toNat

end ModulePlan

end HopHop.Wasm
