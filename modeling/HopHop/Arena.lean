import HopHop.Region
import Mathlib.Data.Nat.Bitwise

namespace HopHop

/-! ### The arena -/

/-- A block of the arena: its payload starts at `mem`, `cap` bytes long, of which `len` are used. -/
structure ArenaBlock where
  mem : Option Nat
  cap : Nat
  len : Nat
  allocSize : Nat
  owned : Bool
  deriving DecidableEq, Repr

/-- The chain of blocks from the inline one on, and the position where the next allocation starts to look. -/
structure Arena where
  hasGrow : Bool
  inlineBlock : ArenaBlock
  more : List ArenaBlock
  current : Nat
  deriving DecidableEq, Repr

/-- A grow callback: for a size the address and the size of a block, or a failure. -/
abbrev GrowFn := Nat → Option (Nat × Nat)

def uint32Max : Nat := 2 ^ 32 - 1

namespace Arena

def blocks (arena : Arena) : List ArenaBlock := arena.inlineBlock :: arena.more

def withBlocks (arena : Arena) (current : Nat) : List ArenaBlock → Arena
  | [] => arena
  | inlineBlock :: more => { arena with inlineBlock, more, current }

/-- `H2ArenaInitEx`. -/
def initEx (storage : Option Nat) (storageSize : Nat) (hasGrow : Bool) : Arena where
  hasGrow := hasGrow
  inlineBlock := ⟨storage, storageSize, 0, storageSize, false⟩
  more := []
  current := 0

def reset (arena : Arena) : Arena where
  hasGrow := arena.hasGrow
  inlineBlock := { arena.inlineBlock with len := 0 }
  more := arena.more.map fun block => { block with len := 0 }
  current := 0

/-- The owned blocks are freed. -/
def dispose (arena : Arena) : Arena where
  hasGrow := arena.hasGrow
  inlineBlock := { arena.inlineBlock with len := 0 }
  more := []
  current := 0

end Arena

/-- `(value + (align - 1)) & ~(align - 1)` in 64 bits. -/
def alignUp (value align : Nat) : Nat := (value + (align - 1)) &&& (2 ^ 64 - 1 - (align - 1))

/-- The address of the allocation and the block after it. -/
def tryAllocInBlock (size align : Nat) (block : ArenaBlock) : Option (Nat × ArenaBlock) :=
  block.mem.bind fun mem =>
    let aligned := alignUp block.len align
    let stop := aligned + size
    if block.cap < stop then none else some (mem + aligned, { block with len := stop % 2 ^ 32 })

/-- The walk along the chain: how far it went, the address, and the rest of the chain after the allocation. -/
def allocInChain (size align : Nat) : List ArenaBlock → Option (Nat × Nat × List ArenaBlock)
  | [] => none
  | block :: rest =>
    match tryAllocInBlock size align block with
    | some (p, block) => some (0, p, block :: rest)
    | none => (allocInChain size align rest).map fun (k, p, rest) => (k + 1, p, block :: rest)

/-- The payload asked for when the last block has capacity `cap`. -/
def targetPayload (cap minPayload : Nat) : Nat :=
  if 0 < cap ∧ minPayload < cap then
    let doubled := if cap ≤ uint32Max / 2 then cap * 2 else uint32Max
    if doubled < minPayload then minPayload else doubled
  else minPayload

def normalAlign (align : Nat) : Nat := if align = 0 then 1 else align

section Alloc

-- The size of the header of a grown block.
variable (headerSize : Nat)

namespace Arena

def lastCap (arena : Arena) : Nat := (arena.blocks.getLast (List.cons_ne_nil _ _)).cap

/-- What `grow` is asked for. -/
def requestedSize (arena : Arena) (size align : Nat) : Nat :=
  headerSize + targetPayload arena.lastCap (size + align - 1)

def growBlock (arena : Arena) (size align : Nat) (block : ArenaBlock) : Option Nat × Arena :=
  match tryAllocInBlock size align block with
  | some (p, block) => (some p, { arena with more := arena.more ++ [block], current := arena.blocks.length })
  | none => (none, { arena with more := arena.more ++ [block], current := arena.blocks.length })

/-- `H2ArenaAlloc` after no block had room. -/
def growAlloc (arena : Arena) (grow : GrowFn) (size align : Nat) : Option Nat × Arena :=
  if arena.hasGrow = false then (none, arena)
  else if uint32Max - (align - 1) < size then (none, arena)
  else if uint32Max < arena.requestedSize headerSize size align then (none, arena)
  else
    match grow (arena.requestedSize headerSize size align) with
    | none => (none, arena)
    | some (allocMem, allocSize) =>
      if allocSize < headerSize + (size + align - 1) then (none, arena)
      else arena.growBlock size align ⟨some (allocMem + headerSize), allocSize - headerSize, 0, allocSize, true⟩

def alloc (arena : Arena) (grow : GrowFn) (size align_ : Nat) : Option Nat × Arena :=
  let align := normalAlign align_
  if align &&& (align - 1) ≠ 0 then (none, arena)
  else
    match allocInChain size align (arena.blocks.drop arena.current) with
    | some (k, p, rest) =>
      (some p, arena.withBlocks (arena.current + k) (arena.blocks.take arena.current ++ rest))
    | none => arena.growAlloc headerSize grow size align

end Arena

end Alloc

/-! ### Aligned offsets -/

theorem mask_two_pow {value k : Nat} (small : value < 2 ^ 64) (fits : k ≤ 64) :
    value &&& (2 ^ 64 - 1 - (2 ^ k - 1)) = 2 ^ k * (value / 2 ^ k) := by
  have positive : 0 < 2 ^ k := Nat.two_pow_pos k
  have bound : 2 ^ k ≤ 2 ^ 64 := Nat.pow_le_pow_right (by decide) fits
  have complement : 2 ^ 64 - 1 - (2 ^ k - 1) = 2 ^ 64 - ((2 ^ k - 1) + 1) := by omega
  apply Nat.eq_of_testBit_eq
  intro i
  rw [complement, Nat.testBit_and, Nat.testBit_two_pow_sub_succ (by omega), Nat.testBit_two_pow_sub_one,
    Nat.testBit_two_pow_mul, Nat.testBit_div_two_pow]
  by_cases low : i < k
  · simp [low]
  · by_cases high : i < 64
    · simp [low, high, show k ≤ i by omega]
    · have none_ : value.testBit i = false := Nat.testBit_lt_two_pow (small.trans_le
        (Nat.pow_le_pow_right (by decide) (by omega)))
      simp [low, high, show i - k + k = i by omega, none_]

/-- The next multiple of a power of two. -/
theorem alignUp_two_pow {value k : Nat} (small : value + 2 ^ k ≤ 2 ^ 64) (fits : k ≤ 64) :
    2 ^ k ∣ alignUp value (2 ^ k) ∧ value ≤ alignUp value (2 ^ k) ∧
      alignUp value (2 ^ k) < value + 2 ^ k := by
  have positive : 0 < 2 ^ k := Nat.two_pow_pos k
  rw [alignUp, mask_two_pow (by omega) fits]
  have split := Nat.div_add_mod (value + (2 ^ k - 1)) (2 ^ k)
  have below := Nat.mod_lt (value + (2 ^ k - 1)) positive
  exact ⟨Nat.dvd_mul_right _ _, by omega, by omega⟩

theorem isPowerOfTwo_of_and {align : Nat} (positive : align ≠ 0) (zero : align &&& (align - 1) = 0) :
    ∃ k, align = 2 ^ k := by
  have power := (Nat.and_sub_one_eq_zero_iff_isPowerOfTwo positive).mp zero
  exact power

/-! ### One allocation -/

section Spec

variable {size align p : Nat} {block block' : ArenaBlock}

/-- A block gives a region behind its used part, aligned within its payload. -/
structure Gives (size align : Nat) (block : ArenaBlock) (p : Nat) (block' : ArenaBlock) : Prop where
  place : ∃ mem aligned, block.mem = some mem ∧ p = mem + aligned ∧ align ∣ aligned ∧
      block.len ≤ aligned ∧
    aligned + size = block'.len
  mem : block'.mem = block.mem
  cap : block'.cap = block.cap
  fits : block'.len ≤ block'.cap

theorem tryAllocInBlock_gives (power : ∃ k, align = 2 ^ k) (small : align < 2 ^ 32) (capSmall : block.cap < 2 ^ 32)
    (lenSmall : block.len < 2 ^ 32) (given : tryAllocInBlock size align block = some (p, block')) :
    Gives size align block p block' := by
  obtain ⟨k, rfl⟩ := power
  obtain ⟨mem, isMem, placed⟩ := Option.bind_eq_some_iff.mp given
  dsimp only at placed
  rw [Option.ite_none_left_eq_some] at placed
  obtain ⟨fits, same⟩ := placed
  cases same
  have exponent : k ≤ 64 := by
    by_contra large
    have grows : 2 ^ 64 ≤ 2 ^ k := Nat.pow_le_pow_right (by decide) (by omega)
    omega
  have bounded : block.len + 2 ^ k ≤ 2 ^ 64 := by omega
  obtain ⟨divides, above, -⟩ := alignUp_two_pow bounded exponent
  have noWrap : (alignUp block.len (2 ^ k) + size) % 2 ^ 32 = alignUp block.len (2 ^ k) + size :=
    Nat.mod_eq_of_lt (by omega)
  refine ⟨⟨mem, _, isMem, rfl, divides, above, ?_⟩, rfl, rfl, ?_⟩
  · dsimp only
    rw [noWrap]
  · dsimp only
    rw [noWrap]
    omega

/-- In an empty block the region starts at once. -/
theorem tryAllocInBlock_empty {mem cap allocSize k : Nat} {owned : Bool} (exponent : 2 ^ k < 2 ^ 32)
    (fits : size + (2 ^ k - 1) ≤ cap) :
    ∃ given, tryAllocInBlock size (2 ^ k) ⟨some mem, cap, 0, allocSize, owned⟩ = some given := by
  have positive : 0 < 2 ^ k := Nat.two_pow_pos k
  have small : k ≤ 64 := by
    by_contra large
    have grows : 2 ^ 64 ≤ 2 ^ k := Nat.pow_le_pow_right (by decide) (by omega)
    omega
  have start : alignUp 0 (2 ^ k) = 0 := by
    rw [alignUp, mask_two_pow (by omega) small, Nat.zero_add, Nat.div_eq_of_lt (by omega), Nat.mul_zero]
  rw [tryAllocInBlock, Option.bind_some]
  dsimp only
  rw [start, if_neg (by omega)]
  exact ⟨_, rfl⟩

/-- The walk stops at the first block that gives a region. -/
theorem allocInChain_some {blocks rest : List ArenaBlock} {k : Nat}
    (found : allocInChain size align blocks = some (k, p, rest)) :
    ∃ before block block' after, blocks = before ++ block :: after ∧ rest = before ++ block' :: after ∧
      before.length = k ∧ tryAllocInBlock size align block = some (p, block') := by
  induction blocks generalizing k rest with
  | nil => cases found
  | cons first blocks ih =>
    rw [allocInChain] at found
    cases given : tryAllocInBlock size align first with
    | some result =>
      obtain ⟨q, first'⟩ := result
      rw [given] at found
      cases found
      exact ⟨[], first, first', blocks, rfl, rfl, rfl, given⟩
    | none =>
      rw [given] at found
      obtain ⟨⟨j, q, others⟩, later, same⟩ := Option.map_eq_some_iff.mp found
      cases same
      obtain ⟨before, block, block', after, rfl, rfl, rfl, given'⟩ := ih later
      exact ⟨first :: before, block, block', after, rfl, rfl, rfl, given'⟩

theorem allocInChain_none {blocks : List ArenaBlock} : allocInChain size align blocks = none ↔
    ∀ block ∈ blocks, tryAllocInBlock size align block = none := by
  induction blocks with
  | nil => exact ⟨fun _ _ member => (by cases member), fun _ => rfl⟩
  | cons first blocks ih =>
    rw [allocInChain]
    cases given : tryAllocInBlock size align first with
    | some result =>
      constructor
      · intro absurd_
        cases absurd_
      · intro all
        rw [all first List.mem_cons_self] at given
        cases given
    | none =>
      dsimp only
      rw [Option.map_eq_none_iff, ih]
      constructor
      · intro all block member
        rcases List.mem_cons.mp member with rfl | later
        · exact given
        · exact all block later
      · intro all block member
        exact all block (List.mem_cons_of_mem _ member)

end Spec

/-! ### What holds of every reachable arena -/

/-- The payload of a block, with the addresses it would have without a null pointer. -/
def ArenaBlock.Below (a b : ArenaBlock) : Prop :=
  ∀ m n, a.mem = some m → b.mem = some n → m + a.cap ≤ n ∨ n + b.cap ≤ m

/-- A region that an allocation returned, with the alignment it asked for. -/
structure ArenaRegion where
  region : Region
  align : Nat
  deriving DecidableEq, Repr

/-- The arena and the regions returned since the last reset. -/
structure ArenaState where
  arena : Arena
  live : List ArenaRegion
  deriving DecidableEq, Repr

/-- The region lies in the used part of the block, at an aligned offset of its payload. -/
def ArenaRegion.InBlock (r : ArenaRegion) (block : ArenaBlock) : Prop :=
  ∃ mem, block.mem = some mem ∧ r.region.Within mem (mem + block.len) ∧ r.align ∣ r.region.base - mem

structure ArenaState.Sound (s : ArenaState) : Prop where
  bounded : ∀ block ∈ s.arena.blocks, block.len ≤ block.cap ∧ block.cap < 2 ^ 32
  apart : s.arena.blocks.Pairwise ArenaBlock.Below
  inside : ∀ r ∈ s.live, ∃ block ∈ s.arena.blocks, r.InBlock block
  disjoint : s.live.Pairwise fun r q => r.region.Apart q.region

/-- The callback answers with a block of the size asked for, away from the blocks of the arena. -/
def GrowFn.Fresh (grow : GrowFn) (arena : Arena) : Prop :=
  ∀ requested allocMem allocSize, grow requested = some (allocMem, allocSize) →
    requested ≤ allocSize ∧ allocSize < 2 ^ 32 ∧
      ∀ block ∈ arena.blocks, ∀ mem, block.mem = some mem →
        allocMem + allocSize ≤ mem ∨ mem + block.cap ≤ allocMem

theorem ArenaRegion.InBlock.apart {r q : ArenaRegion} {a b : ArenaBlock} (inA : r.InBlock a) (inB : q.InBlock b)
    (lenA : a.len ≤ a.cap) (lenB : b.len ≤ b.cap) (below : a.Below b) : r.region.Apart q.region := by
  obtain ⟨m, memA, ⟨lowA, highA⟩, -⟩ := inA
  obtain ⟨n, memB, ⟨lowB, highB⟩, -⟩ := inB
  rcases below m n memA memB with first | second
  · exact Region.apart_of_le (by omega)
  · exact (Region.apart_of_le (by omega)).symm

/-- A block takes the place of one it extends, and gives one more region. -/
theorem ArenaState.Sound.place {s : ArenaState} (sound : s.Sound) {before after : List ArenaBlock}
    {block block' : ArenaBlock} (split : s.arena.blocks = before ++ block :: after) {size align p : Nat}
    (gives : Gives size align block p block') {arena : Arena} (blocks : arena.blocks = before ++ block' :: after) :
    ArenaState.Sound ⟨arena, ⟨⟨p, size⟩, align⟩ :: s.live⟩ := by
  obtain ⟨⟨mem, aligned, isMem, rfl, divides, above, stop⟩, sameMem, sameCap, fits⟩ := gives
  have isBlock : block ∈ s.arena.blocks := by
    rw [split]
    exact List.mem_append_right _ List.mem_cons_self
  have isOld : ∀ other ∈ before ++ after, other ∈ s.arena.blocks := by
    intro other member
    rw [split]
    rcases List.mem_append.mp member with first | last
    · exact List.mem_append_left _ first
    · exact List.mem_append_right _ (List.mem_cons_of_mem _ last)
  have isNew : ∀ other, other ∈ arena.blocks ↔ other = block' ∨ other ∈ before ++ after := by
    intro other
    rw [blocks]
    simp only [List.mem_append, List.mem_cons]
    tauto
  have pairs := sound.apart
  rw [split, List.pairwise_append, List.pairwise_cons] at pairs
  obtain ⟨pairsBefore, ⟨pairBlock, pairsAfter⟩, pairsCross⟩ := pairs
  have own : ArenaRegion.InBlock ⟨⟨mem + aligned, size⟩, align⟩ block' :=
    ⟨mem, sameMem.trans isMem, ⟨by dsimp only; omega, by rw [Region.stop]; dsimp only; omega⟩,
      by dsimp only; rwa [Nat.add_sub_cancel_left]⟩
  refine ⟨?_, ?_, ?_, ?_⟩
  · intro other member
    rcases (isNew other).mp member with rfl | old
    · exact ⟨fits, by rw [sameCap]; exact (sound.bounded block isBlock).2⟩
    · exact sound.bounded other (isOld other old)
  · rw [blocks, List.pairwise_append, List.pairwise_cons]
    refine ⟨pairsBefore, ⟨?_, pairsAfter⟩, ?_⟩
    · intro other member m n memA memB
      rw [sameCap]
      exact pairBlock other member m n (sameMem ▸ memA) memB
    · intro first inBefore second member
      rcases List.mem_cons.mp member with rfl | later
      · intro m n memA memB
        rw [sameCap]
        exact pairsCross first inBefore block List.mem_cons_self m n memA (sameMem ▸ memB)
      · exact pairsCross first inBefore second (List.mem_cons_of_mem _ later)
  · intro r member
    rcases List.mem_cons.mp member with rfl | old
    · exact ⟨block', (isNew block').mpr (.inl rfl), own⟩
    · obtain ⟨home, inBlocks, m, memHome, ⟨low, high⟩, aligned_⟩ := sound.inside r old
      rw [split] at inBlocks
      by_cases same : home = block
      · subst same
        exact ⟨block', (isNew block').mpr (.inl rfl), m, sameMem.trans memHome, ⟨low, by omega⟩, aligned_⟩
      · refine ⟨home, (isNew home).mpr (.inr ?_), m, memHome, ⟨low, high⟩, aligned_⟩
        simp only [List.mem_append, List.mem_cons] at inBlocks ⊢
        tauto
  · refine List.pairwise_cons.mpr ⟨?_, sound.disjoint⟩
    intro r old
    obtain ⟨home, inBlocks, inHome⟩ := sound.inside r old
    have lens := sound.bounded home inBlocks
    rw [split] at inBlocks
    rcases List.mem_append.mp inBlocks with first | rest
    · refine (inHome.apart own lens.1 fits ?_).symm
      intro m n memA memB
      rw [sameCap]
      exact pairsCross home first block List.mem_cons_self m n memA (sameMem ▸ memB)
    · rcases List.mem_cons.mp rest with rfl | last
      · obtain ⟨m, memHome, ⟨low, high⟩, -⟩ := inHome
        rw [isMem, Option.some.injEq] at memHome
        subst memHome
        exact (Region.apart_of_le (by dsimp only; omega)).symm
      · refine own.apart inHome fits lens.1 ?_
        intro m n memA memB
        rw [sameCap]
        exact pairBlock home last m n (sameMem ▸ memA) memB

/-- A fresh block at the end of the chain. -/
theorem ArenaState.Sound.grow {s : ArenaState} (sound : s.Sound) {block : ArenaBlock}
    {allocMem allocSize headerSize : Nat}
    (isMem : block.mem = some (allocMem + headerSize)) (isCap : block.cap = allocSize - headerSize)
    (empty : block.len = 0) (small : allocSize < 2 ^ 32) (large : headerSize ≤ allocSize)
    (fresh : ∀ other ∈ s.arena.blocks, ∀ mem, other.mem = some mem →
      allocMem + allocSize ≤ mem ∨ mem + other.cap ≤ allocMem) (current : Nat) :
    ArenaState.Sound ⟨{ s.arena with more := s.arena.more ++ [block], current := current }, s.live⟩ := by
  have blocks : Arena.blocks { s.arena with more := s.arena.more ++ [block], current := current } =
      s.arena.blocks ++ [block] := rfl
  refine ⟨?_, ?_, ?_, sound.disjoint⟩
  · intro other member
    rw [blocks] at member
    rcases List.mem_append.mp member with old | new
    · exact sound.bounded other old
    · rw [List.mem_singleton.mp new, empty, isCap]
      exact ⟨Nat.zero_le _, by omega⟩
  · rw [blocks]
    refine List.pairwise_append.mpr ⟨sound.apart, List.pairwise_singleton _ _, ?_⟩
    intro other old new isNew m n memOther memNew
    rw [List.mem_singleton.mp isNew] at memNew ⊢
    rw [isMem, Option.some.injEq] at memNew
    rw [isCap]
    rcases fresh other old m memOther with below | above
    · exact .inr (by omega)
    · exact .inl (by omega)
  · intro r live
    obtain ⟨home, inBlocks, inHome⟩ := sound.inside r live
    refine ⟨home, ?_, inHome⟩
    rw [blocks]
    exact List.mem_append_left _ inBlocks

section Outcome

variable (headerSize : Nat) (arena : Arena) (grow : GrowFn) (size align : Nat)

/-- The reasons the arena may have to return NULL: the alignment, a missing or failing callback, or a size beyond 32
bits. -/
def NullReason : Prop :=
  (∀ k, normalAlign align ≠ 2 ^ k) ∨ arena.hasGrow = false ∨
    (arena.requestedSize headerSize size (normalAlign align) ≤ uint32Max ∧
      grow (arena.requestedSize headerSize size (normalAlign align)) = none) ∨
    uint32Max < headerSize + (size + normalAlign align - 1)

/-- Some block from the cursor on has room. -/
def FitsChain : Prop :=
  ∃ block ∈ arena.blocks.drop arena.current, (tryAllocInBlock size (normalAlign align) block).isSome

/-- Twice the last block and a header fit 32 bits, unless the last block is no larger than the payload needed. -/
def DoublesInside : Prop :=
  arena.lastCap ≤ size + normalAlign align - 1 ∨ headerSize + 2 * arena.lastCap ≤ uint32Max

/-- How an allocation ends. -/
inductive AllocOutcome : Option Nat × Arena → Prop
  | placed {before after : List ArenaBlock} {block block' : ArenaBlock} {p : Nat} {arena' : Arena}
    (power : ∃ k, normalAlign align = 2 ^ k) (split : arena.blocks = before ++ block :: after)
    (given : tryAllocInBlock size (normalAlign align) block = some (p, block'))
    (blocks : arena'.blocks = before ++ block' :: after) (fits : FitsChain arena size align) :
    AllocOutcome (some p, arena')
  | grown {allocMem allocSize : Nat} {p : Nat} {block block' : ArenaBlock} {arena' : Arena}
    (power : ∃ k, normalAlign align = 2 ^ k) (full : ¬FitsChain arena size align)
    (small : headerSize + (size + normalAlign align - 1) ≤ uint32Max)
    (requested : arena.requestedSize headerSize size (normalAlign align) ≤ uint32Max)
    (answer : grow (arena.requestedSize headerSize size (normalAlign align)) = some (allocMem, allocSize))
    (isBlock : block = ⟨some (allocMem + headerSize), allocSize - headerSize, 0, allocSize, true⟩)
    (large : headerSize ≤ allocSize)
    (given : tryAllocInBlock size (normalAlign align) block = some (p, block'))
    (blocks : arena'.blocks = arena.blocks ++ [block']) : AllocOutcome (some p, arena')
  | null (reason : NullReason headerSize arena grow size align ∨ (¬FitsChain arena size align ∧ arena.hasGrow = true ∧
      (∃ k, normalAlign align = 2 ^ k) ∧ headerSize + (size + normalAlign align - 1) ≤ uint32Max ∧
      uint32Max < arena.requestedSize headerSize size (normalAlign align))) : AllocOutcome (none, arena)

theorem le_targetPayload (cap minPayload : Nat) : minPayload ≤ targetPayload cap minPayload := by
  unfold targetPayload
  dsimp only
  split_ifs <;> omega

theorem normalAlign_pos : 0 < normalAlign align := by
  unfold normalAlign
  split <;> omega

theorem normalAlign_small {align : Nat} (small : align < 2 ^ 32) : normalAlign align < 2 ^ 32 := by
  unfold normalAlign
  split <;> omega

theorem two_pow_and (k : Nat) : 2 ^ k &&& (2 ^ k - 1) = 0 :=
  (Nat.and_sub_one_eq_zero_iff_isPowerOfTwo (Nat.two_pow_pos k).ne').mpr ⟨k, rfl⟩

theorem Arena.withBlocks_blocks (current : Nat) {blocks : List ArenaBlock} (nonempty : blocks ≠ []) :
    (arena.withBlocks current blocks).blocks = blocks := by
  cases blocks with
  | nil => exact absurd rfl nonempty
  | cons first more => rfl

/-- Every allocation ends in one of the ways, when the callback answers with blocks of the size asked for. -/
theorem alloc_outcome (alignSmall : align < 2 ^ 32) (fresh : grow.Fresh arena) :
    AllocOutcome headerSize arena grow size align (arena.alloc headerSize grow size align) := by
  have positive := normalAlign_pos align
  have small := normalAlign_small alignSmall
  unfold Arena.alloc
  dsimp only
  by_cases power : normalAlign align &&& (normalAlign align - 1) ≠ 0
  · rw [if_pos power]
    refine .null (.inl (.inl ?_))
    intro k same
    rw [same] at power
    exact power (two_pow_and k)
  · rw [if_neg power]
    have isPower := isPowerOfTwo_of_and positive.ne' (not_not.mp power)
    cases found : allocInChain size (normalAlign align) (arena.blocks.drop arena.current) with
    | some result =>
      obtain ⟨k, p, rest⟩ := result
      obtain ⟨before, block, block', after, split, rfl, -, given⟩ := allocInChain_some found
      have whole : arena.blocks = (arena.blocks.take arena.current ++ before) ++ block :: after := by
        rw [List.append_assoc, ← split, List.take_append_drop]
      refine .placed isPower whole given ?_ ⟨block, ?_, by rw [given]; rfl⟩
      · rw [Arena.withBlocks_blocks _ _ (by simp), List.append_assoc]
      · rw [split]
        exact List.mem_append_right _ List.mem_cons_self
    | none =>
      have full : ¬FitsChain arena size align := by
        rintro ⟨block, member, gives⟩
        rw [allocInChain_none.mp found block member] at gives
        cases gives
      dsimp only
      unfold Arena.growAlloc
      by_cases noGrow : arena.hasGrow = false
      · rw [if_pos noGrow]
        exact .null (.inl (.inr (.inl noGrow)))
      · rw [if_neg noGrow]
        by_cases wide : uint32Max - (normalAlign align - 1) < size
        · rw [if_pos wide]
          refine .null (.inl (.inr (.inr (.inr ?_))))
          unfold uint32Max at *
          omega
        · rw [if_neg wide]
          have target := le_targetPayload arena.lastCap (size + normalAlign align - 1)
          by_cases beyond : uint32Max < arena.requestedSize headerSize size (normalAlign align)
          · rw [if_pos beyond]
            by_cases header : headerSize + (size + normalAlign align - 1) ≤ uint32Max
            · exact .null (.inr ⟨full, Bool.not_eq_false _ ▸ noGrow, isPower, header, beyond⟩)
            · exact .null (.inl (.inr (.inr (.inr (by omega)))))
          · rw [if_neg beyond]
            have inside : arena.requestedSize headerSize size (normalAlign align) ≤ uint32Max := by omega
            cases answer : grow (arena.requestedSize headerSize size (normalAlign align)) with
            | none => exact .null (.inl (.inr (.inr (.inl ⟨inside, answer⟩))))
            | some result =>
              obtain ⟨allocMem, allocSize⟩ := result
              obtain ⟨enough, bounded, -⟩ := fresh _ _ _ answer
              have payload : headerSize + (size + normalAlign align - 1) ≤ allocSize := by
                rw [Arena.requestedSize] at enough
                omega
              have minimum : headerSize + (size + normalAlign align - 1) ≤ uint32Max := by
                rw [Arena.requestedSize] at inside
                omega
              dsimp only
              rw [if_neg (by omega)]
              obtain ⟨k, isTwo⟩ := isPower
              have room : size + (2 ^ k - 1) ≤ allocSize - headerSize := by
                rw [← isTwo]
                omega
              obtain ⟨⟨p, block'⟩, given⟩ := @tryAllocInBlock_empty size (allocMem + headerSize)
                (allocSize - headerSize) allocSize k true (by omega) room
              rw [← isTwo] at given
              unfold Arena.growBlock
              rw [given]
              exact .grown ⟨k, isTwo⟩ full minimum inside answer rfl (by omega) given rfl

/-- A wide last block makes the doubled request overflow. -/
theorem requestedSize_over (positive : 0 < headerSize)
    (small : headerSize + (size + normalAlign align - 1) ≤ uint32Max) :
    uint32Max < arena.requestedSize headerSize size (normalAlign align) ↔
      ¬DoublesInside headerSize arena size align := by
  unfold DoublesInside Arena.requestedSize targetPayload
  unfold uint32Max at *
  dsimp only
  split_ifs <;> omega

/-- An allocation returns NULL without a reason exactly if no block has room and the last one is too wide
to double. -/
theorem null_without_reason (positive : 0 < headerSize) (alignSmall : align < 2 ^ 32) (fresh : grow.Fresh arena) :
    ((arena.alloc headerSize grow size align).1 = none → NullReason headerSize arena grow size align) ↔
      (NullReason headerSize arena grow size align ∨ FitsChain arena size align ∨
        DoublesInside headerSize arena size align) := by
  have outcome := alloc_outcome headerSize arena grow size align alignSmall fresh
  generalize arena.alloc headerSize grow size align = result at outcome
  cases outcome with
  | placed power split given blocks fits =>
    exact ⟨fun _ => .inr (.inl fits), fun _ absurd_ => nomatch absurd_⟩
  | grown power full small requested answer =>
    refine ⟨fun _ => .inr (.inr ?_), fun _ absurd_ => nomatch absurd_⟩
    by_contra wide
    have beyond := (requestedSize_over headerSize arena size align positive small).mpr wide
    omega
  | null reason =>
    constructor
    · intro justified
      exact .inl (justified rfl)
    · rintro (justified | fits | doubles) _
      · exact justified
      · rcases reason with justified | ⟨full, -⟩
        · exact justified
        · exact absurd fits full
      · rcases reason with justified | ⟨-, -, -, small, beyond⟩
        · exact justified
        · exact absurd doubles ((requestedSize_over headerSize arena size align positive small).mp beyond)

end Outcome

/-! ### Runs -/

/-- A call of the arena's interface; the callback may answer differently each time. -/
inductive ArenaOp
  | alloc (size align : UInt32) (grow : GrowFn)
  | reset
  | dispose

/-- One call of a run: the state before it, what it returned, and the state after it. -/
structure ArenaVisit where
  before : ArenaState
  op : ArenaOp
  result : Option Nat
  after : ArenaState

section Runs

variable (headerSize : Nat)

def ArenaState.step (s : ArenaState) : ArenaOp → Option Nat × ArenaState
  | .alloc size align grow =>
    match s.arena.alloc headerSize grow size.toNat align.toNat with
    | (some p, arena) => (some p, ⟨arena, ⟨⟨p, size.toNat⟩, normalAlign align.toNat⟩ :: s.live⟩)
    | (none, arena) => (none, ⟨arena, s.live⟩)
  | .reset => (none, ⟨s.arena.reset, []⟩)
  | .dispose => (none, ⟨s.arena.dispose, []⟩)

def ArenaState.visits (s : ArenaState) : List ArenaOp → List ArenaVisit
  | [] => []
  | op :: ops =>
    ⟨s, op, (s.step headerSize op).1, (s.step headerSize op).2⟩ :: (s.step headerSize op).2.visits ops

def ArenaState.init (storage : Option Nat) (storageSize : UInt32) (hasGrow : Bool) : ArenaState :=
  ⟨.initEx storage storageSize.toNat hasGrow, []⟩

/-- The callback of a call answers with fresh blocks. -/
def ArenaVisit.Fresh (visit : ArenaVisit) : Prop :=
  ∀ size align grow, visit.op = .alloc size align grow → grow.Fresh visit.before.arena

/-- A call that fails leaves the arena as it was. -/
def ArenaVisit.FailsClean (visit : ArenaVisit) : Prop :=
  ∀ size align grow, visit.op = .alloc size align grow → visit.result = none → visit.after = visit.before

/-- A call that returns NULL has a reason. -/
def ArenaVisit.Justified (visit : ArenaVisit) : Prop :=
  ∀ size align grow, visit.op = .alloc size align grow → visit.result = none →
    NullReason headerSize visit.before.arena grow size.toNat align.toNat

/-- A call that has no reason to fail finds room, or a last block that can be doubled. -/
def ArenaVisit.Doubles (visit : ArenaVisit) : Prop :=
  ∀ size align grow, visit.op = .alloc size align grow →
    NullReason headerSize visit.before.arena grow size.toNat align.toNat ∨
      FitsChain visit.before.arena size.toNat align.toNat ∨
      DoublesInside headerSize visit.before.arena size.toNat align.toNat

theorem ArenaState.Sound.empty {arena : Arena}
    (one : ∀ block ∈ arena.blocks, block.len ≤ block.cap ∧ block.cap < 2 ^ 32)
    (apart : arena.blocks.Pairwise ArenaBlock.Below) : ArenaState.Sound ⟨arena, []⟩ :=
  ⟨one, apart, fun _ member => (by cases member), .nil⟩

theorem ArenaState.init_sound (storage : Option Nat) (storageSize : UInt32) (hasGrow : Bool) :
    (ArenaState.init storage storageSize hasGrow).Sound := by
  refine .empty ?_ (List.pairwise_singleton _ _)
  intro block member
  rw [List.mem_singleton.mp member]
  exact ⟨Nat.zero_le _, storageSize.toNat_lt⟩

theorem Arena.blocks_reset (arena : Arena) :
    arena.reset.blocks = arena.blocks.map fun block => { block with len := 0 } := rfl

/-- One call keeps what holds of every reachable arena. -/
theorem ArenaState.Sound.step {s : ArenaState} (sound : s.Sound) (op : ArenaOp)
    (fresh : ∀ size align grow, op = .alloc size align grow → grow.Fresh s.arena) :
    (s.step headerSize op).2.Sound ∧
      ∀ size align grow, op = .alloc size align grow → (s.step headerSize op).1 = none →
        (s.step headerSize op).2 = s := by
  cases op with
  | alloc size align grow =>
    have answers := fresh size align grow rfl
    have alignSmall : align.toNat < 2 ^ 32 := align.toNat_lt
    have small := normalAlign_small alignSmall
    have outcome := alloc_outcome headerSize s.arena grow size.toNat align.toNat alignSmall answers
    cases run : s.arena.alloc headerSize grow size.toNat align.toNat with
    | mk result arena =>
      rw [run] at outcome
      simp only [ArenaState.step, run]
      cases outcome with
      | @placed before after block block' p arena power split given blocks fits =>
        have isBlock : block ∈ s.arena.blocks := by
          rw [split]
          exact List.mem_append_right _ List.mem_cons_self
        have lens := sound.bounded block isBlock
        have gives := tryAllocInBlock_gives power small lens.2 (by omega) given
        exact ⟨sound.place split gives blocks, fun _ _ _ _ absurd_ => nomatch absurd_⟩
      | @grown allocMem allocSize p block block' arena power full _ requested answer isBlock large given blocks =>
        obtain ⟨-, bounded, away⟩ := answers _ _ _ answer
        subst isBlock
        have wider := @ArenaState.Sound.grow s sound
          ⟨some (allocMem + headerSize), allocSize - headerSize, 0, allocSize, true⟩ allocMem allocSize
          headerSize rfl rfl rfl
          bounded large away 0
        have gives := tryAllocInBlock_gives power small (by dsimp only; omega) (by dsimp only; omega) given
        exact ⟨@ArenaState.Sound.place _ wider s.arena.blocks [] _ _ rfl _ _ _ gives _ blocks,
          fun _ _ _ _ absurd_ => nomatch absurd_⟩
      | null reason => exact ⟨sound, fun _ _ _ _ _ => rfl⟩
  | reset =>
    refine ⟨.empty ?_ ?_, fun _ _ _ absurd_ => nomatch absurd_⟩
    · intro block member
      rw [Arena.blocks_reset] at member
      obtain ⟨old, inOld, rfl⟩ := List.mem_map.mp member
      exact ⟨Nat.zero_le _, (sound.bounded old inOld).2⟩
    · rw [Arena.blocks_reset, List.pairwise_map]
      exact sound.apart
  | dispose =>
    refine ⟨.empty ?_ (List.pairwise_singleton _ _), fun _ _ _ absurd_ => nomatch absurd_⟩
    intro block member
    rw [List.mem_singleton.mp member]
    exact ⟨Nat.zero_le _, (sound.bounded _ List.mem_cons_self).2⟩

/-- Along a run of calls the arena stays sound and failures are clean. -/
theorem ArenaState.Sound.visits {s : ArenaState} (sound : s.Sound) (ops : List ArenaOp)
    (fresh : ∀ visit ∈ s.visits headerSize ops, visit.Fresh) :
    ∀ visit ∈ s.visits headerSize ops, visit.after.Sound ∧ visit.FailsClean := by
  induction ops generalizing s with
  | nil =>
    intro visit member
    cases member
  | cons op ops ih =>
    have first := sound.step headerSize op (fresh _ List.mem_cons_self)
    intro visit member
    rcases List.mem_cons.mp member with rfl | later
    · exact first
    · exact ih first.1 (fun other inRest => fresh other (List.mem_cons_of_mem _ inRest)) visit later

theorem ArenaState.visits_step {s : ArenaState} {ops : List ArenaOp} {visit : ArenaVisit}
    (member : visit ∈ s.visits headerSize ops) : visit.result = (visit.before.step headerSize visit.op).1 := by
  induction ops generalizing s with
  | nil => cases member
  | cons op ops ih =>
    rcases List.mem_cons.mp member with rfl | later
    · rfl
    · exact ih later

theorem ArenaVisit.justified_iff (positive : 0 < headerSize) {visit : ArenaVisit} (fresh : visit.Fresh)
    (isStep : visit.result = (visit.before.step headerSize visit.op).1) :
    visit.Justified headerSize ↔ visit.Doubles headerSize := by
  have each : ∀ size align grow, visit.op = .alloc size align grow →
      ((visit.result = none → NullReason headerSize visit.before.arena grow size.toNat align.toNat) ↔
        (NullReason headerSize visit.before.arena grow size.toNat align.toNat ∨
          FitsChain visit.before.arena size.toNat align.toNat ∨
          DoublesInside headerSize visit.before.arena size.toNat align.toNat)) := by
    intro size align grow isAlloc
    have null : visit.result = none ↔
        (visit.before.arena.alloc headerSize grow size.toNat align.toNat).1 = none := by
      rw [isStep, isAlloc, ArenaState.step]
      split <;> rename_i run <;> rw [run]
    rw [null]
    exact null_without_reason headerSize _ _ _ _ positive align.toNat_lt (fresh size align grow isAlloc)
  constructor
  · intro justified size align grow isAlloc
    exact (each size align grow isAlloc).mp (justified size align grow isAlloc)
  · intro doubles size align grow isAlloc
    exact (each size align grow isAlloc).mpr (doubles size align grow isAlloc)

/-- In every run the regions since the last reset are apart, aligned and inside the blocks, and failures change
nothing; NULL always has a reason exactly if every call that reaches the end of the chain can double its last block. -/
theorem arena_exact (positive : 0 < headerSize) (storage : Option Nat) (storageSize : UInt32) (hasGrow : Bool)
    (ops : List ArenaOp)
    (fresh : ∀ visit ∈ (ArenaState.init storage storageSize hasGrow).visits headerSize ops, visit.Fresh) :
    (∀ visit ∈ (ArenaState.init storage storageSize hasGrow).visits headerSize ops,
      visit.after.Sound ∧ visit.FailsClean) ∧
    ((∀ visit ∈ (ArenaState.init storage storageSize hasGrow).visits headerSize ops,
        visit.Justified headerSize) ↔
      ∀ visit ∈ (ArenaState.init storage storageSize hasGrow).visits headerSize ops,
        visit.Doubles headerSize) := by
  refine ⟨(ArenaState.init_sound storage storageSize hasGrow).visits headerSize ops fresh, ?_, ?_⟩
  · intro justified visit member
    exact (visit.justified_iff headerSize positive (fresh visit member)
      (ArenaState.visits_step headerSize member)).mp (justified visit member)
  · intro doubles visit member
    exact (visit.justified_iff headerSize positive (fresh visit member)
      (ArenaState.visits_step headerSize member)).mpr (doubles visit member)

end Runs

/-- A callback whose blocks lie far above an arena. -/
def farGrow : GrowFn := fun requested => if requested < 2 ^ 32 then some (2 ^ 40, requested) else none

/-- With a full inline block of two gigabytes one more byte is refused, though a header and a byte would fit. -/
theorem not_justified_wide :
    ¬∀ visit ∈ (ArenaState.init (some 4096) 0x80000000 true).visits 48
        [.alloc 0x80000000 1 farGrow, .alloc 1 1 farGrow], visit.Justified 48 := by
  intro justified
  have refused := justified _ (List.mem_cons_of_mem _ List.mem_cons_self) 1 1 farGrow rfl rfl
  rcases refused with odd | missing | ⟨inside, -⟩ | wide
  · exact odd 0 rfl
  · cases missing
  · revert inside
    decide
  · revert wide
    decide

theorem arena_exact_small :
    (∀ visit ∈ (ArenaState.init (some 4096) 64 true).visits 48 [.alloc 3 1 farGrow, .alloc 8 8 fun _ => none, .reset],
      visit.after.Sound ∧ visit.FailsClean) ∧
    ((∀ visit ∈ (ArenaState.init (some 4096) 64 true).visits 48 [.alloc 3 1 farGrow, .alloc 8 8 fun _ => none, .reset],
        visit.Justified 48) ↔
      ∀ visit ∈ (ArenaState.init (some 4096) 64 true).visits 48 [.alloc 3 1 farGrow, .alloc 8 8 fun _ => none, .reset],
        visit.Doubles 48) := by
  have farFresh : farGrow.Fresh (Arena.initEx (some 4096) 64 true) := by
    intro requested allocMem allocSize answer
    rw [farGrow, Option.ite_none_right_eq_some] at answer
    obtain ⟨small, same⟩ := answer
    cases same
    refine ⟨Nat.le_refl _, small, ?_⟩
    intro block member mem isMem
    rw [List.mem_singleton.mp member] at isMem ⊢
    cases isMem
    exact .inr (by decide)
  refine arena_exact 48 (by decide) (some 4096) 64 true _ ?_
  intro visit member size align grow isAlloc
  rcases List.mem_cons.mp member with rfl | later
  · cases isAlloc
    exact farFresh
  · rcases List.mem_cons.mp later with rfl | last
    · cases isAlloc
      intro requested allocMem allocSize answer
      cases answer
    · rw [List.mem_singleton.mp last] at isAlloc
      cases isAlloc

end HopHop
