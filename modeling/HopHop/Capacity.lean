import HopHop.Arena

namespace HopHop

/-! The buffers the front end takes from its arena: the capacity that is recorded for one and the bytes that are
asked for, both computed in 32 bits. -/

/-- An arena as a request finds it, with the answers of its grow callback. -/
structure ArenaAt where
  headerSize : Nat
  arena : Arena
  grow : GrowFn

/-- A buffer: the capacity recorded for it and the size it was allocated with. -/
structure Buffer where
  cap : UInt32
  bytes : UInt32
  deriving DecidableEq, Repr

def tokenSize : Nat := 12
def astNodeSize : Nat := 32
def mirInstSize : Nat := 20

/-- A buffer of this size, unless the arena has no room: every caller then fails with ARENA_OOM. -/
def ArenaAt.buffer (at_ : ArenaAt) (cap bytes : UInt32) (align : Nat) : Option Buffer :=
  (at_.arena.alloc at_.headerSize at_.grow bytes.toNat align).1.map fun _ => ⟨cap, bytes⟩

/-- The token buffer of `H2Lex`. -/
def lexBuffer (at_ : ArenaAt) (srcLen : UInt32) : Option Buffer :=
  let cap := if srcLen + 2 < 8 then 8 else srcLen + 2
  at_.buffer cap (cap * UInt32.ofNat tokenSize) 4

/-- The node array of `H2Parse`. -/
def parseBuffer (at_ : ArenaAt) (tokLen : UInt32) : Option Buffer :=
  let nodeCap := tokLen * 4 + 16
  at_.buffer nodeCap (nodeCap * UInt32.ofNat astNodeSize) 4

/-- The instruction buffer of `H2MirBuildExpr`. -/
def buildExprBuffer (at_ : ArenaAt) (astLen : UInt32) : Option Buffer :=
  let cap := astLen * 4 + 8
  at_.buffer cap (cap * UInt32.ofNat mirInstSize) 4

/-- `H2MirArenaGrowArray`: the product is taken in 64 bits and handed over in 32. -/
def arenaGrowArray (at_ : ArenaAt) (elemSize oldCap newCap : UInt32) : Option Buffer :=
  if elemSize = 0 ∨ newCap < oldCap then none
  else at_.buffer newCap (elemSize.toUInt64 * newCap.toUInt64).toUInt32 8

/-- The loop that doubles the capacity; 32 rounds are more than it takes. -/
def newCapFor (needLen : UInt32) : Nat → UInt32 → UInt32
  | 0, newCap => newCap
  | rounds + 1, newCap =>
    if newCap < needLen then
      if 0xFFFFFFFF / 2 < newCap then needLen else newCapFor needLen rounds (newCap * 2)
    else newCap

/-- `H2MirProgramBuilderEnsureCap`. -/
def programBuilderEnsureCap (at_ : ArenaAt) (elemSize needLen : UInt32) (mem : Buffer) : Option Buffer :=
  if elemSize = 0 then none
  else if needLen ≤ mem.cap then some mem
  else arenaGrowArray at_ elemSize mem.cap (newCapFor needLen 32 (if mem.cap = 0 then 8 else mem.cap))

/-- A table of the program builder. -/
structure MirTable where
  len : UInt32
  mem : Buffer
  deriving DecidableEq, Repr

def MirTable.empty : MirTable := ⟨0, ⟨0, 0⟩⟩

/-- One more element, as `H2MirProgramBuilderAppendElem` and `H2MirProgramBuilderInsertInst` make room for it. -/
def MirTable.append (at_ : ArenaAt) (elemSize : UInt32) (table : MirTable) : Option MirTable :=
  (programBuilderEnsureCap at_ elemSize (table.len + 1) table.mem).map fun mem => ⟨table.len + 1, mem⟩

/-! ### Sizes that do not wrap around -/

/-- The buffer has room for so many elements of this size, and just as many are recorded. -/
structure Buffer.Exact (buffer : Buffer) (count size : Nat) : Prop where
  cap : buffer.cap.toNat = count
  bytes : buffer.bytes.toNat = count * size

/-- The three buffers whose capacity is computed from a length. -/
inductive CapSite
  | tokens (srcLen : UInt32)
  | nodes (tokLen : UInt32)
  | exprInsts (astLen : UInt32)

namespace CapSite

def buffer (at_ : ArenaAt) : CapSite → Option Buffer
  | tokens srcLen => lexBuffer at_ srcLen
  | nodes tokLen => parseBuffer at_ tokLen
  | exprInsts astLen => buildExprBuffer at_ astLen

/-- The number of elements the buffer is meant for. -/
def count : CapSite → Nat
  | tokens srcLen => max (srcLen.toNat + 2) 8
  | nodes tokLen => 4 * tokLen.toNat + 16
  | exprInsts astLen => 4 * astLen.toNat + 8

def size : CapSite → Nat
  | tokens _ => tokenSize
  | nodes _ => astNodeSize
  | exprInsts _ => mirInstSize

/-- Whatever the arena, the request fails or gives a buffer of exactly the size meant. -/
def Exact (site : CapSite) : Prop :=
  ∀ (at_ : ArenaAt) (buffer : Buffer), site.buffer at_ = some buffer → buffer.Exact site.count site.size

end CapSite

/-- The table has the room that is recorded for it, and its elements lie in it. -/
structure MirTable.Sound (elemSize : UInt32) (table : MirTable) : Prop where
  room : table.len ≤ table.mem.cap
  whole : table.mem.bytes.toNat = table.mem.cap.toNat * elemSize.toNat

/-- Whatever the arena, one more element fails or gets room in a table that is sound again. -/
def MirTable.AppendExact (elemSize : UInt32) (table : MirTable) : Prop :=
  ∀ (at_ : ArenaAt) (next : MirTable), table.append at_ elemSize = some next →
    next.len.toNat = table.len.toNat + 1 ∧ next.Sound elemSize

/-- The capacity of a full table with so many elements after it has grown. -/
def grownCap (len : Nat) : Nat :=
  if len = 0 then 8 else if len < 2 ^ 31 then 2 * len else len + 1

/-- An element fits: there is room already, or the grown table is smaller than 4 GiB. -/
def MirTable.Fits (elemSize : UInt32) (table : MirTable) : Prop :=
  table.len < table.mem.cap ∨ grownCap table.len.toNat * elemSize.toNat < 2 ^ 32

section

/-- An arena whose first block has nearly 4 GiB. -/
def wideArena : ArenaAt := ⟨48, Arena.initEx (some 4096) (2 ^ 32 - 1) false, fun _ => none⟩

/-- The wide arena grants every first request. -/
theorem wideArena_buffer (cap bytes : UInt32) {align : Nat} (aligned : align = 4 ∨ align = 8) :
    wideArena.buffer cap bytes align = some ⟨cap, bytes⟩ := by
  have below := bytes.toNat_lt
  have room : ¬4294967295 < bytes.toNat := by omega
  have atZero : alignUp 0 align = 0 := by rcases aligned with rfl | rfl <;> decide
  have power : normalAlign align = align ∧ align &&& (align - 1) = 0 := by rcases aligned with rfl | rfl <;> decide
  simp [ArenaAt.buffer, Arena.alloc, wideArena, Arena.initEx, Arena.blocks, power, allocInChain, tryAllocInBlock,
    atZero, room]

theorem ArenaAt.buffer_some {at_ : ArenaAt} {cap bytes : UInt32} {align : Nat} {buffer : Buffer}
    (granted : at_.buffer cap bytes align = some buffer) : buffer = ⟨cap, bytes⟩ := by
  obtain ⟨_, -, same⟩ := Option.map_eq_some_iff.mp granted
  exact same.symm

namespace CapSite

/-- The capacity that is recorded. -/
def cap : CapSite → UInt32
  | tokens srcLen => if srcLen + 2 < 8 then 8 else srcLen + 2
  | nodes tokLen => tokLen * 4 + 16
  | exprInsts astLen => astLen * 4 + 8

theorem buffer_eq (site : CapSite) (at_ : ArenaAt) :
    site.buffer at_ = at_.buffer site.cap (site.cap * UInt32.ofNat site.size) 4 := by
  cases site <;> rfl

theorem size_pos (site : CapSite) : 0 < site.size ∧ site.size < 2 ^ 32 := by
  cases site <;> simp only [size, tokenSize, astNodeSize, mirInstSize] <;> omega

/-- The recorded capacity is the one meant, as long as that is a 32-bit number. -/
theorem cap_toNat {site : CapSite} (small : site.count < 2 ^ 32) : site.cap.toNat = site.count := by
  cases site with
  | tokens srcLen =>
    simp only [count] at small
    have sum : (srcLen + 2).toNat = srcLen.toNat + 2 := by
      rw [UInt32.toNat_add]
      exact Nat.mod_eq_of_lt (by simp only [UInt32.reduceToNat]; omega)
    simp only [cap, count, UInt32.lt_iff_toNat_lt, sum]
    split <;> simp only [UInt32.reduceToNat] at * <;> omega
  | nodes tokLen =>
    simp only [count] at small
    simp only [cap, count, UInt32.toNat_add, UInt32.toNat_mul, UInt32.reduceToNat]
    omega
  | exprInsts astLen =>
    simp only [count] at small
    simp only [cap, count, UInt32.toNat_add, UInt32.toNat_mul, UInt32.reduceToNat]
    omega

/-- A buffer is exactly of the size meant if and only if that size is below 4 GiB. -/
theorem exact_iff (site : CapSite) : site.Exact ↔ site.count * site.size < 2 ^ 32 := by
  have sizeSmall : (UInt32.ofNat site.size).toNat = site.size := UInt32.toNat_ofNat_of_lt site.size_pos.2
  constructor
  · intro exact_
    have granted : site.buffer wideArena = some ⟨site.cap, site.cap * UInt32.ofNat site.size⟩ := by
      rw [buffer_eq]
      exact wideArena_buffer _ _ (.inl rfl)
    rw [← (exact_ _ _ granted).bytes]
    exact UInt32.toNat_lt _
  · intro small at_ buffer granted
    rw [buffer_eq] at granted
    rw [ArenaAt.buffer_some granted]
    have countSmall : site.count < 2 ^ 32 :=
      Nat.lt_of_le_of_lt (Nat.le_mul_of_pos_right _ site.size_pos.1) small
    refine ⟨cap_toNat countSmall, ?_⟩
    rw [UInt32.toNat_mul, sizeSmall, cap_toNat countSmall]
    exact Nat.mod_eq_of_lt small

end CapSite

/-- The doubling always gets to the length that is needed. -/
theorem le_newCapFor {needLen : UInt32} {rounds : Nat} {newCap : UInt32}
    (enough : 2 ^ 32 ≤ newCap.toNat * 2 ^ rounds) : needLen ≤ newCapFor needLen rounds newCap := by
  induction rounds generalizing newCap with
  | zero =>
    have small := newCap.toNat_lt
    omega
  | succ rounds ih =>
    unfold newCapFor
    split
    · split
      · exact UInt32.le_refl _
      · rename_i half
        have twice : (newCap * 2).toNat = newCap.toNat * 2 := by
          rw [UInt32.lt_iff_toNat_lt, UInt32.toNat_div] at half
          simp only [UInt32.toNat_mul, UInt32.reduceToNat] at half ⊢
          omega
        refine ih ?_
        rw [twice, Nat.mul_assoc, Nat.mul_comm 2, ← Nat.pow_succ]
        exact enough
    · rename_i large
      exact UInt32.not_lt.mp large

/-- A full table doubles its capacity, from 8 on, and goes on one by one from half of the 32-bit numbers. -/
theorem newCapFor_full {len : UInt32} (next : len.toNat + 1 < 2 ^ 32) :
    (newCapFor (len + 1) 32 (if len = 0 then 8 else len)).toNat = grownCap len.toNat := by
  have sum : (len + 1).toNat = len.toNat + 1 := by
    rw [UInt32.toNat_add]
    exact Nat.mod_eq_of_lt next
  by_cases zero : len = 0
  · subst zero
    decide
  · have nonzero : len.toNat ≠ 0 := fun same => zero (UInt32.toNat_inj.mp same)
    have less : len < len + 1 := by
      rw [UInt32.lt_iff_toNat_lt, sum]
      exact Nat.lt_succ_self _
    rw [if_neg zero, newCapFor, if_pos less, grownCap, if_neg nonzero]
    by_cases half : (0xFFFFFFFF / 2 : UInt32) < len
    · have large : ¬len.toNat < 2 ^ 31 := by
        rw [UInt32.lt_iff_toNat_lt, UInt32.toNat_div] at half
        simp only [UInt32.reduceToNat] at half
        omega
      rw [if_pos half, if_neg large, sum]
    · have small : len.toNat < 2 ^ 31 := by
        rw [UInt32.lt_iff_toNat_lt, UInt32.toNat_div] at half
        simp only [UInt32.reduceToNat] at half
        omega
      have twice : (len * 2).toNat = 2 * len.toNat := by
        simp only [UInt32.toNat_mul, UInt32.reduceToNat]
        omega
      have enough : ¬len * 2 < len + 1 := by
        rw [UInt32.lt_iff_toNat_lt, twice, sum]
        omega
      rw [if_neg half, if_pos small, newCapFor, if_neg enough, twice]

namespace MirTable

/-- A table with room takes the element as it is. -/
theorem append_room (at_ : ArenaAt) {elemSize : UInt32} (positive : elemSize ≠ 0) {table : MirTable}
    (room : table.len + 1 ≤ table.mem.cap) :
    table.append at_ elemSize = some ⟨table.len + 1, table.mem⟩ := by
  rw [append, programBuilderEnsureCap, if_neg positive, if_pos room]
  rfl

/-- A full table asks for the grown one. -/
theorem append_full (at_ : ArenaAt) {elemSize : UInt32} (positive : elemSize ≠ 0) {table : MirTable}
    (full : table.mem.cap = table.len) (next : table.len.toNat + 1 < 2 ^ 32) :
    ∃ newCap bytes : UInt32, newCap.toNat = grownCap table.len.toNat ∧
      bytes.toNat = grownCap table.len.toNat * elemSize.toNat % 2 ^ 32 ∧
      table.append at_ elemSize = (at_.buffer newCap bytes 8).map fun mem => ⟨table.len + 1, mem⟩ := by
  have grown := newCapFor_full next
  have sum : (table.len + 1).toNat = table.len.toNat + 1 := by
    rw [UInt32.toNat_add]
    exact Nat.mod_eq_of_lt next
  have lacks : ¬table.len + 1 ≤ table.len := by
    rw [UInt32.le_iff_toNat_le, sum]
    omega
  have larger : ¬newCapFor (table.len + 1) 32 (if table.len = 0 then 8 else table.len) < table.len := by
    rw [UInt32.lt_iff_toNat_lt, grown, grownCap]
    split_ifs <;> omega
  have appended : table.append at_ elemSize = (at_.buffer
      (newCapFor (table.len + 1) 32 (if table.len = 0 then 8 else table.len))
      (elemSize.toUInt64 * (newCapFor (table.len + 1) 32
        (if table.len = 0 then 8 else table.len)).toUInt64).toUInt32 8).map
          fun mem => ⟨table.len + 1, mem⟩ := by
    rw [append, programBuilderEnsureCap, if_neg positive, full, if_neg lacks, arenaGrowArray, if_neg]
    exact fun bad => bad.elim positive larger
  refine ⟨_, _, grown, ?_, appended⟩
  have whole := (newCapFor (table.len + 1) 32 (if table.len = 0 then 8 else table.len)).toNat_lt
  have size := elemSize.toNat_lt
  rw [grown] at whole
  have product : elemSize.toNat * grownCap table.len.toNat < 2 ^ 64 := by
    calc elemSize.toNat * grownCap table.len.toNat < 2 ^ 32 * 2 ^ 32 := Nat.mul_lt_mul'' size whole
      _ = 2 ^ 64 := by decide
  rw [UInt64.toNat_toUInt32, UInt64.toNat_mul, UInt32.toNat_toUInt64, UInt32.toNat_toUInt64, grown,
    Nat.mod_eq_of_lt product, Nat.mul_comm]

/-- An element that is taken gets its room exactly if it fits. -/
theorem append_exact_iff {at_ : ArenaAt} {elemSize : UInt32} (positive : elemSize ≠ 0) {table next : MirTable}
    (sound : table.Sound elemSize) (appended : table.append at_ elemSize = some next) :
    next.len.toNat = table.len.toNat + 1 ∧ next.Sound elemSize ↔ table.Fits elemSize := by
  have sizePos : 0 < elemSize.toNat := Nat.pos_of_ne_zero fun zero => positive (UInt32.toNat_inj.mp zero)
  have lenSmall := table.len.toNat_lt
  have ordered : table.len.toNat ≤ table.mem.cap.toNat := UInt32.le_iff_toNat_le.mp sound.room
  have counted : table.len.toNat + 1 < 2 ^ 32 → (table.len + 1).toNat = table.len.toNat + 1 := by
    intro small
    rw [UInt32.toNat_add]
    exact Nat.mod_eq_of_lt small
  by_cases room : table.len < table.mem.cap
  · have less : table.len.toNat < table.mem.cap.toNat := UInt32.lt_iff_toNat_lt.mp room
    have capSmall := table.mem.cap.toNat_lt
    have sum := counted (by omega)
    have inside : table.len + 1 ≤ table.mem.cap := by
      rw [UInt32.le_iff_toNat_le, sum]
      exact less
    rw [append_room at_ positive inside] at appended
    cases appended
    exact ⟨fun _ => .inl room, fun _ => ⟨sum, inside, sound.whole⟩⟩
  · have full : table.mem.cap = table.len := by
      refine UInt32.toNat_inj.mp (Nat.le_antisymm ?_ ordered)
      exact UInt32.le_iff_toNat_le.mp (UInt32.not_lt.mp room)
    by_cases last : table.len.toNat + 1 < 2 ^ 32
    · have sum := counted last
      obtain ⟨newCap, bytes, capIs, bytesIs, grows⟩ := append_full at_ positive full last
      rw [grows] at appended
      obtain ⟨mem, given, same⟩ := Option.map_eq_some_iff.mp appended
      rw [ArenaAt.buffer_some given] at same
      subst same
      have within : table.len + 1 ≤ newCap := by
        rw [UInt32.le_iff_toNat_le, sum, capIs, grownCap]
        split_ifs <;> omega
      constructor
      · rintro ⟨-, -, whole⟩
        refine .inr ?_
        rw [← capIs, ← whole]
        exact UInt32.toNat_lt _
      · intro fits
        have fits := fits.resolve_left room
        refine ⟨sum, within, ?_⟩
        rw [bytesIs, capIs]
        exact Nat.mod_eq_of_lt fits
    · -- The length itself is the last 32-bit number, and the next one wraps around to 0.
      have wraps : table.len + 1 = 0 := by
        refine UInt32.toNat_inj.mp ?_
        rw [UInt32.toNat_add]
        simp only [UInt32.reduceToNat]
        omega
      have inside : table.len + 1 ≤ table.mem.cap := by
        rw [wraps]
        exact UInt32.zero_le
      rw [append_room at_ positive inside] at appended
      cases appended
      constructor
      · rintro ⟨more, -⟩
        rw [wraps] at more
        cases more
      · intro fits
        have fits := fits.resolve_left room
        have many : 2 ^ 32 ≤ grownCap table.len.toNat := by
          rw [grownCap, if_neg (by omega), if_neg (by omega)]
          omega
        have product := Nat.le_mul_of_pos_right (grownCap table.len.toNat) sizePos
        omega

/-- The wide arena takes every element. -/
theorem wideArena_append {elemSize : UInt32} (positive : elemSize ≠ 0) (table : MirTable) :
    ∃ next, table.append wideArena elemSize = some next := by
  rw [append, programBuilderEnsureCap, if_neg positive]
  by_cases room : table.len + 1 ≤ table.mem.cap
  · rw [if_pos room]
    exact ⟨_, rfl⟩
  · have start : 0 < (if table.mem.cap = 0 then (8 : UInt32) else table.mem.cap).toNat := by
      split
      · decide
      · rename_i nonzero
        exact Nat.pos_of_ne_zero fun zero => nonzero (UInt32.toNat_inj.mp zero)
    have reached : table.len + 1 ≤ newCapFor (table.len + 1) 32 (if table.mem.cap = 0 then 8 else table.mem.cap) :=
      le_newCapFor (Nat.le_mul_of_pos_left (2 ^ 32) start)
    have larger : table.mem.cap ≤ newCapFor (table.len + 1) 32 (if table.mem.cap = 0 then 8 else table.mem.cap) :=
      UInt32.le_trans (UInt32.le_of_lt (UInt32.not_le.mp room)) reached
    rw [if_neg room, arenaGrowArray, if_neg fun bad => bad.elim positive (UInt32.not_lt.mpr larger),
      wideArena_buffer _ _ (.inr rfl)]
    exact ⟨_, rfl⟩

/-- The next element gets its room, whatever the arena, exactly if it fits. -/
theorem appendExact_iff {elemSize : UInt32} (positive : elemSize ≠ 0) {table : MirTable}
    (sound : table.Sound elemSize) : table.AppendExact elemSize ↔ table.Fits elemSize := by
  constructor
  · intro exact_
    obtain ⟨next, appended⟩ := wideArena_append positive table
    exact (append_exact_iff positive sound appended).mp (exact_ _ _ appended)
  · intro fits at_ next appended
    exact (append_exact_iff positive sound appended).mpr fits

/-- The tables a run of appends goes through, each with the arena it finds. -/
def appends (elemSize : UInt32) : List ArenaAt → MirTable → List MirTable
  | [], table => [table]
  | at_ :: rest, table =>
    match table.append at_ elemSize with
    | none => [table]
    | some next => table :: appends elemSize rest next

/-- The tables of a run are sound, and each has one element more than the one before. -/
def Counts (elemSize : UInt32) (start : MirTable) (run : List MirTable) : Prop :=
  ∀ i t, run[i]? = some t → t.len.toNat = start.len.toNat + i ∧ t.Sound elemSize

theorem Counts.single {elemSize : UInt32} {table : MirTable} (sound : table.Sound elemSize) :
    Counts elemSize table [table] := by
  intro i t found
  cases i with
  | zero =>
    cases found
    exact ⟨rfl, sound⟩
  | succ i => cases found

theorem Counts.cons_iff {elemSize : UInt32} {table next : MirTable} {run : List MirTable}
    (sound : table.Sound elemSize) (counted : next.len.toNat = table.len.toNat + 1) :
    Counts elemSize table (table :: run) ↔ Counts elemSize next run := by
  constructor
  · intro counts i t found
    obtain ⟨len, holds⟩ := counts (i + 1) t found
    exact ⟨by omega, holds⟩
  · intro counts i t found
    cases i with
    | zero =>
      cases found
      exact ⟨rfl, sound⟩
    | succ i =>
      obtain ⟨len, holds⟩ := counts i t found
      exact ⟨by omega, holds⟩

/-- A run of appends begins with its table. -/
theorem appends_head (elemSize : UInt32) (arenas : List ArenaAt) (table : MirTable) :
    ∃ rest, table.appends elemSize arenas = table :: rest := by
  cases arenas with
  | nil => exact ⟨[], rfl⟩
  | cons at_ arenas =>
    unfold appends
    split
    · exact ⟨[], rfl⟩
    · exact ⟨_, rfl⟩

/-- In a run of appends every table is sound and counts its elements exactly if every element that was taken
fits. -/
theorem appends_iff {elemSize : UInt32} (positive : elemSize ≠ 0) (arenas : List ArenaAt) {table : MirTable}
    (sound : table.Sound elemSize) :
    Counts elemSize table (table.appends elemSize arenas) ↔
      ∀ t ∈ (table.appends elemSize arenas).dropLast, t.Fits elemSize := by
  induction arenas generalizing table with
  | nil => exact ⟨fun _ => nofun, fun _ => .single sound⟩
  | cons at_ rest ih =>
    unfold appends
    cases appended : table.append at_ elemSize with
    | none => exact ⟨fun _ => nofun, fun _ => .single sound⟩
    | some next =>
      have taken := append_exact_iff positive sound appended
      obtain ⟨more, run⟩ := appends_head elemSize rest next
      have parts : (table :: next.appends elemSize rest).dropLast =
          table :: (next.appends elemSize rest).dropLast := by
        rw [run]
        rfl
      simp only [parts, List.forall_mem_cons]
      constructor
      · intro counts
        have first := counts 1 next (by rw [run]; rfl)
        exact ⟨taken.mp first, (ih first.2).mp ((Counts.cons_iff sound first.1).mp counts)⟩
      · rintro ⟨fits, later⟩
        obtain ⟨counted, soundNext⟩ := taken.mpr fits
        exact (Counts.cons_iff sound counted).mpr ((ih soundNext).mpr later)

theorem empty_sound (elemSize : UInt32) : MirTable.empty.Sound elemSize := by
  refine ⟨UInt32.le_refl _, ?_⟩
  change 0 = 0 * elemSize.toNat
  omega

end MirTable

end

/-- The lengths up to which the buffers of the lexer, the parser and the expression builder are of the size that is
meant. An element of a table gets its room exactly if it fits, and the tables of a run of appends are all sound
exactly if each element that was taken fits. -/
theorem capacity_exact (srcLen tokLen astLen elemSize : UInt32) (positive : elemSize ≠ 0) :
    ((CapSite.tokens srcLen).Exact ↔ srcLen.toNat ≤ 357913939) ∧
    ((CapSite.nodes tokLen).Exact ↔ tokLen.toNat ≤ 33554427) ∧
    ((CapSite.exprInsts astLen).Exact ↔ astLen.toNat ≤ 53687089) ∧
    (∀ table : MirTable, table.Sound elemSize → (table.AppendExact elemSize ↔ table.Fits elemSize)) ∧
    ∀ arenas, MirTable.Counts elemSize .empty (MirTable.empty.appends elemSize arenas) ↔
      ∀ t ∈ (MirTable.empty.appends elemSize arenas).dropLast, t.Fits elemSize := by
  refine ⟨?_, ?_, ?_, ?_, ?_⟩
  · rw [CapSite.exact_iff, CapSite.count, CapSite.size, tokenSize]
    omega
  · rw [CapSite.exact_iff, CapSite.count, CapSite.size, astNodeSize]
    omega
  · rw [CapSite.exact_iff, CapSite.count, CapSite.size, mirInstSize]
    omega
  · exact fun table sound => MirTable.appendExact_iff positive sound
  · exact fun arenas => MirTable.appends_iff positive arenas (MirTable.empty_sound elemSize)

/-- A small source, and the first element of a table of instructions. -/
theorem capacity_exact_samples :
    (CapSite.tokens 100).Exact ∧ MirTable.AppendExact (UInt32.ofNat mirInstSize) .empty := by
  have exactly := capacity_exact 100 100 100 (UInt32.ofNat mirInstSize) (by decide)
  exact ⟨exactly.1.mpr (by decide), (exactly.2.2.2.1 .empty (MirTable.empty_sound _)).mpr (.inr (by decide))⟩

/-- For a source of 341 MiB eight bytes are asked for, and room for more than 357 million tokens is recorded. -/
theorem not_exact_tokens : ¬(CapSite.tokens 357913940).Exact := by
  intro exact_
  have granted : (CapSite.tokens 357913940).buffer wideArena = some ⟨357913942, 8⟩ := by
    rw [CapSite.buffer_eq]
    exact wideArena_buffer _ _ (.inl rfl)
  have bytes := (exact_ _ _ granted).bytes
  cases bytes

end HopHop
