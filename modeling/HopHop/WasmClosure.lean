import HopHop.LinearMemory
import HopHop.WasmModule

namespace HopHop.Wasm

/-! ### Instructions -/

/-- The instructions that closures are made of. A global is the one that its index is meant for. -/
inductive Instr
  | localGet (i : Nat)
  | localSet (i : Nat)
  | globalGet (g : GlobalEntity)
  | globalSet (g : GlobalEntity)
  | i32Const (x : UInt32)
  | i32Add
  | i32Load
  | i32Store
  | typedLoad (width : Nat) (signed : Bool)
  | typedStore (width : Nat)
  deriving DecidableEq, Repr

structure Machine where
  stack : List UInt32
  locals : Nat → UInt32
  globals : GlobalEntity → UInt32
  memory : LinearMemory

/-- The word for a number of so many bytes. -/
def extend (width : Nat) (signed : Bool) (n : Nat) : UInt32 :=
  if signed ∧ 256 ^ width ≤ 2 * n then UInt32.ofNat n - UInt32.ofNat (256 ^ width) else UInt32.ofNat n

/-- One instruction; `none` when it traps. -/
def Instr.exec : Instr → Machine → Option Machine
  | .localGet i, m => some { m with stack := m.locals i :: m.stack }
  | .localSet i, m =>
    match m.stack with
    | [] => none
    | x :: stack => some { m with stack, locals := Function.update m.locals i x }
  | .globalGet g, m => some { m with stack := m.globals g :: m.stack }
  | .globalSet g, m =>
    match m.stack with
    | [] => none
    | x :: stack => some { m with stack, globals := Function.update m.globals g x }
  | .i32Const x, m => some { m with stack := x :: m.stack }
  | .i32Add, m =>
    match m.stack with
    | y :: x :: stack => some { m with stack := (x + y) :: stack }
    | _ => none
  | .i32Load, m =>
    match m.stack with
    | [] => none
    | a :: stack => (m.memory.loadWord a).map fun x => { m with stack := x :: stack }
  | .i32Store, m =>
    match m.stack with
    | x :: a :: stack => (m.memory.storeWord a x).map fun memory => { m with stack, memory }
    | _ => none
  | .typedLoad width signed, m =>
    match m.stack with
    | [] => none
    | a :: stack =>
      (m.memory.loadBytes a.toNat width).map fun bytes =>
        { m with stack := extend width signed (LinearMemory.number bytes) :: stack }
  | .typedStore width, m =>
    match m.stack with
    | x :: a :: stack =>
      (m.memory.storeBytes a.toNat (LinearMemory.digits width x.toNat)).map fun memory => { m with stack, memory }
    | _ => none

def run : List Instr → Machine → Option Machine
  | [], m => some m
  | instr :: code, m => (instr.exec m).bind (run code)

theorem run_append (first second : List Instr) (m : Machine) : run (first ++ second) m = (run first m).bind (run second) := by
  induction first generalizing m with
  | nil => rfl
  | cons instr first ih =>
    rw [List.cons_append, run, run, Option.bind_assoc]
    exact congrArg _ (funext ih)

/-! ### The frame of a function -/

/-- `WasmAlign4`, for frames below the size of the address space. -/
def alignFour (n : Nat) : Nat := (n + 3) / 4 * 4

/-- What is laid out before the records of the closures is in the start of those. -/
structure EmitState where
  usesFrame : Bool
  closureFrameStart : Nat
  hiddenLocalStart : Nat
  deriving DecidableEq, Repr

namespace EmitState

variable (state : EmitState)

def frameBaseLocal : Nat := state.hiddenLocalStart
def scratch0Local : Nat := state.hiddenLocalStart + 1

/-- The loop that makes room for the records. -/
def recordsEnd : List MirInst → Nat → Nat
  | [], offset => offset
  | inst :: code, offset =>
    recordsEnd code (if inst.op = .MAKE_CLOSURE then alignFour offset + inst.tok.toNat * 4 else offset)

def frameSize (code : List MirInst) : Nat :=
  if state.usesFrame then alignFour (recordsEnd code state.closureFrameStart) else 0

/-- The loop of `WasmClosureOffsetForPc`. -/
def closureOffsetFrom : List MirInst → Nat → Nat → Option Nat
  | [], _, _ => none
  | inst :: code, pc, offset =>
    if inst.op ≠ .MAKE_CLOSURE then
      match pc with
      | 0 => none
      | pc + 1 => closureOffsetFrom code pc offset
    else
      match pc with
      | 0 => some (alignFour offset)
      | pc + 1 => closureOffsetFrom code pc (alignFour offset + inst.tok.toNat * 4)

def closureOffsetForPc (code : List MirInst) (pc : Nat) : Option Nat :=
  closureOffsetFrom code pc state.closureFrameStart

def emitAddrFromFrame (offset addend : Nat) : List Instr :=
  [.localGet state.frameBaseLocal, .i32Const (UInt32.ofNat (offset + addend)), .i32Add]

/-- The loop that moves captured addresses from the stack to a record, the last first. -/
def emitCaptureStores (closureOffset : Nat) : Nat → List Instr
  | 0 => []
  | i + 1 =>
    .localSet state.scratch0Local :: state.emitAddrFromFrame (closureOffset + i * 4) 0 ++
      [.localGet state.scratch0Local, .i32Store] ++ emitCaptureStores closureOffset i

end EmitState

namespace ModulePlan

variable (plan : ModulePlan)

/-- The branch of `WasmEmitFunctionRange` for a closure. -/
def emitMakeClosure (state : EmitState) (code : List MirInst) (pc : Nat) (inst : MirInst) : Option (List Instr) :=
  if ¬state.usesFrame ∨ plan.imports.closureGlobalCount = 0 then none
  else
    match plan.unit.functionConst inst.aux, state.closureOffsetForPc code pc with
    | some targetFn, some closureOffset =>
      if plan.funcLen ≤ targetFn ∨ plan.imports.closureGlobalCount ≤ targetFn then none
      else
        some (state.emitCaptureStores closureOffset inst.tok.toNat ++ state.emitAddrFromFrame closureOffset 0 ++
          [.globalSet (.closure targetFn), .i32Const (UInt32.ofNat targetFn)])
    | _, _ => none

/-- What the three branches for captures share: the address of a captured variable. -/
def captureAddress (i aux : Nat) : List Instr :=
  [.globalGet (.closure i), .i32Const (UInt32.ofNat (aux * 4)), .i32Add, .i32Load]

def emitCaptureAddr (i aux captureCount : Nat) : Option (List Instr) :=
  if plan.imports.closureGlobalCount = 0 ∨ plan.imports.closureGlobalCount ≤ i ∨ captureCount ≤ aux then none
  else some (captureAddress i aux)

def emitCaptureLoad (i aux width : Nat) (signed : Bool) : List Instr := captureAddress i aux ++ [.typedLoad width signed]

def emitCaptureStore (state : EmitState) (i aux width : Nat) : List Instr :=
  .localSet state.scratch0Local :: captureAddress i aux ++ [.localGet state.scratch0Local, .typedStore width]

end ModulePlan

/-! ### What the code does -/

theorem toNat_add_ofNat {base : UInt32} {k : Nat} (fits : base.toNat + k < 2 ^ 32) :
    (base + UInt32.ofNat k).toNat = base.toNat + k := by
  rw [UInt32.toNat_add, UInt32.toNat_ofNat', Nat.mod_eq_of_lt (show k < 2 ^ 32 by omega), Nat.mod_eq_of_lt fits]

theorem add_ofNat_add (base : UInt32) (j k : Nat) :
    base + UInt32.ofNat j + UInt32.ofNat k = base + UInt32.ofNat (j + k) := by
  rw [UInt32.add_assoc, UInt32.ofNat_add]

/-- The words of a record. -/
def Holds (memory : LinearMemory) (record : UInt32) (captures : List UInt32) : Prop :=
  ∀ i x, captures[i]? = some x → memory.loadWord (record + UInt32.ofNat (i * 4)) = some x

/-- Two memories of one size that have the same bytes, apart from some addresses. -/
def SameApart (low high : Nat) (memory memory' : LinearMemory) : Prop :=
  memory'.size = memory.size ∧ ∀ b, b < low ∨ high ≤ b → memory'.byte b = memory.byte b

/-- A record stays where nothing is changed in it. -/
theorem Holds.sameApart {memory memory' : LinearMemory} {record : UInt32} {captures : List UInt32} {low high : Nat}
    (holds : Holds memory record captures) (same : SameApart low high memory memory')
    (fits : record.toNat + captures.length * 4 ≤ 2 ^ 32)
    (apart : record.toNat + captures.length * 4 ≤ low ∨ high ≤ record.toNat) : Holds memory' record captures := by
  intro i x found
  have bound := (List.getElem?_eq_some_iff.mp found).1
  rw [← holds i x found]
  refine LinearMemory.loadWord_congr same.1 fun b lower upper => same.2 b ?_
  rw [toNat_add_ofNat (by omega)] at lower upper
  omega

variable {state : EmitState} {m m' : Machine}

theorem run_captureStore {offset : Nat} {x : UInt32} {rest : List UInt32} (stack : m.stack = x :: rest)
    (fits : (m.locals state.frameBaseLocal).toNat + offset + 4 ≤ 2 ^ 32)
    (ran : run (.localSet state.scratch0Local :: state.emitAddrFromFrame offset 0 ++
      [.localGet state.scratch0Local, .i32Store]) m = some m') :
    m'.stack = rest ∧ m'.locals state.frameBaseLocal = m.locals state.frameBaseLocal ∧ m'.globals = m.globals ∧
      m'.memory.loadWord (m.locals state.frameBaseLocal + UInt32.ofNat offset) = some x ∧
      SameApart ((m.locals state.frameBaseLocal).toNat + offset) ((m.locals state.frameBaseLocal).toNat + offset + 4)
        m.memory m'.memory := by
  have other : state.frameBaseLocal ≠ state.scratch0Local := by
    rw [EmitState.frameBaseLocal, EmitState.scratch0Local]
    omega
  simp only [EmitState.emitAddrFromFrame, List.cons_append, List.nil_append, run, Instr.exec, stack, Option.bind_some,
    Function.update_self, Function.update_of_ne other, Nat.add_zero, Option.bind_eq_some_iff, Option.map_eq_some_iff] at ran
  obtain ⟨_, ⟨memory, stored, rfl⟩, same⟩ := ran
  rw [← Option.some.inj same]
  have low := toNat_add_ofNat (show (m.locals state.frameBaseLocal).toNat + offset < 2 ^ 32 by omega)
  refine ⟨rfl, Function.update_of_ne other .., rfl, LinearMemory.loadWord_storeWord stored, ?_, ?_⟩
  · exact LinearMemory.storeBytes_size stored
  · intro b apart
    exact LinearMemory.storeWord_byte stored (by omega)

/-- The record that the loop leaves has the captured addresses in their order. -/
theorem run_captureStores {offset : Nat} {captures rest : List UInt32} (stack : m.stack = captures.reverse ++ rest)
    (fits : (m.locals state.frameBaseLocal).toNat + offset + captures.length * 4 ≤ 2 ^ 32)
    (ran : run (state.emitCaptureStores offset captures.length) m = some m') :
    m'.stack = rest ∧ m'.locals state.frameBaseLocal = m.locals state.frameBaseLocal ∧ m'.globals = m.globals ∧
      Holds m'.memory (m.locals state.frameBaseLocal + UInt32.ofNat offset) captures ∧
      SameApart ((m.locals state.frameBaseLocal).toNat + offset)
        ((m.locals state.frameBaseLocal).toNat + offset + captures.length * 4) m.memory m'.memory := by
  induction captures using List.reverseRecOn generalizing m with
  | nil =>
    rw [List.length_nil, EmitState.emitCaptureStores, run] at ran
    rw [← Option.some.inj ran]
    refine ⟨stack, rfl, rfl, ?_, rfl, fun _ _ => rfl⟩
    intro i x found
    cases found
  | append_singleton captures x ih =>
    rw [List.length_append, List.length_singleton] at fits ran ⊢
    rw [EmitState.emitCaptureStores, run_append, Option.bind_eq_some_iff] at ran
    obtain ⟨middle, first, later⟩ := ran
    rw [List.reverse_append, List.reverse_singleton, List.append_assoc, List.singleton_append] at stack
    obtain ⟨stack', base', globals', holds', size', bytes'⟩ := run_captureStore stack (by omega) first
    rw [← base'] at fits
    obtain ⟨stack'', base'', globals'', holds'', size'', bytes''⟩ := ih stack' (by omega) later
    rw [base'] at fits base'' holds'' bytes''
    refine ⟨stack'', base'', globals''.trans globals', ?_, size''.trans size', ?_⟩
    · intro i y found
      rw [add_ofNat_add]
      by_cases old : i < captures.length
      · rw [List.getElem?_append_left old] at found
        have word := holds'' i y found
        rwa [add_ofNat_add] at word
      · have bound := (List.getElem?_eq_some_iff.mp found).1
        rw [List.length_append, List.length_singleton] at bound
        obtain rfl : i = captures.length := by omega
        rw [List.getElem?_append_right (Nat.le_refl _), Nat.sub_self, List.getElem?_cons_zero] at found
        rw [← Option.some.inj found, ← holds']
        refine LinearMemory.loadWord_congr size'' fun b low high => bytes'' b (Or.inr ?_)
        rw [toNat_add_ofNat (by omega)] at low
        omega
    · intro b apart
      exact (bytes'' b (by omega)).trans (bytes' b (by omega))

theorem ModulePlan.emitMakeClosure_eq_some {plan : ModulePlan} {code : List MirInst} {pc : Nat} {inst : MirInst}
    {emitted : List Instr} (isEmitted : plan.emitMakeClosure state code pc inst = some emitted) :
    state.usesFrame = true ∧ ∃ offset, state.closureOffsetForPc code pc = some offset := by
  rw [emitMakeClosure] at isEmitted
  split at isEmitted
  · cases isEmitted
  · rename_i supported
    refine ⟨not_not.mp (not_or.mp supported).1, ?_⟩
    split at isEmitted
    · exact ⟨_, ‹_›⟩
    · cases isEmitted

/-- A closure leaves its record behind its global, and the index of its function. -/
theorem run_makeClosure {plan : ModulePlan} {code : List MirInst} {pc : Nat} {inst : MirInst} {emitted : List Instr}
    (isEmitted : plan.emitMakeClosure state code pc inst = some emitted) {captures rest : List UInt32}
    (stack : m.stack = captures.reverse ++ rest) (arity : captures.length = inst.tok.toNat) {offset : Nat}
    (offsetAt : state.closureOffsetForPc code pc = some offset)
    (fits : (m.locals state.frameBaseLocal).toNat + offset + captures.length * 4 ≤ 2 ^ 32)
    (ran : run emitted m = some m') :
    ∃ targetFn, plan.unit.functionConst inst.aux = some targetFn ∧ m'.stack = UInt32.ofNat targetFn :: rest ∧
      m'.globals = Function.update m.globals (.closure targetFn) (m.locals state.frameBaseLocal + UInt32.ofNat offset) ∧
      Holds m'.memory (m.locals state.frameBaseLocal + UInt32.ofNat offset) captures ∧
      SameApart ((m.locals state.frameBaseLocal).toNat + offset)
        ((m.locals state.frameBaseLocal).toNat + offset + captures.length * 4) m.memory m'.memory := by
  rw [ModulePlan.emitMakeClosure] at isEmitted
  split at isEmitted
  · cases isEmitted
  · rw [offsetAt] at isEmitted
    cases target : plan.unit.functionConst inst.aux with
    | none =>
      rw [target] at isEmitted
      cases isEmitted
    | some targetFn =>
      simp only [target] at isEmitted
      split at isEmitted
      · cases isEmitted
      · rw [← Option.some.inj isEmitted, List.append_assoc, run_append, Option.bind_eq_some_iff, ← arity] at ran
        obtain ⟨middle, first, later⟩ := ran
        obtain ⟨stack', base', globals', holds', same'⟩ := run_captureStores stack fits first
        simp only [EmitState.emitAddrFromFrame, List.cons_append, List.nil_append, run, Instr.exec, Option.bind_some,
          Option.some.injEq, Nat.add_zero, stack', base', globals'] at later
        rw [← later]
        exact ⟨targetFn, rfl, rfl, rfl, holds', same'⟩

/-- A capture is found through the global of the function. -/
theorem run_captureAddress {i aux : Nat} {captures : List UInt32} {x : UInt32}
    (holds : Holds m.memory (m.globals (.closure i)) captures) (capture : captures[aux]? = some x) :
    run (ModulePlan.captureAddress i aux) m = some { m with stack := x :: m.stack } := by
  simp only [ModulePlan.captureAddress, run, Instr.exec, Option.bind_some, holds aux x capture, Option.map_some]

theorem ModulePlan.emitCaptureAddr_eq_some {plan : ModulePlan} {i aux captureCount : Nat} {code : List Instr}
    (emitted : plan.emitCaptureAddr i aux captureCount = some code) : code = captureAddress i aux := by
  rw [emitCaptureAddr] at emitted
  split at emitted
  · cases emitted
  · exact (Option.some.inj emitted).symm

theorem run_captureLoad {i aux width : Nat} {signed : Bool} {captures : List UInt32} {x : UInt32}
    (holds : Holds m.memory (m.globals (.closure i)) captures) (capture : captures[aux]? = some x)
    (ran : run (ModulePlan.emitCaptureLoad i aux width signed) m = some m') :
    m'.globals = m.globals ∧ m'.memory = m.memory := by
  rw [ModulePlan.emitCaptureLoad, run_append, run_captureAddress holds capture] at ran
  simp only [run, Instr.exec, Option.bind_some, Option.bind_eq_some_iff, Option.map_eq_some_iff] at ran
  obtain ⟨_, ⟨bytes, _, rfl⟩, same⟩ := ran
  rw [← Option.some.inj same]
  exact ⟨rfl, rfl⟩

/-- A store to a capture is one to the captured variable. -/
theorem run_emitCaptureStore {i aux width : Nat} {captures rest : List UInt32} {x value : UInt32}
    (holds : Holds m.memory (m.globals (.closure i)) captures) (capture : captures[aux]? = some x)
    (stack : m.stack = value :: rest) (ran : run (ModulePlan.emitCaptureStore state i aux width) m = some m') :
    m'.globals = m.globals ∧
      m.memory.storeBytes x.toNat (LinearMemory.digits width value.toNat) = some m'.memory := by
  rw [ModulePlan.emitCaptureStore, List.cons_append, run] at ran
  simp only [Instr.exec, stack, Option.bind_some] at ran
  have found := @run_captureAddress ⟨rest, Function.update m.locals state.scratch0Local value, m.globals, m.memory⟩
    i aux captures x holds capture
  rw [run_append, found] at ran
  simp only [run, Instr.exec, Option.bind_some, Function.update_self, Option.bind_eq_some_iff,
    Option.map_eq_some_iff] at ran
  obtain ⟨_, ⟨memory, stored, rfl⟩, same⟩ := ran
  rw [← Option.some.inj same]
  exact ⟨rfl, stored⟩

end HopHop.Wasm
