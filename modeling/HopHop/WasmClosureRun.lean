import Mathlib.Data.List.Nodup
import HopHop.WasmClosure

namespace HopHop.Wasm

/-! ### Where the records of a frame are -/

namespace EmitState

theorem le_alignFour (n : Nat) : n ≤ alignFour n := by
  rw [alignFour]
  omega

theorem le_recordsEnd (code : List MirInst) (offset : Nat) : offset ≤ recordsEnd code offset := by
  induction code generalizing offset with
  | nil => exact Nat.le_refl offset
  | cons inst code ih =>
    rw [recordsEnd]
    refine Nat.le_trans ?_ (ih _)
    split
    · have aligned := le_alignFour offset
      omega
    · exact Nat.le_refl offset

/-- A record lies behind where the records start and before where they end. -/
theorem closureOffsetFrom_bounds {code : List MirInst} {pc start offset : Nat}
    (found : closureOffsetFrom code pc start = some offset) :
    ∃ inst, code[pc]? = some inst ∧ inst.op = .MAKE_CLOSURE ∧ start ≤ offset ∧
      offset + inst.tok.toNat * 4 ≤ recordsEnd code start := by
  induction code generalizing pc start with
  | nil => cases found
  | cons inst code ih =>
    rw [closureOffsetFrom.eq_def] at found
    dsimp only at found
    rw [recordsEnd]
    by_cases makes : inst.op = .MAKE_CLOSURE
    · rw [if_neg (not_not.mpr makes)] at found
      rw [if_pos makes]
      have aligned := le_alignFour start
      cases pc with
      | zero =>
        rw [← Option.some.inj found]
        exact ⟨inst, rfl, makes, aligned, le_recordsEnd ..⟩
      | succ pc =>
        obtain ⟨inst', at_, makes', low, high⟩ := ih found
        exact ⟨inst', at_, makes', by omega, high⟩
    · rw [if_pos makes] at found
      rw [if_neg makes]
      cases pc with
      | zero => cases found
      | succ pc => exact ih found

/-- The record of a later instruction starts where the record of an earlier one has ended. -/
theorem closureOffsetFrom_apart {code : List MirInst} {pc pc' start offset offset' : Nat} {inst : MirInst}
    (found : closureOffsetFrom code pc start = some offset) (found' : closureOffsetFrom code pc' start = some offset')
    (before : pc < pc') (at_ : code[pc]? = some inst) : offset + inst.tok.toNat * 4 ≤ offset' := by
  induction code generalizing pc pc' start with
  | nil => cases found
  | cons first code ih =>
    rw [closureOffsetFrom.eq_def] at found found'
    dsimp only at found found'
    obtain ⟨pc', rfl⟩ := Nat.exists_eq_succ_of_ne_zero (Nat.ne_zero_of_lt before)
    by_cases makes : first.op = .MAKE_CLOSURE
    · rw [if_neg (not_not.mpr makes)] at found found'
      cases pc with
      | zero =>
        rw [← Option.some.inj found, ← Option.some.inj at_]
        obtain ⟨_, _, _, low, _⟩ := closureOffsetFrom_bounds found'
        exact low
      | succ pc => exact ih found found' (Nat.lt_of_succ_lt_succ before) at_
    · rw [if_pos makes] at found found'
      cases pc with
      | zero => cases found
      | succ pc => exact ih found found' (Nat.lt_of_succ_lt_succ before) at_

end EmitState

/-! ### Runs -/

/-- An active call: its function, where its frame is, the function value it was called through, and its number among
all calls. -/
structure Activation where
  fn : Nat
  base : UInt32
  called : Option Nat
  serial : Nat
  deriving DecidableEq, Repr

/-- A function value that a closure made: its function, the addresses of the variables that were captured, and the call
that made it. A value itself is the index of the function only. -/
structure ClosureValue where
  fn : Nat
  captures : List UInt32
  creator : Nat
  deriving DecidableEq, Repr

inductive CaptureOp
  | load (width : Nat) (signed : Bool)
  | store (width : Nat) (value : UInt32)
  | addr
  deriving DecidableEq, Repr

/-- What the code of a module does to the records of closures: calls and returns, closures with the captured addresses
that are on the stack, other stores, and what is done to captured variables. -/
inductive ClosureEvent
  | call (fn : Nat) (value : Option Nat)
  | leave
  | makeClosure (pc : Nat) (captures : List UInt32)
  | store (a : Nat) (bytes : List UInt8)
  | capture (op : CaptureOp) (aux : Nat)
  deriving DecidableEq, Repr

/-- The memory, the globals, the active calls, the last first, and the function values made so far. -/
structure ClosureState where
  memory : LinearMemory
  globals : GlobalEntity → UInt32
  calls : List Activation
  values : List ClosureValue
  serial : Nat

section Run

variable (plan : ModulePlan) (layout : Nat → EmitState)

def frameSize (fn : Nat) : Nat := (layout fn).frameSize (plan.unit.code fn)

/-- The machine at an instruction of a call. -/
def ClosureState.machine (s : ClosureState) (act : Activation) (stack : List UInt32) : Machine :=
  ⟨stack, Function.update (fun _ => 0) (layout act.fn).frameBaseLocal act.base, s.globals, s.memory⟩

/-- The code for what is done to a captured variable. -/
def emitCapture (fn : Nat) (op : CaptureOp) (aux : Nat) : Option (List Instr) :=
  match op with
  | .load width signed => some (ModulePlan.emitCaptureLoad fn aux width signed)
  | .store width _ => some (ModulePlan.emitCaptureStore (layout fn) fn aux width)
  | .addr =>
    plan.emitCaptureAddr fn aux (((plan.unit.mirProgram.funcs[fn]?).map (·.captureCount.toNat)).getD 0)

def CaptureOp.operands : CaptureOp → List UInt32
  | .store _ value => [value]
  | _ => []

/-- One event; `none` when it traps or cannot happen. A call through a value is one of the function whose index it is. -/
def closureStep (s : ClosureState) : ClosureEvent → Option ClosureState
  | .call fn value =>
    if value.any fun v => (s.values[v]?).all fun made => made.fn ≠ fn then none
    else
      some { s with
        globals := Function.update s.globals .frame (s.globals .frame + UInt32.ofNat (frameSize plan layout fn))
        calls := ⟨fn, s.globals .frame, value, s.serial⟩ :: s.calls
        serial := s.serial + 1 }
  | .leave =>
    match s.calls with
    | [] => none
    | act :: calls => some { s with globals := Function.update s.globals .frame act.base, calls }
  | .makeClosure pc captures =>
    match s.calls with
    | [] => none
    | act :: _ =>
      match (plan.unit.code act.fn)[pc]? with
      | none => none
      | some inst =>
        if inst.op ≠ .MAKE_CLOSURE ∨ captures.length ≠ inst.tok.toNat then none
        else
          match plan.emitMakeClosure (layout act.fn) (plan.unit.code act.fn) pc inst, plan.unit.functionConst inst.aux with
          | some code, some targetFn =>
            (run code (s.machine layout act captures.reverse)).map fun m =>
              { s with
                memory := m.memory
                globals := m.globals
                values := s.values ++ [⟨targetFn, captures, act.serial⟩] }
          | _, _ => none
  | .store a bytes => (s.memory.storeBytes a bytes).map fun memory => { s with memory }
  | .capture op aux =>
    match s.calls with
    | [] => none
    | act :: _ =>
      match emitCapture plan layout act.fn op aux with
      | none => none
      | some code =>
        (run code (s.machine layout act op.operands)).map fun m => { s with memory := m.memory, globals := m.globals }

/-- The closure of a function that was made last. -/
def lastValue (values : List ClosureValue) (fn : Nat) : Option ClosureValue := (values.filter (·.fn = fn)).getLast?

/-- The start of a run: nothing was called, and the closure globals are 0. -/
def closureStart (memory : LinearMemory) : ClosureState :=
  ⟨memory, Function.update (fun _ => 0) .frame plan.frameBaseInit, [], [], 0⟩

/-- The states of the runs whose events are all admitted. -/
inductive ClosureReached (admits : ClosureState → ClosureEvent → Prop) (memory : LinearMemory) : ClosureState → Prop
  | start : ClosureReached admits memory (closureStart plan memory)
  | step {s s' : ClosureState} {event : ClosureEvent} : ClosureReached admits memory s → admits s event →
    closureStep plan layout s event = some s' → ClosureReached admits memory s'

/-- Addresses that no record of an active call has. -/
def Clear (s : ClosureState) (low high : Nat) : Prop :=
  ∀ act ∈ s.calls, high ≤ act.base.toNat + (layout act.fn).closureFrameStart ∨
    act.base.toNat + frameSize plan layout act.fn ≤ low

/-- The variable with a number among those that the function value captured through which a call was made. -/
def CapturedBy (s : ClosureState) (act : Activation) (aux : Nat) (x : UInt32) : Prop :=
  ∃ v made, act.called = some v ∧ s.values[v]? = some made ∧ made.captures[aux]? = some x

/-- The function value through which a call was made is the last closure of its function, or that captured the same
variables, and the call that made it is still active. -/
def CalledLast (s : ClosureState) (act : Activation) : Prop :=
  ∃ v made last, act.called = some v ∧ s.values[v]? = some made ∧ lastValue s.values made.fn = some last ∧
    last.captures = made.captures ∧ ∃ creator ∈ s.calls, creator.serial = last.creator

/-- When captures are kept: frames stay in the address space, no store hits the record of an active call, and a
captured variable is used only in a call of the last closure of its function, while the call that made that is active. -/
def KeepsRecords (s : ClosureState) : ClosureEvent → Prop
  | .call fn _ => (s.globals .frame).toNat + frameSize plan layout fn < 2 ^ 32
  | .store a bytes => Clear plan layout s a (a + bytes.length)
  | .capture op aux =>
    ∀ act ∈ s.calls.head?, CalledLast s act ∧ ∃ x, CapturedBy s act aux x ∧
      match op with
      | .store width _ => Clear plan layout s x.toNat (x.toNat + width)
      | _ => True
  | _ => True

end Run

/-! ### What holds in a run -/

section Invariant

variable (plan : ModulePlan) (layout : Nat → EmitState)

/-- The record of a closure, in the frame of the call that made it. -/
structure Recorded (s : ClosureState) (act : Activation) (made : ClosureValue) (pc offset : Nat) : Prop where
  usesFrame : (layout act.fn).usesFrame = true
  offsetAt : (layout act.fn).closureOffsetForPc (plan.unit.code act.fn) pc = some offset
  makes : ∃ inst, (plan.unit.code act.fn)[pc]? = some inst ∧ plan.unit.functionConst inst.aux = some made.fn ∧
    made.captures.length = inst.tok.toNat
  global : s.globals (.closure made.fn) = act.base + UInt32.ofNat offset
  holds : Holds s.memory (act.base + UInt32.ofNat offset) made.captures

structure RecordsKept (s : ClosureState) : Prop where
  frames : s.calls.Pairwise fun later earlier => earlier.base.toNat + frameSize plan layout earlier.fn ≤ later.base.toNat
  inside : ∀ act ∈ s.calls, act.base.toNat + frameSize plan layout act.fn ≤ (s.globals .frame).toNat
  serials : (s.calls.map Activation.serial).Nodup
  below : ∀ act ∈ s.calls, act.serial < s.serial
  creators : ∀ made ∈ s.values, made.creator < s.serial
  called : ∀ act ∈ s.calls, ∀ v, act.called = some v → ∃ made, s.values[v]? = some made ∧ made.fn = act.fn
  recorded : ∀ fn made, lastValue s.values fn = some made → ∀ act ∈ s.calls, act.serial = made.creator →
    ∃ pc offset, Recorded plan layout s act made pc offset

variable {plan : ModulePlan} {layout : Nat → EmitState} {s s' : ClosureState} {act : Activation} {made : ClosureValue}
  {pc offset : Nat}

theorem update_frame_closure (globals : GlobalEntity → UInt32) (x : UInt32) (fn : Nat) :
    Function.update globals .frame x (.closure fn) = globals (.closure fn) :=
  Function.update_of_ne GlobalEntity.noConfusion x globals

theorem update_closure_frame (globals : GlobalEntity → UInt32) (x : UInt32) (fn : Nat) :
    Function.update globals (.closure fn) x .frame = globals .frame :=
  Function.update_of_ne GlobalEntity.noConfusion x globals

theorem update_closure_closure (globals : GlobalEntity → UInt32) (x : UInt32) {fn other : Nat} (apart : other ≠ fn) :
    Function.update globals (.closure fn) x (.closure other) = globals (.closure other) :=
  Function.update_of_ne (fun same => apart (GlobalEntity.closure.inj same)) x globals

theorem mem_of_lastValue {values : List ClosureValue} {fn : Nat} {last : ClosureValue}
    (found : lastValue values fn = some last) : last ∈ values ∧ last.fn = fn := by
  have member := List.mem_of_getLast? found
  exact ⟨List.mem_of_mem_filter member, of_decide_eq_true (List.mem_filter.mp member).2⟩

theorem lastValue_append_self (values : List ClosureValue) (made : ClosureValue) :
    lastValue (values ++ [made]) made.fn = some made := by
  rw [lastValue, List.filter_append, List.filter_singleton, decide_eq_true rfl]
  exact List.getLast?_concat ..

theorem lastValue_append_other (values : List ClosureValue) {made : ClosureValue} {fn : Nat} (other : made.fn ≠ fn) :
    lastValue (values ++ [made]) fn = lastValue values fn := by
  rw [lastValue, lastValue, List.filter_append, List.filter_singleton, decide_eq_false other]
  exact congrArg List.getLast? (List.append_nil _)

/-- A record lies in its frame, behind the start of the records. -/
theorem Recorded.bounds (recorded : Recorded plan layout s act made pc offset) :
    (layout act.fn).closureFrameStart ≤ offset ∧ offset + made.captures.length * 4 ≤ frameSize plan layout act.fn := by
  obtain ⟨inst, at_, _, arity⟩ := recorded.makes
  obtain ⟨inst', at', _, low, high⟩ := EmitState.closureOffsetFrom_bounds recorded.offsetAt
  rw [at_] at at'
  rw [← Option.some.inj at', ← arity] at high
  have aligned := EmitState.le_alignFour
    (EmitState.recordsEnd (plan.unit.code act.fn) (layout act.fn).closureFrameStart)
  rw [frameSize, EmitState.frameSize, if_pos recorded.usesFrame]
  omega

/-- A change of the memory that is apart from a record leaves it there. -/
theorem Recorded.sameApart (recorded : Recorded plan layout s act made pc offset) {low high : Nat}
    (inside : act.base.toNat + frameSize plan layout act.fn < 2 ^ 32)
    (global : s'.globals (.closure made.fn) = s.globals (.closure made.fn))
    (same : SameApart low high s.memory s'.memory)
    (apart : act.base.toNat + offset + made.captures.length * 4 ≤ low ∨ high ≤ act.base.toNat + offset) :
    Recorded plan layout s' act made pc offset := by
  have bounds := recorded.bounds
  have start := toNat_add_ofNat (show act.base.toNat + offset < 2 ^ 32 by omega)
  refine ⟨recorded.usesFrame, recorded.offsetAt, recorded.makes, global.trans recorded.global, ?_⟩
  exact recorded.holds.sameApart same (by omega) (by omega)

theorem Recorded.keep (recorded : Recorded plan layout s act made pc offset)
    (global : s'.globals (.closure made.fn) = s.globals (.closure made.fn)) (memory : s'.memory = s.memory) :
    Recorded plan layout s' act made pc offset :=
  ⟨recorded.usesFrame, recorded.offsetAt, recorded.makes, global.trans recorded.global, memory ▸ recorded.holds⟩

theorem Recorded.moveFrame (recorded : Recorded plan layout s act made pc offset) {x : UInt32}
    (globals : s'.globals = Function.update s.globals .frame x) (memory : s'.memory = s.memory) :
    Recorded plan layout s' act made pc offset :=
  recorded.keep ((congrFun globals _).trans (update_frame_closure s.globals x made.fn)) memory

/-- What a closure does: its record is written in the frame of the call, and its global leads there. -/
theorem closureStep_makeClosure (inside : ∀ act ∈ s.calls, act.base.toNat + frameSize plan layout act.fn < 2 ^ 32)
    {captures : List UInt32} (stepped : closureStep plan layout s (.makeClosure pc captures) = some s') :
    ∃ act made offset, act ∈ s.calls.head? ∧ made.captures = captures ∧ made.creator = act.serial ∧
      Recorded plan layout s' act made pc offset ∧ s'.globals .frame = s.globals .frame ∧
      (∀ fn, fn ≠ made.fn → s'.globals (.closure fn) = s.globals (.closure fn)) ∧
      SameApart (act.base.toNat + offset) (act.base.toNat + offset + captures.length * 4) s.memory s'.memory ∧
      s' = { s with memory := s'.memory, globals := s'.globals, values := s.values ++ [made] } := by
  simp only [closureStep] at stepped
  split at stepped
  · cases stepped
  · rename_i act calls active
    have member : act ∈ s.calls := active ▸ List.mem_cons_self ..
    split at stepped
    · cases stepped
    · rename_i inst at_
      split at stepped
      · cases stepped
      · rename_i shape
        have arity := not_not.mp (not_or.mp shape).2
        split at stepped
        · rename_i code targetFn emitted target
          obtain ⟨m, ran, same⟩ := Option.map_eq_some_iff.mp stepped
          obtain ⟨usesFrame, offset, offsetAt⟩ := ModulePlan.emitMakeClosure_eq_some emitted
          obtain ⟨_, at', _, low, high⟩ := EmitState.closureOffsetFrom_bounds offsetAt
          rw [at_] at at'
          rw [← Option.some.inj at', ← arity] at high
          have base : (s.machine layout act captures.reverse).locals (layout act.fn).frameBaseLocal = act.base := by
            simp only [ClosureState.machine, Function.update_self]
          have room := inside act member
          have aligned := EmitState.le_alignFour
            (EmitState.recordsEnd (plan.unit.code act.fn) (layout act.fn).closureFrameStart)
          rw [frameSize, EmitState.frameSize, if_pos usesFrame] at room
          obtain ⟨targetFn', target', _, globals, holds, memory⟩ :=
            @run_makeClosure _ _ _ _ _ _ _ _ emitted captures [] (List.append_nil _).symm arity offset offsetAt
              (by rw [base]; omega) ran
          rw [target] at target'
          rw [base] at globals holds memory
          rw [← Option.some.inj target'] at globals
          rw [← same]
          refine ⟨act, ⟨targetFn, captures, act.serial⟩, offset, ?_, rfl, rfl, ?_, ?_, ?_, memory, rfl⟩
          · rw [active]
            rfl
          · refine ⟨usesFrame, offsetAt, ⟨inst, at_, target, arity⟩, ?_, holds⟩
            simp only [globals, Function.update_self]
          · simp only [globals, update_closure_frame]
            rfl
          · intro fn other
            simp only [globals, update_closure_closure _ _ other]
            rfl
        · cases stepped

/-- Closures of two functions have their records apart. -/
theorem Recorded.apart {s₁ s₂ : ClosureState} {first second : ClosureValue} {pc' offset' : Nat} {captures : List UInt32}
    (recorded : Recorded plan layout s₁ act first pc offset) (recorded' : Recorded plan layout s₂ act second pc' offset')
    (captured : second.captures = captures) (other : first.fn ≠ second.fn) :
    act.base.toNat + offset + first.captures.length * 4 ≤ act.base.toNat + offset' ∨
      act.base.toNat + offset' + captures.length * 4 ≤ act.base.toNat + offset := by
  obtain ⟨inst, at_, target, arity⟩ := recorded.makes
  obtain ⟨inst', at', target', arity'⟩ := recorded'.makes
  rcases Nat.lt_trichotomy pc pc' with before | same | behind
  · have apart := EmitState.closureOffsetFrom_apart recorded.offsetAt recorded'.offsetAt before at_
    omega
  · rw [same, at'] at at_
    rw [← Option.some.inj at_, target'] at target
    exact absurd (Option.some.inj target).symm other
  · have apart := EmitState.closureOffsetFrom_apart recorded'.offsetAt recorded.offsetAt behind at'
    rw [← captured]
    omega

namespace RecordsKept

variable {values : List ClosureValue}

theorem inside_lt (kept : RecordsKept plan layout s) (member : act ∈ s.calls) :
    act.base.toNat + frameSize plan layout act.fn < 2 ^ 32 :=
  Nat.lt_of_le_of_lt (kept.inside act member) (s.globals .frame).toNat_lt

theorem frame_below (kept : RecordsKept plan layout s) (active : act ∈ s.calls.head?) {earlier : Activation}
    (member : earlier ∈ s.calls) (other : earlier ≠ act) :
    earlier.base.toNat + frameSize plan layout earlier.fn ≤ act.base.toNat := by
  have frames := kept.frames
  obtain ⟨calls, same⟩ := List.head?_eq_some_iff.mp active
  rw [same] at frames member
  exact (List.pairwise_cons.mp frames).1 earlier ((List.mem_cons.mp member).resolve_left other)

theorem start (memory : LinearMemory) : RecordsKept plan layout (closureStart plan memory) :=
  ⟨.nil, fun _ none => (List.not_mem_nil none).elim, .nil, fun _ none => (List.not_mem_nil none).elim,
    fun _ none => (List.not_mem_nil none).elim, fun _ none => (List.not_mem_nil none).elim,
    fun _ _ none => nomatch none⟩

theorem call (kept : RecordsKept plan layout s) {fn : Nat} {value : Option Nat}
    (admitted : KeepsRecords plan layout s (.call fn value))
    (stepped : closureStep plan layout s (.call fn value) = some s') : RecordsKept plan layout s' := by
  simp only [closureStep] at stepped
  split at stepped
  · cases stepped
  · rename_i known
    rw [← Option.some.inj stepped]
    have grows := toNat_add_ofNat admitted
    refine ⟨?_, ?_, ?_, ?_, ?_, ?_, ?_⟩
    · exact List.pairwise_cons.mpr ⟨fun earlier member => kept.inside earlier member, kept.frames⟩
    · intro act member
      simp only [Function.update_self, grows]
      rcases List.mem_cons.mp member with rfl | old
      · exact Nat.le_refl _
      · exact Nat.le_trans (kept.inside act old) (Nat.le_add_right _ _)
    · refine List.nodup_cons.mpr ⟨fun member => ?_, kept.serials⟩
      obtain ⟨earlier, old, same⟩ := List.mem_map.mp member
      exact Nat.lt_irrefl _ (same ▸ kept.below earlier old)
    · intro act member
      rcases List.mem_cons.mp member with rfl | old
      · exact Nat.lt_succ_self _
      · exact Nat.lt_succ_of_lt (kept.below act old)
    · exact fun made member => Nat.lt_succ_of_lt (kept.creators made member)
    · intro act member v through
      rcases List.mem_cons.mp member with rfl | old
      · rw [show value = some v from through] at known
        cases found : s.values[v]? with
        | none =>
          rw [Option.any_some, found] at known
          exact absurd rfl known
        | some made =>
          rw [Option.any_some, found, Option.all_some, decide_eq_true_eq] at known
          exact ⟨made, rfl, not_not.mp known⟩
      · exact kept.called act old v through
    · intro f made last act member creator
      rcases List.mem_cons.mp member with rfl | old
      · have earlier := kept.creators made (mem_of_lastValue last).1
        rw [← creator] at earlier
        exact absurd earlier (Nat.lt_irrefl _)
      · obtain ⟨pc, offset, recorded⟩ := kept.recorded f made last act old creator
        exact ⟨pc, offset, recorded.moveFrame rfl rfl⟩

theorem leave (kept : RecordsKept plan layout s) (stepped : closureStep plan layout s .leave = some s') :
    RecordsKept plan layout s' := by
  simp only [closureStep] at stepped
  split at stepped
  · cases stepped
  · rename_i act calls active
    rw [← Option.some.inj stepped]
    have frames := kept.frames
    have serials := kept.serials
    rw [active, List.pairwise_cons] at frames
    rw [active, List.map_cons, List.nodup_cons] at serials
    have older : ∀ act ∈ calls, act ∈ s.calls := fun act member => active ▸ List.mem_cons_of_mem _ member
    refine ⟨frames.2, ?_, serials.2, fun act member => kept.below act (older act member), kept.creators,
      fun act member => kept.called act (older act member), ?_⟩
    · intro earlier member
      simp only [Function.update_self]
      exact frames.1 earlier member
    · intro f made last act' member creator
      obtain ⟨pc, offset, recorded⟩ := kept.recorded f made last act' (older act' member) creator
      exact ⟨pc, offset, recorded.moveFrame rfl rfl⟩

/-- A store that hits no record. -/
theorem store (kept : RecordsKept plan layout s) {low high : Nat} (clear : Clear plan layout s low high)
    {memory : LinearMemory} (same : SameApart low high s.memory memory) : RecordsKept plan layout { s with memory } := by
  refine ⟨kept.frames, kept.inside, kept.serials, kept.below, kept.creators, kept.called, ?_⟩
  intro f made last act member creator
  obtain ⟨pc, offset, recorded⟩ := kept.recorded f made last act member creator
  have bounds := recorded.bounds
  refine ⟨pc, offset, recorded.sameApart (kept.inside_lt member) rfl same ?_⟩
  rcases clear act member with before | behind <;> omega

/-- A closure overwrites only what a closure of its function had. -/
theorem makeClosure (kept : RecordsKept plan layout s) {captures : List UInt32}
    (stepped : closureStep plan layout s (.makeClosure pc captures) = some s') : RecordsKept plan layout s' := by
  obtain ⟨act, made, offset, active, captured, creator, recorded, frame, others, same, rest⟩ :=
    closureStep_makeClosure (fun act member => kept.inside_lt member) stepped
  have member : act ∈ s.calls := List.mem_of_mem_head? active
  have calls : s'.calls = s.calls := by rw [rest]
  have values : s'.values = s.values ++ [made] := by rw [rest]
  have serial : s'.serial = s.serial := by rw [rest]
  refine ⟨calls ▸ kept.frames, ?_, calls ▸ kept.serials, ?_, ?_, ?_, ?_⟩
  · rw [calls, frame]
    exact kept.inside
  · rw [calls, serial]
    exact kept.below
  · rw [values, serial]
    intro other inValues
    rcases List.mem_append.mp inValues with old | new
    · exact kept.creators other old
    · rw [List.mem_singleton.mp new, creator]
      exact kept.below act member
  · rw [calls, values]
    intro act' member' v through
    obtain ⟨other, found, fn⟩ := kept.called act' member' v through
    refine ⟨other, ?_, fn⟩
    rw [List.getElem?_append_left (List.getElem?_eq_some_iff.mp found).1]
    exact found
  · rw [calls, values]
    intro f last isLast act' member' madeBy
    by_cases isNew : made.fn = f
    · rw [← isNew, lastValue_append_self] at isLast
      rw [← Option.some.inj isLast] at madeBy ⊢
      rw [creator] at madeBy
      rw [List.inj_on_of_nodup_map kept.serials member' member madeBy]
      exact ⟨pc, offset, recorded⟩
    · rw [lastValue_append_other _ isNew] at isLast
      obtain ⟨pc', offset', recorded'⟩ := kept.recorded f last isLast act' member' madeBy
      have lastFn := (mem_of_lastValue isLast).2
      refine ⟨pc', offset', recorded'.sameApart (kept.inside_lt member') ?_ same ?_⟩
      · exact others last.fn (lastFn ▸ Ne.symm isNew)
      · by_cases own : act' = act
        · rw [own] at recorded' ⊢
          exact recorded'.apart recorded captured (lastFn ▸ Ne.symm isNew)
        · have bounds := recorded.bounds
          have bounds' := recorded'.bounds
          have below := kept.frame_below active member' own
          omega

/-- In a call of the last closure of its function the record has what was captured. -/
theorem holds_capture (kept : RecordsKept plan layout s) (active : act ∈ s.calls.head?) (isLast : CalledLast s act)
    {aux : Nat} {x : UInt32} (captured : CapturedBy s act aux x) :
    ∃ captures, Holds s.memory (s.globals (.closure act.fn)) captures ∧ captures[aux]? = some x := by
  obtain ⟨v, made, last, through, found, isLast, same, creator, member, madeBy⟩ := isLast
  obtain ⟨v', made', through', found', capture⟩ := captured
  rw [through] at through'
  rw [← Option.some.inj through', found] at found'
  rw [← Option.some.inj found', ← same] at capture
  obtain ⟨made'', found'', fn⟩ := kept.called act (List.mem_of_mem_head? active) v through
  rw [found] at found''
  rw [← Option.some.inj found''] at fn
  obtain ⟨pc, offset, recorded⟩ := kept.recorded made.fn last isLast creator member madeBy
  have global := recorded.global
  rw [(mem_of_lastValue isLast).2, fn] at global
  exact ⟨last.captures, global ▸ recorded.holds, capture⟩

theorem capture (kept : RecordsKept plan layout s) {op : CaptureOp} {aux : Nat}
    (admitted : KeepsRecords plan layout s (.capture op aux))
    (stepped : closureStep plan layout s (.capture op aux) = some s') : RecordsKept plan layout s' := by
  simp only [closureStep] at stepped
  split at stepped
  · cases stepped
  · rename_i act calls active
    have isHead : act ∈ s.calls.head? := by
      rw [active]
      rfl
    obtain ⟨isLast, x, captured, clear⟩ := admitted act isHead
    obtain ⟨captures, holds, capture⟩ := kept.holds_capture isHead isLast captured
    split at stepped
    · cases stepped
    · rename_i code emitted
      obtain ⟨m, ran, same⟩ := Option.map_eq_some_iff.mp stepped
      rw [← same]
      cases op with
      | load width signed =>
        rw [emitCapture] at emitted
        rw [← Option.some.inj emitted] at ran
        obtain ⟨globals, memory⟩ := run_captureLoad (m := s.machine layout act []) holds capture ran
        rw [globals, memory]
        exact kept
      | addr =>
        rw [emitCapture] at emitted
        rw [ModulePlan.emitCaptureAddr_eq_some emitted,
          run_captureAddress (m := s.machine layout act CaptureOp.addr.operands) holds capture] at ran
        rw [← Option.some.inj ran]
        exact kept
      | store width value =>
        rw [emitCapture] at emitted
        rw [← Option.some.inj emitted] at ran
        obtain ⟨globals, stored⟩ := run_emitCaptureStore (m := s.machine layout act [value]) holds capture rfl ran
        rw [globals]
        refine kept.store clear ⟨LinearMemory.storeBytes_size stored, fun b apart => LinearMemory.storeBytes_byte stored ?_⟩
        rwa [LinearMemory.digits_length]

theorem step (kept : RecordsKept plan layout s) {event : ClosureEvent} (admitted : KeepsRecords plan layout s event)
    (stepped : closureStep plan layout s event = some s') : RecordsKept plan layout s' := by
  cases event with
  | call fn value => exact kept.call admitted stepped
  | leave => exact kept.leave stepped
  | makeClosure pc captures => exact kept.makeClosure stepped
  | store a bytes =>
    obtain ⟨memory, stored, rfl⟩ := Option.map_eq_some_iff.mp stepped
    exact kept.store admitted ⟨LinearMemory.storeBytes_size stored, fun b => LinearMemory.storeBytes_byte stored⟩
  | capture op aux => exact kept.capture admitted stepped

theorem reached {memory : LinearMemory} (isReached : ClosureReached plan layout (KeepsRecords plan layout) memory s) :
    RecordsKept plan layout s := by
  induction isReached with
  | start => exact start memory
  | step _ admitted stepped kept => exact kept.step admitted stepped

end RecordsKept

/-- What is read and written when a captured variable is used: the words it leaves on the stack, and the memory. -/
def CaptureOp.access (op : CaptureOp) (x : UInt32) (memory : LinearMemory) : Option (List UInt32 × LinearMemory) :=
  match op with
  | .load width signed =>
    (memory.loadBytes x.toNat width).map fun bytes => ([extend width signed (LinearMemory.number bytes)], memory)
  | .store width value =>
    (memory.storeBytes x.toNat (LinearMemory.digits width value.toNat)).map fun memory => ([], memory)
  | .addr => some ([x], memory)

/-- The code for a captured variable uses the variable whose address the record has. -/
theorem run_emitCapture {op : CaptureOp} {aux : Nat} {captures : List UInt32} {x : UInt32} {code : List Instr}
    (emitted : emitCapture plan layout act.fn op aux = some code)
    (holds : Holds s.memory (s.globals (.closure act.fn)) captures) (capture : captures[aux]? = some x) :
    (run code (s.machine layout act op.operands)).map (fun m => (m.stack, m.memory)) = op.access x s.memory := by
  cases op with
  | load width signed =>
    rw [emitCapture] at emitted
    rw [← Option.some.inj emitted, ModulePlan.emitCaptureLoad, run_append,
      run_captureAddress (m := s.machine layout act (CaptureOp.load width signed).operands) holds capture]
    simp only [run, Instr.exec, Option.bind_some, CaptureOp.access, ClosureState.machine]
    cases s.memory.loadBytes x.toNat width <;> rfl
  | store width value =>
    rw [emitCapture] at emitted
    rw [← Option.some.inj emitted, ModulePlan.emitCaptureStore, List.cons_append, run]
    simp only [Instr.exec, CaptureOp.operands, ClosureState.machine, Option.bind_some]
    have found := @run_captureAddress ⟨[], Function.update (Function.update (fun _ => 0) (layout act.fn).frameBaseLocal
      act.base) (layout act.fn).scratch0Local value, s.globals, s.memory⟩ act.fn aux captures x holds capture
    rw [run_append, found]
    simp only [run, Instr.exec, Option.bind_some, Function.update_self, CaptureOp.access]
    cases s.memory.storeBytes x.toNat (LinearMemory.digits width value.toNat) <;> rfl
  | addr =>
    rw [emitCapture] at emitted
    rw [ModulePlan.emitCaptureAddr_eq_some emitted,
      run_captureAddress (m := s.machine layout act CaptureOp.addr.operands) holds capture]
    rfl

variable (plan layout)

/-- Each function value keeps its captures: in every state of the runs whose events are admitted, the code for a captured
variable that is admitted there uses the variable that was captured when the called value was made. -/
def KeepsCaptures (admits : ClosureState → ClosureEvent → Prop) : Prop :=
  ∀ (memory : LinearMemory) (s : ClosureState), ClosureReached plan layout admits memory s →
    ∀ (act : Activation) (op : CaptureOp) (aux : Nat) (x : UInt32) (code : List Instr), act ∈ s.calls.head? →
      admits s (.capture op aux) → CapturedBy s act aux x → emitCapture plan layout act.fn op aux = some code →
      (run code (s.machine layout act op.operands)).map (fun m => (m.stack, m.memory)) = op.access x s.memory

variable {plan layout}

end Invariant

/-- Runs in which a function value is used as the last closure of its function, by calls below the one that made it,
keep the captures. -/
theorem keepsCaptures (plan : ModulePlan) (layout : Nat → EmitState) :
    KeepsCaptures plan layout (KeepsRecords plan layout) := by
  intro memory s isReached act op aux x code active admitted captured emitted
  have kept := RecordsKept.reached isReached
  obtain ⟨isLast, _⟩ := admitted act active
  obtain ⟨captures, holds, capture⟩ := kept.holds_capture active isLast captured
  exact run_emitCapture emitted holds capture

/-- A function that makes a closure of its local and calls itself, and the closure. -/
def keepUnit : CodegenUnit where
  mirProgram :=
    { insts := [⟨.LOCAL_ADDR, 0, 0, 0, 0⟩, ⟨.MAKE_CLOSURE, 1, 0, 0, 0⟩, ⟨.DROP, 0, 0, 0, 0⟩, ⟨.CALL_FN, 0, 0, 0, 0⟩,
        ⟨.RETURN_VOID, 0, 0, 0, 0⟩, ⟨.CAPTURE_ADDR, 0, 0, 0, 0⟩, ⟨.DROP, 0, 0, 0, 0⟩, ⟨.RETURN_VOID, 0, 0, 0, 0⟩]
      consts := [⟨.FUNCTION, 1, 0, ⟨0, 0⟩⟩]
      sources := [bytesOf "main"]
      funcs := [⟨0, 5, 0, 0, 1, 0, noTypeRef, 0, 4, 0, 0⟩, ⟨5, 3, 0, 1, 0, 0, noTypeRef, 0, 0, 2, 1⟩]
      locals := [⟨0, 0, 0, 0⟩]
      fields := []
      types := []
      hosts := []
      symbols := []
      lengths := by decide }
  foreign := []
  platformTarget := none
  usesPlatform := false
  kinds := ⟨fun _ => some .VOID, fun _ _ => none, fun _ => none⟩

def keepPlan : ModulePlan where
  unit := keepUnit
  sigs := [⟨0, [], [], .VOID, [], false, noTypeRef⟩, ⟨0, [], [], .VOID, [], false, noTypeRef⟩]
  imports := keepUnit.importLayout [true, true]
  strings := ⟨[none], 0, none, none, none, none⟩
  entry := { EntryLayout.none with mainFuncIndex := some 0 }

/-- The local is at the start of the frame, and the record of the closure behind it. -/
def keepLayout (fn : Nat) : EmitState := ⟨fn = 0, 4, 0⟩

def keepMemory : LinearMemory := ⟨65536, fun _ => 0⟩

/-- The closure that the function makes in its first activation finds the local of that one. -/
theorem keepPlan_keepsCaptures : ∃ s act, ClosureReached keepPlan keepLayout (KeepsRecords keepPlan keepLayout) keepMemory s ∧
    CapturedBy s act 0 0 ∧ (run (ModulePlan.captureAddress 1 0) (s.machine keepLayout act [])).map
      (fun m => (m.stack, m.memory)) = some ([0], s.memory) := by
  obtain ⟨entered, enter⟩ : ∃ s, closureStep keepPlan keepLayout (closureStart keepPlan keepMemory) (.call 0 none) = some s :=
    ⟨_, rfl⟩
  obtain ⟨made, make⟩ : ∃ s, closureStep keepPlan keepLayout entered (.makeClosure 1 [0]) = some s := by
    have ran : (closureStep keepPlan keepLayout (closureStart keepPlan keepMemory) (.call 0 none)).any
        (fun s => (closureStep keepPlan keepLayout s (.makeClosure 1 [0])).isSome) = true := by
      decide +kernel
    rw [enter] at ran
    exact Option.isSome_iff_exists.mp ran
  have facts : ((closureStep keepPlan keepLayout (closureStart keepPlan keepMemory) (.call 0 none)).bind
      (closureStep keepPlan keepLayout · (.makeClosure 1 [0]))).map
      (fun s => (s.globals .frame, s.calls, s.values, s.serial)) = some (8, [⟨0, 0, none, 0⟩], [⟨1, [0], 0⟩], 1) := by
    decide +kernel
  rw [enter, Option.bind_some, make, Option.map_some, Option.some.injEq, Prod.mk.injEq, Prod.mk.injEq, Prod.mk.injEq]
    at facts
  obtain ⟨frame, calls, values, serial⟩ := facts
  have fits : (closureStart keepPlan keepMemory).globals .frame = 0 := by decide +kernel
  have reached : ClosureReached keepPlan keepLayout (KeepsRecords keepPlan keepLayout) keepMemory made := by
    have first : KeepsRecords keepPlan keepLayout (closureStart keepPlan keepMemory) (.call 0 none) := by
      rw [KeepsRecords, fits]
      decide +kernel
    have second : KeepsRecords keepPlan keepLayout entered (.makeClosure 1 [0]) := trivial
    exact .step (.step .start first enter) second make
  have called : closureStep keepPlan keepLayout made (.call 1 (some 0)) = some { made with
      globals := Function.update made.globals .frame (8 + UInt32.ofNat (frameSize keepPlan keepLayout 1))
      calls := [⟨1, 8, some 0, 1⟩, ⟨0, 0, none, 0⟩]
      serial := 2 } := by
    simp only [closureStep, values, frame, calls, serial]
    rfl
  have inside : KeepsRecords keepPlan keepLayout made (.call 1 (some 0)) := by
    rw [KeepsRecords, frame]
    decide +kernel
  refine ⟨_, ⟨1, 8, some 0, 1⟩, .step reached inside called, ⟨0, ⟨1, [0], 0⟩, rfl, by rw [values]; rfl, rfl⟩, ?_⟩
  refine keepsCaptures keepPlan keepLayout keepMemory _ (.step reached inside called) ⟨1, 8, some 0, 1⟩ .addr 0 0
    (ModulePlan.captureAddress 1 0) rfl ?_ ⟨0, ⟨1, [0], 0⟩, rfl, by rw [values]; rfl, rfl⟩ rfl
  intro act active
  obtain rfl := Option.some.inj active
  refine ⟨⟨0, ⟨1, [0], 0⟩, ⟨1, [0], 0⟩, rfl, by rw [values]; rfl, by rw [values]; rfl, rfl, ⟨0, 0, none, 0⟩, ?_, rfl⟩, 0,
    ⟨0, ⟨1, [0], 0⟩, rfl, by rw [values]; rfl, rfl⟩, trivial⟩
  exact List.mem_cons_of_mem _ (List.mem_cons_self ..)

/-- A run of events that are all admitted. -/
theorem ClosureReached.run {plan : ModulePlan} {layout : Nat → EmitState} {admits : ClosureState → ClosureEvent → Prop}
    {memory : LinearMemory} {events : List ClosureEvent} {s s' : ClosureState}
    (reached : ClosureReached plan layout admits memory s) (admitted : ∀ s, ∀ event ∈ events, admits s event)
    (ran : events.foldlM (closureStep plan layout) s = some s') : ClosureReached plan layout admits memory s' := by
  induction events generalizing s with
  | nil => exact Option.some.inj ran ▸ reached
  | cons event events ih =>
    rw [List.foldlM_cons, Option.bind_eq_bind, Option.bind_eq_some_iff] at ran
    obtain ⟨next, stepped, later⟩ := ran
    have first := admitted s event (List.mem_cons_self ..)
    exact ih (reached.step first stepped) (fun s e member => admitted s e (List.mem_cons_of_mem _ member)) later

/-- The function makes a closure in each of two activations, the second of which calls the value of the first. -/
def keepEvents : List ClosureEvent :=
  [.call 0 none, .makeClosure 1 [0], .call 0 none, .makeClosure 1 [8], .call 1 (some 0)]

/-- What the closure finds then, in a run without other stores, is the local of the second activation. -/
theorem keepPlan_not_keepsCaptures : ¬ ∀ (unit : CodegenUnit) (plan : ModulePlan) (layout : Nat → EmitState),
    unit.plan = .ok plan → KeepsCaptures plan layout (fun _ event => ∀ a bytes, event ≠ .store a bytes) := by
  intro keeps
  have planned : keepUnit.plan = .ok keepPlan := rfl
  have ran : (keepEvents.foldlM (closureStep keepPlan keepLayout) (closureStart keepPlan keepMemory)).map
      (fun s => (s.calls.head?, s.values, (run (ModulePlan.captureAddress 1 0)
        (s.machine keepLayout ⟨1, 16, some 0, 2⟩ [])).map (·.stack)))
      = some (some ⟨1, 16, some 0, 2⟩, [⟨1, [0], 0⟩, ⟨1, [8], 1⟩], some [8]) := by
    decide +kernel
  obtain ⟨s, reached, facts⟩ := Option.map_eq_some_iff.mp ran
  obtain ⟨active, facts⟩ := Prod.mk.inj facts
  obtain ⟨values, found⟩ := Prod.mk.inj facts
  have noStore : ∀ event ∈ keepEvents, ∀ a bytes, event ≠ .store a bytes := by
    intro event member a bytes same
    rw [same] at member
    simp [keepEvents] at member
  have access := keeps keepUnit keepPlan keepLayout planned keepMemory s (.run .start (fun _ => noStore) reached)
    ⟨1, 16, some 0, 2⟩ .addr 0 0 (ModulePlan.captureAddress 1 0) active (fun _ _ same => nomatch same)
    ⟨0, ⟨1, [0], 0⟩, rfl, by rw [values]; rfl, rfl⟩ rfl
  have stack := congrArg (Option.map Prod.fst) access
  rw [Option.map_map] at stack
  cases found.symm.trans stack

end HopHop.Wasm
