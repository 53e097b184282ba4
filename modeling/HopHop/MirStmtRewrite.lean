import HopHop.MirExprBuild
import HopHop.MirExprStep

namespace HopHop

/-! ### The rewriting of an expression chunk -/

/-- What an instruction of an expression does to the height of the stack, where the rewriter knows it. -/
def exprInstStackDelta (inst : MirInst) : Option Int :=
  match inst.op with
  | .PUSH_CONST | .PUSH_INT | .PUSH_FLOAT | .PUSH_BOOL | .PUSH_STRING | .PUSH_NULL | .LOAD_IDENT => some 1
  | .UNARY | .CAST | .SEQ_LEN | .STR_CSTR | .OPTIONAL_WRAP | .OPTIONAL_UNWRAP => some 0
  | .BINARY | .INDEX => some (-1)
  | .SLICE_MAKE => some (0 - (if inst.tok &&& 2 ≠ 0 then 1 else 0) - (if inst.tok &&& 4 ≠ 0 then 1 else 0))
  | .CALL => some (1 - callArgCountFromTok inst.tok)
  | .JUMP => some 0
  | .JUMP_IF_FALSE | .ASSERT => some (-1)
  | .TUPLE_MAKE => some (1 - inst.tok.toNat)
  | _ => none

/-- The walk back from a call over the instructions before it, the nearest first: where its arguments start. -/
def findCallArgStart : List MirInst → Int → Option Nat
  | [], _ => none
  | inst :: before, need =>
    match exprInstStackDelta inst with
    | none => none
    | some delta => if need - delta = 0 then some before.length else findCallArgStart before (need - delta)

/-- A load of the function value that a call goes to, with the place of its name. -/
structure CalleeLoad where
  slot : UInt32
  start : UInt32
  stop : UInt32
  deriving DecidableEq, Repr

def CalleeLoad.inst (load : CalleeLoad) : MirInst := ⟨.LOCAL_LOAD, 0, load.slot, load.start, load.stop⟩

/-- The names that a function body sees, and how the program under construction takes up a field or an instruction. -/
structure StmtScope (β : Type) where
  findLocal : UInt32 → UInt32 → Option UInt32
  findCapture : UInt32 → UInt32 → Option UInt32
  addFieldRef : β → UInt32 → UInt32 → Option (UInt32 × β)
  lowerInst : β → MirInst → Option (MirInst × β)

/-- The instructions of the program under construction, and its other tables. -/
structure LowerState (β : Type) where
  insts : List MirInst
  tables : β
  deriving DecidableEq, Repr

/-- The loads to insert before each instruction, in their order, and the calls that become indirect. -/
structure ChunkInserts where
  insertHeads : Nat → List CalleeLoad
  callIndirect : Nat → Bool

inductive RewriteStop
  | unsupported | failed
  deriving DecidableEq, Repr

def LowerState.loads {β : Type} (s : LowerState β) (loads : List CalleeLoad) : LowerState β :=
  ⟨s.insts ++ loads.map CalleeLoad.inst, s.tables⟩

namespace StmtScope

variable {β : Type} (c : StmtScope β)

/-- The load that a call of a local function value needs. -/
def calleeLoad (inst : MirInst) : Option CalleeLoad :=
  if inst.op ≠ .CALL ∨ callTokDropsReceiverArg0 inst.tok then none
  else (c.findLocal inst.start inst.stop).map fun slot => ⟨slot, inst.start, inst.stop⟩

/-- The first loop, from the last instruction to the first; a load goes to the head of the list at its place. -/
def findInserts : List MirInst → ChunkInserts → Option ChunkInserts
  | [], found => some found
  | inst :: before, found =>
    match c.calleeLoad inst with
    | none => findInserts before found
    | some load =>
      match if callArgCountFromTok inst.tok = 0 then some before.length
        else findCallArgStart before (callArgCountFromTok inst.tok) with
      | none => none
      | some argStart =>
        findInserts before
          ⟨Function.update found.insertHeads argStart (load :: found.insertHeads argStart),
            Function.update found.callIndirect before.length true⟩

/-- What the second loop does to an instruction. -/
def rewriteInst (tables : β) (inst : MirInst) (indirect : Bool) : Option (MirInst × β) :=
  let inst : MirInst :=
    if inst.op = .LOAD_IDENT then
      match c.findLocal inst.start inst.stop, c.findCapture inst.start inst.stop with
      | some slot, _ => { inst with op := .LOCAL_LOAD, tok := 0, aux := slot }
      | none, some captureIndex => { inst with op := .CAPTURE_LOAD, tok := 0, aux := captureIndex }
      | none, none => inst
    else inst
  match if inst.op = .AGG_GET ∨ inst.op = .AGG_ADDR then
      (c.addFieldRef tables inst.start inst.stop).map fun (fieldRef, tables) => ({ inst with aux := fieldRef }, tables)
    else some (inst, tables) with
  | none => none
  | some (inst, tables) => c.lowerInst tables (if indirect then { inst with op := .CALL_INDIRECT, aux := 0 } else inst)

def appendInst (s : LowerState β) (inst : MirInst) (indirect : Bool) : Option (LowerState β) :=
  (c.rewriteInst s.tables inst indirect).map fun (inst, tables) => ⟨s.insts ++ [inst], tables⟩

/-- The second loop. -/
def emitChunk (found : ChunkInserts) : List MirInst → Nat → LowerState β → Option (LowerState β)
  | [], _, s => some s
  | inst :: rest, emitIndex, s =>
    match c.appendInst (s.loads (found.insertHeads emitIndex)) inst (found.callIndirect emitIndex) with
    | none => none
    | some s => emitChunk found rest (emitIndex + 1) s

def rewriteExprChunk (s : LowerState β) (chunk : List MirInst) : Except RewriteStop (LowerState β) :=
  match c.findInserts chunk.reverse ⟨fun _ => [], fun _ => false⟩ with
  | none => .error .unsupported
  | some found =>
    match c.emitChunk found chunk 0 s with
    | none => .error .failed
    | some s => .ok s

end StmtScope

/-! ### What the chunk stands for -/

/-- Expressions in a row: each an instruction with its operands, which come before it in the code. -/
inductive InstForest
  | nil
  | cons (inst : MirInst) (operands : InstForest) (rest : InstForest)

/-- How many operands an instruction of an expression takes. -/
def exprOperands (inst : MirInst) : Option Nat :=
  match inst.op with
  | .PUSH_CONST | .PUSH_INT | .PUSH_FLOAT | .PUSH_BOOL | .PUSH_STRING | .PUSH_NULL | .LOAD_IDENT => some 0
  | .UNARY | .CAST | .SEQ_LEN | .STR_CSTR | .OPTIONAL_WRAP | .OPTIONAL_UNWRAP | .AGG_GET | .AGG_ADDR => some 1
  | .BINARY | .INDEX => some 2
  | .SLICE_MAKE => some (1 + (if inst.tok &&& 2 ≠ 0 then 1 else 0) + (if inst.tok &&& 4 ≠ 0 then 1 else 0))
  | .CALL => some (callArgCountFromTok inst.tok)
  | .TUPLE_MAKE => some inst.tok.toNat
  | _ => none

namespace InstForest

def code : InstForest → List MirInst
  | nil => []
  | cons inst operands rest => operands.code ++ inst :: rest.code

def length : InstForest → Nat
  | nil => 0
  | cons _ _ rest => rest.length + 1

/-- Each instruction has the operands it takes. -/
def WellFormed : InstForest → Prop
  | nil => True
  | cons inst operands rest => exprOperands inst = some operands.length ∧ operands.WellFormed ∧ rest.WellFormed

end InstForest

namespace StmtScope

variable {β : Type} (c : StmtScope β)

/-- Expressions with the calls of function values as they are meant: the callee, its own arguments, the call. -/
def emitForest (s : LowerState β) : InstForest → Option (LowerState β)
  | .nil => some s
  | .cons inst operands rest =>
    ((emitForest (s.loads (c.calleeLoad inst).toList) operands).bind fun s =>
      c.appendInst s inst (c.calleeLoad inst).isSome).bind fun s => emitForest s rest

/-- For each instruction the callees of the calls whose code starts with it, the outermost call first. -/
def calleesAt (around : List CalleeLoad) : InstForest → List (List CalleeLoad)
  | .nil => []
  | .cons inst operands rest =>
    let here := around ++ (c.calleeLoad inst).toList
    (match operands with
      | .nil => [here]
      | .cons .. => calleesAt here operands ++ [[]]) ++ calleesAt [] rest

end StmtScope

/-! ### The walk back over the arguments -/

theorem delta_of_operands {inst : MirInst} {n : Nat} {delta : Int} (takes : exprOperands inst = some n)
    (known : exprInstStackDelta inst = some delta) : delta = 1 - n := by
  obtain ⟨op, tok, aux, start, stop⟩ := inst
  cases op with
  | SLICE_MAKE =>
    simp only [exprOperands, exprInstStackDelta, Option.some.injEq] at takes known
    split_ifs at takes known <;> omega
  | _ =>
    simp only [exprOperands, exprInstStackDelta, Option.some.injEq, reduceCtorEq] at takes known <;> omega

/-- Over whole expressions the walk goes on until it has passed as many as it needs. -/
theorem findCallArgStart_code {f : InstForest} (wf : f.WellFormed) {before : List MirInst} {need : Int} {k : Nat}
    (found : findCallArgStart (f.code.reverse ++ before) need = some k) :
    (f.length < need → findCallArgStart before (need - f.length) = some k) ∧
      (need = f.length → f ≠ .nil → k = before.length) := by
  induction f generalizing before need with
  | nil =>
    refine ⟨fun _ => ?_, fun _ some_tree => absurd rfl some_tree⟩
    have none : ((InstForest.length .nil : Nat) : Int) = 0 := rfl
    rw [none, Int.sub_zero]
    exact found
  | cons inst operands rest ihOperands ihRest =>
    obtain ⟨takes, wfOperands, wfRest⟩ := wf
    have length : ((InstForest.cons inst operands rest).length : Int) = rest.length + 1 := by
      rw [InstForest.length]
      omega
    have code : (InstForest.cons inst operands rest).code.reverse ++ before =
        rest.code.reverse ++ inst :: (operands.code.reverse ++ before) := by
      simp only [InstForest.code, List.reverse_append, List.reverse_cons, List.append_assoc, List.cons_append,
        List.nil_append]
    rw [code] at found
    rw [length]
    -- The walk passes the expressions behind, then the instruction, and is left with what its operands make up.
    have step (enough : (rest.length : Int) < need) :
        (need - rest.length = 1 → operands = .nil → k = before.length) ∧
          (need - rest.length ≠ 1 ∨ operands ≠ .nil →
            findCallArgStart (operands.code.reverse ++ before) (need - rest.length - 1 + operands.length) = some k) := by
      have passed := (ihRest wfRest found).1 enough
      rw [findCallArgStart] at passed
      split at passed
      · cases passed
      · rename_i delta known
        have value := delta_of_operands takes known
        have left : need - rest.length - delta = need - rest.length - 1 + operands.length := by omega
        rw [left] at passed
        refine ⟨fun one none => ?_, fun other => ?_⟩
        · rw [none, one, InstForest.length, InstForest.code] at passed
          exact (Option.some.inj passed).symm
        · rwa [if_neg] at passed
          rcases other with other | other
          · omega
          · cases operands with
            | nil => exact absurd rfl other
            | cons _ _ more =>
              rw [InstForest.length]
              omega
    refine ⟨fun more => ?_, fun exact_need _ => ?_⟩
    · have walked := (step (by omega)).2 (Or.inl (by omega))
      have passed := (ihOperands wfOperands walked).1 (by omega)
      rwa [show need - rest.length - 1 + operands.length - operands.length = need - (rest.length + 1) by omega] at passed
    · by_cases none : operands = .nil
      · exact (step (by omega)).1 (by omega) none
      · have walked := (step (by omega)).2 (Or.inr none)
        exact (ihOperands wfOperands walked).2 (by omega) none

namespace StmtScope

variable {β : Type} {c : StmtScope β}

theorem calleeLoad_call {inst : MirInst} {load : CalleeLoad} (loads : c.calleeLoad inst = some load) : inst.op = .CALL := by
  rw [calleeLoad] at loads
  split at loads
  · cases loads
  · rename_i isCall
    exact not_not.mp (not_or.mp isCall).1

/-- The loads of a forest at a place of the code, the innermost call first, if the forest starts at another place. -/
def headsAt (c : StmtScope β) : Nat → InstForest → Nat → List CalleeLoad
  | _, .nil, _ => []
  | place, .cons inst operands rest, k =>
    headsAt c place operands k ++ (if k = place then (c.calleeLoad inst).toList else []) ++
      headsAt c (place + operands.code.length + 1) rest k

/-- What the first loop finds in whole expressions. -/
theorem findInserts_code {f : InstForest} (wf : f.WellFormed) {before : List MirInst} {found result : ChunkInserts}
    (finds : c.findInserts (f.code.reverse ++ before) found = some result) :
    ∃ mid, c.findInserts before mid = some result ∧
      ∀ k, mid.insertHeads k = c.headsAt before.length f k ++ found.insertHeads k := by
  induction f generalizing before found with
  | nil => exact ⟨found, finds, fun k => rfl⟩
  | cons inst operands rest ihOperands ihRest =>
    obtain ⟨takes, wfOperands, wfRest⟩ := wf
    have code : (InstForest.cons inst operands rest).code.reverse ++ before =
        rest.code.reverse ++ inst :: (operands.code.reverse ++ before) := by
      simp only [InstForest.code, List.reverse_append, List.reverse_cons, List.append_assoc, List.cons_append,
        List.nil_append]
    rw [code] at finds
    obtain ⟨behind, findsBehind, headsBehind⟩ := ihRest wfRest finds
    have place : (inst :: (operands.code.reverse ++ before)).length = before.length + operands.code.length + 1 := by
      rw [List.length_cons, List.length_append, List.length_reverse]
      omega
    rw [place] at headsBehind
    rw [findInserts] at findsBehind
    split at findsBehind
    · rename_i plain
      obtain ⟨mid, findsMid, headsMid⟩ := ihOperands wfOperands findsBehind
      refine ⟨mid, findsMid, fun k => ?_⟩
      rw [headsMid, headsBehind, headsAt, plain, Option.toList_none, ite_self, List.append_nil, List.append_assoc]
    · rename_i load loads
      split at findsBehind
      · cases findsBehind
      · rename_i argStart starts
        have start : argStart = before.length := by
          have counted : exprOperands inst = some (callArgCountFromTok inst.tok) := by
            rw [exprOperands, calleeLoad_call loads]
          rw [counted] at takes
          have count := Option.some.inj takes
          rw [count] at starts
          cases operands with
          | nil =>
            rw [InstForest.length, if_pos rfl] at starts
            exact (Option.some.inj starts).symm
          | cons first more last =>
            rw [if_neg (by rw [InstForest.length]; omega)] at starts
            exact (findCallArgStart_code wfOperands starts).2 rfl (by simp)
        rw [start] at findsBehind
        obtain ⟨mid, findsMid, headsMid⟩ := ihOperands wfOperands findsBehind
        refine ⟨mid, findsMid, fun k => ?_⟩
        rw [headsMid, headsAt, loads, Option.toList_some]
        dsimp only
        by_cases here : k = before.length
        · rw [here, Function.update_self, headsBehind, if_pos rfl]
          simp only [List.append_assoc, List.cons_append, List.nil_append]
        · rw [Function.update_of_ne here, headsBehind, if_neg here, List.append_nil, List.append_assoc]

/-- Which instructions of a piece of code at a place call a function value. -/
def callsAt (c : StmtScope β) (insts : List MirInst) (k : Nat) : Bool :=
  ((insts[k]?).bind c.calleeLoad).isSome

theorem findInserts_calls {before : List MirInst} {found result : ChunkInserts}
    (finds : c.findInserts before found = some result) (k : Nat) :
    result.callIndirect k = (found.callIndirect k || c.callsAt before.reverse k) := by
  induction before generalizing found with
  | nil =>
    cases finds
    exact (Bool.or_false _).symm
  | cons inst before ih =>
    have last : c.callsAt (inst :: before).reverse k =
        (c.callsAt before.reverse k || (decide (k = before.length) && (c.calleeLoad inst).isSome)) := by
      rw [callsAt, callsAt, List.reverse_cons]
      rcases Nat.lt_trichotomy k before.length with inside | here | beyond
      · rw [List.getElem?_append_left (by rwa [List.length_reverse]), decide_eq_false (by omega), Bool.false_and,
          Bool.or_false]
      · rw [here, ← @List.length_reverse _ before, List.getElem?_concat_length, List.getElem?_eq_none (Nat.le_refl _),
          decide_eq_true rfl]
        rfl
      · rw [List.getElem?_eq_none (by rw [List.length_append, List.length_reverse, List.length_singleton]; omega),
          List.getElem?_eq_none (by rw [List.length_reverse]; omega), decide_eq_false (by omega)]
        rfl
    rw [last]
    rw [findInserts] at finds
    split at finds
    · rename_i plain
      rw [ih finds, plain, Option.isSome_none, Bool.and_false, Bool.or_false]
    · rename_i load loads
      split at finds
      · cases finds
      · rw [ih finds, loads, Option.isSome_some, Bool.and_true]
        dsimp only
        by_cases here : k = before.length
        · rw [here, Function.update_self, decide_eq_true rfl, Bool.true_or, Bool.or_true, Bool.or_true]
        · rw [Function.update_of_ne here, decide_eq_false here, Bool.or_false]

/-! ### The callees by the place where their calls start -/

theorem calleesAt_length {f : InstForest} (around : List CalleeLoad) : (c.calleesAt around f).length = f.code.length := by
  induction f generalizing around with
  | nil => rfl
  | cons inst operands rest ihOperands ihRest =>
    cases operands with
    | nil =>
      rw [calleesAt, InstForest.code, InstForest.code, List.length_append, ihRest]
      simp only [List.length_cons, List.length_nil, List.nil_append]
      omega
    | cons first more last =>
      rw [calleesAt, InstForest.code, List.length_append, ihRest, List.length_append, List.length_append, ihOperands]
      simp only [List.length_cons, List.length_nil]
      omega

/-- The calls around a piece of code count among those that start with its first instruction. -/
theorem calleesAt_around {f : InstForest} (some_tree : f ≠ .nil) (around : List CalleeLoad) :
    c.calleesAt around f = (c.calleesAt [] f).modifyHead (around ++ ·) := by
  induction f generalizing around with
  | nil => exact absurd rfl some_tree
  | cons inst operands rest ihOperands _ =>
    cases operands with
    | nil =>
      rw [calleesAt, calleesAt, List.nil_append, List.singleton_append, List.singleton_append, List.modifyHead_cons]
    | cons first more last =>
      have inner := ihOperands (by simp)
      rw [calleesAt, calleesAt]
      rw [inner (around ++ _), inner ([] ++ _), List.nil_append]
      have length := calleesAt_length (c := c) (f := .cons first more last) []
      cases empty : c.calleesAt [] (.cons first more last) with
      | nil =>
        rw [empty, InstForest.code, List.length_append] at length
        cases length
      | cons g gs => simp only [List.modifyHead_cons, List.cons_append, List.append_assoc]

/-- What the first loop finds are the callees in the order that is the other way round. -/
theorem headsAt_eq (f : InstForest) (place k : Nat) :
    c.headsAt place f k = if place ≤ k then (((c.calleesAt [] f)[k - place]?).getD []).reverse else [] := by
  induction f generalizing place with
  | nil =>
    rw [headsAt, calleesAt, List.getElem?_nil, Option.getD_none, List.reverse_nil, ite_self]
  | cons inst operands rest ihOperands ihRest =>
    rw [headsAt, ihOperands, ihRest]
    by_cases before : k < place
    · rw [if_neg (by omega), if_neg (by omega), if_neg (by omega), if_neg (by omega)]
      rfl
    · obtain ⟨i, rfl⟩ := Nat.exists_eq_add_of_le (Nat.not_lt.mp before)
      have single : (c.calleeLoad inst).toList.reverse = (c.calleeLoad inst).toList := by
        cases c.calleeLoad inst <;> rfl
      have shift : place + i - (place + operands.code.length + 1) = i - (operands.code.length + 1) := by omega
      have here : place + i = place ↔ i = 0 := by omega
      have behind : place + operands.code.length + 1 ≤ place + i ↔ operands.code.length < i := by omega
      simp only [Nat.le_add_right, if_true, Nat.add_sub_cancel_left, shift, here, behind]
      cases operands with
      | nil =>
        simp only [calleesAt, InstForest.code, List.length_nil, List.getElem?_nil, Option.getD_none, List.reverse_nil,
          List.nil_append, List.singleton_append]
        cases i with
        | zero => simp [single]
        | succ i => simp
      | cons first more last =>
        have length := calleesAt_length (c := c) (f := .cons first more last) []
        have some_code : 0 < (InstForest.cons first more last).code.length := by
          rw [InstForest.code, List.length_append, List.length_cons]
          omega
        cases parts : c.calleesAt [] (.cons first more last) with
        | nil =>
          rw [parts] at length
          exact absurd length (Nat.ne_of_lt some_code)
        | cons g gs =>
          have around := calleesAt_around (c := c) (f := .cons first more last) (by simp) (c.calleeLoad inst).toList
          rw [parts, List.modifyHead_cons] at around
          rw [parts, List.length_cons] at length
          rw [calleesAt, List.nil_append, around]
          cases i with
          | zero =>
            simp [single]
          | succ j =>
            simp only [List.getElem?_cons_succ, List.cons_append, Nat.succ_ne_zero, if_false, List.append_nil, ← length]
            rcases Nat.lt_trichotomy j gs.length with inside | last_one | beyond
            · rw [if_neg (by omega), List.append_nil, List.append_assoc, List.getElem?_append_left inside]
            · rw [if_neg (by omega), last_one, List.append_assoc, List.getElem?_append_right (Nat.le_refl _), Nat.sub_self,
                List.getElem?_eq_none (Nat.le_refl _)]
              rfl
            · rw [if_pos (by omega), List.getElem?_eq_none (by omega), List.getElem?_append_right
                (by rw [List.length_append, List.length_singleton]; omega), List.length_append, List.length_singleton]
              rw [show j + 1 - (gs.length + 1 + 1) = j - (gs.length + 1) by omega]
              rfl

/-! ### The emission -/

/-- The second loop by the loads that come before each instruction. -/
def emitGroups (c : StmtScope β) : List (List CalleeLoad) → List MirInst → LowerState β → Option (LowerState β)
  | loads :: more, inst :: rest, s =>
    (c.appendInst (s.loads loads) inst (c.calleeLoad inst).isSome).bind fun s => emitGroups c more rest s
  | _, _, s => some s

theorem loads_loads (s : LowerState β) (first second : List CalleeLoad) :
    (s.loads first).loads second = s.loads (first ++ second) := by
  simp only [LowerState.loads, List.map_append, List.append_assoc]

theorem loads_nil (s : LowerState β) : s.loads [] = s := by
  rw [LowerState.loads, List.map_nil, List.append_nil]

/-- What is meant puts the outer callees before the inner ones. -/
theorem emitGroups_forest (f : InstForest) (around : List CalleeLoad) (some_tree : f ≠ .nil ∨ around = [])
    (more : List (List CalleeLoad)) (behind : List MirInst) (s : LowerState β) :
    c.emitGroups (c.calleesAt around f ++ more) (f.code ++ behind) s =
      (c.emitForest (s.loads around) f).bind (c.emitGroups more behind) := by
  induction f generalizing around more behind s with
  | nil =>
    rw [some_tree.resolve_left fun impossible => impossible rfl, loads_nil]
    rfl
  | cons inst operands rest ihOperands ihRest =>
    have tail (s : LowerState β) : c.emitGroups (c.calleesAt [] rest ++ more) (rest.code ++ behind) s =
        (c.emitForest s rest).bind (c.emitGroups more behind) := by
      rw [ihRest [] (Or.inr rfl), loads_nil]
    rw [emitForest, loads_loads, InstForest.code, List.append_assoc, List.cons_append]
    cases operands with
    | nil =>
      rw [calleesAt, List.append_assoc, List.singleton_append, InstForest.code, List.nil_append, emitGroups, emitForest,
        Option.bind_some, Option.bind_assoc]
      exact congrArg _ (funext tail)
    | cons first more' last =>
      rw [calleesAt, List.append_assoc, List.append_assoc, ihOperands _ (Or.inl (by simp)), Option.bind_assoc,
        Option.bind_assoc]
      refine congrArg _ (funext fun s => ?_)
      rw [List.singleton_append, emitGroups, loads_nil]
      exact congrArg _ (funext tail)

theorem emitChunk_groups {found : ChunkInserts} (insts : List MirInst) (place : Nat) (groups : List (List CalleeLoad))
    (length : groups.length = insts.length)
    (heads : ∀ i < insts.length, found.insertHeads (place + i) = (groups[i]?).getD [])
    (calls : ∀ i < insts.length, found.callIndirect (place + i) = c.callsAt insts i) (s : LowerState β) :
    c.emitChunk found insts place s = c.emitGroups groups insts s := by
  induction insts generalizing place groups s with
  | nil =>
    rw [List.length_eq_zero_iff.mp length]
    rfl
  | cons inst rest ih =>
    cases groups with
    | nil => cases length
    | cons loads more =>
      have here := heads 0 (Nat.succ_pos _)
      have call := calls 0 (Nat.succ_pos _)
      have shift (i : Nat) : place + (i + 1) = place + 1 + i := by omega
      have laterHeads : ∀ i < rest.length, found.insertHeads (place + 1 + i) = (more[i]?).getD [] := by
        intro i inside
        have later := heads (i + 1) (Nat.succ_lt_succ inside)
        rwa [shift, List.getElem?_cons_succ] at later
      have laterCalls : ∀ i < rest.length, found.callIndirect (place + 1 + i) = c.callsAt rest i := by
        intro i inside
        have later := calls (i + 1) (Nat.succ_lt_succ inside)
        rw [shift] at later
        exact later
      rw [Nat.add_zero] at here call
      rw [emitChunk, emitGroups, here, call]
      have first : c.callsAt (inst :: rest) 0 = (c.calleeLoad inst).isSome := rfl
      rw [first, List.getElem?_cons_zero, Option.getD_some]
      cases appended : c.appendInst (s.loads loads) inst (c.calleeLoad inst).isSome with
      | none => rfl
      | some next => exact ih (place + 1) more (Nat.succ.inj length) laterHeads laterCalls next

theorem appendInst_eq {s s' : LowerState β} {inst : MirInst} {indirect : Bool}
    (appended : c.appendInst s inst indirect = some s') :
    ∃ lowered, c.rewriteInst s.tables inst indirect = some (lowered, s'.tables) ∧ s'.insts = s.insts ++ [lowered] := by
  obtain ⟨⟨lowered, tables⟩, rewritten, same⟩ := Option.map_eq_some_iff.mp appended
  rw [← same]
  exact ⟨lowered, rewritten, rfl⟩

theorem emitGroups_appends {groups : List (List CalleeLoad)} {insts : List MirInst} {s s' : LowerState β}
    (emitted : c.emitGroups groups insts s = some s') : ∃ tail, s'.insts = s.insts ++ tail := by
  induction insts generalizing groups s with
  | nil =>
    cases groups <;> cases emitted <;> exact ⟨[], (List.append_nil _).symm⟩
  | cons inst rest ih =>
    cases groups with
    | nil =>
      cases emitted
      exact ⟨[], (List.append_nil _).symm⟩
    | cons loads more =>
      obtain ⟨next, appended, emittedRest⟩ := Option.bind_eq_some_iff.mp emitted
      obtain ⟨lowered, _, insts⟩ := appendInst_eq appended
      obtain ⟨tail, result⟩ := ih emittedRest
      rw [insts, LowerState.loads, List.append_assoc, List.append_assoc] at result
      exact ⟨_, result⟩

/-- The loads between the instructions can be told from what is emitted, if their numbers are known. -/
theorem emitGroups_inj {first second : List (List CalleeLoad)} {insts : List MirInst} {s s' : LowerState β}
    (sizes : first.map List.length = second.map List.length) (length : first.length = insts.length)
    (emittedFirst : c.emitGroups first insts s = some s') (emittedSecond : c.emitGroups second insts s = some s') :
    first = second := by
  induction insts generalizing first second s with
  | nil =>
    obtain rfl := List.length_eq_zero_iff.mp length
    exact (List.map_eq_nil_iff.mp sizes.symm).symm
  | cons inst rest ih =>
    cases first with
    | nil => cases length
    | cons loads more =>
      cases second with
      | nil => cases sizes
      | cons loads' more' =>
        obtain ⟨sameSize, sizes⟩ := List.cons.inj sizes
        obtain ⟨next, appended, emittedRest⟩ := Option.bind_eq_some_iff.mp emittedFirst
        obtain ⟨next', appended', emittedRest'⟩ := Option.bind_eq_some_iff.mp emittedSecond
        obtain ⟨lowered, rewritten, code⟩ := appendInst_eq appended
        obtain ⟨lowered', rewritten', code'⟩ := appendInst_eq appended'
        obtain ⟨sameLowered, sameTables⟩ := Prod.mk.inj (Option.some.inj (rewritten.symm.trans rewritten'))
        obtain ⟨tail, result⟩ := emitGroups_appends emittedRest
        obtain ⟨tail', result'⟩ := emitGroups_appends emittedRest'
        have same := result.symm.trans result'
        rw [code, code', LowerState.loads, LowerState.loads] at same
        dsimp only at same
        simp only [List.append_assoc] at same
        have start := List.append_cancel_left same
        have sameLoads := (List.append_inj start (by rw [List.length_map, List.length_map, sameSize])).1
        have injective : Function.Injective CalleeLoad.inst := by
          rintro ⟨slot, start, stop⟩ ⟨slot', start', stop'⟩ equal
          cases equal
          rfl
        have equal := (List.map_injective_iff.mpr injective) sameLoads
        have sameInsts : next.insts = next'.insts := by rw [code, code', equal, sameLowered]
        have sameNext : next = next' := by
          obtain ⟨insts, tables⟩ := next
          obtain ⟨insts', tables'⟩ := next'
          rw [show insts = insts' from sameInsts, show tables = tables' from sameTables]
        rw [← sameNext] at emittedRest'
        rw [equal, ih sizes (Nat.succ.inj length) emittedRest emittedRest']

/-- The rewriting of whole expressions puts the callees of calls that start together the other way round. -/
theorem rewriteExprChunk_groups {f : InstForest} (wf : f.WellFormed) {s s' : LowerState β}
    (done : c.rewriteExprChunk s f.code = .ok s') :
    c.emitGroups ((c.calleesAt [] f).map List.reverse) f.code s = some s' := by
  rw [rewriteExprChunk] at done
  split at done
  · cases done
  · rename_i found finds
    have finds' := finds
    rw [← List.append_nil f.code.reverse] at finds'
    obtain ⟨mid, nothing, heads⟩ := findInserts_code wf finds'
    obtain rfl := Option.some.inj nothing
    have headsOf : ∀ i < f.code.length,
        mid.insertHeads (0 + i) = (((c.calleesAt [] f).map List.reverse)[i]?).getD [] := by
      intro i inside
      rw [heads, headsAt_eq, List.length_nil, if_pos (Nat.zero_le _), Nat.zero_add, Nat.sub_zero, List.append_nil,
        List.getElem?_map]
      cases (c.calleesAt [] f)[i]? <;> rfl
    have callsOf : ∀ i < f.code.length, mid.callIndirect (0 + i) = c.callsAt f.code i := by
      intro i inside
      rw [findInserts_calls finds, Nat.zero_add, List.reverse_reverse, Bool.false_or]
    have length : ((c.calleesAt [] f).map List.reverse).length = f.code.length := by
      rw [List.length_map, calleesAt_length]
    rw [emitChunk_groups f.code 0 _ length headsOf callsOf] at done
    split at done
    · cases done
    · rename_i emitted
      rw [emitted, Except.ok.inj done]

end StmtScope

/-- When a chunk is rewritten, what comes out is what is meant if and only if the callees of the calls whose code starts
with one instruction read the same from both ends; so it is where no two calls start together. -/
theorem rewriteExprChunk_meant_iff {β : Type} (c : StmtScope β) (f : InstForest) (wf : f.WellFormed)
    (s s' : LowerState β) (done : c.rewriteExprChunk s f.code = .ok s') :
    c.emitForest s f = some s' ↔ ∀ callees ∈ c.calleesAt [] f, callees.reverse = callees := by
  have emitted := StmtScope.rewriteExprChunk_groups wf done
  have meant := StmtScope.emitGroups_forest (c := c) f [] (Or.inr rfl) [] [] s
  have last (s : LowerState β) : c.emitGroups [] [] s = some s := rfl
  rw [List.append_nil, List.append_nil, StmtScope.loads_nil, funext last, Option.bind_fun_some] at meant
  rw [← meant]
  have sizes : ((c.calleesAt [] f).map List.reverse).map List.length = (c.calleesAt [] f).map List.length := by
    rw [List.map_map]
    exact List.map_congr_left fun callees _ => List.length_reverse
  have length : ((c.calleesAt [] f).map List.reverse).length = f.code.length := by
    rw [List.length_map, StmtScope.calleesAt_length]
  constructor
  · intro right
    have same := StmtScope.emitGroups_inj sizes length emitted right
    exact List.map_eq_map_iff.mp (same.trans (List.map_id _).symm)
  · intro symmetric
    rwa [List.map_congr_left symmetric, List.map_id'] at emitted

/-- A body with the locals `f`, `g` and `x` in the slots 0, 1 and 2, the first bytes of its source. -/
def threeLocals : StmtScope Unit where
  findLocal start _ := if start < 3 then some start else none
  findCapture _ _ := none
  addFieldRef _ _ _ := none
  lowerInst tables inst := some (inst, tables)

/-- `g(x)`. -/
def innerCall : InstForest := .cons ⟨.CALL, 1, 0, 1, 2⟩ (.cons ⟨.LOAD_IDENT, 0, 0, 2, 3⟩ .nil .nil) .nil

/-- `f(g(x))`. -/
def nestedCall : InstForest := .cons ⟨.CALL, 1, 0, 0, 1⟩ innerCall .nil

theorem rewriteExprChunk_meant_innerCall :
    threeLocals.emitForest ⟨[], ()⟩ innerCall =
        some ⟨[⟨.LOCAL_LOAD, 0, 1, 1, 2⟩, ⟨.LOCAL_LOAD, 0, 2, 2, 3⟩, ⟨.CALL_INDIRECT, 1, 0, 1, 2⟩], ()⟩ ↔
      ∀ callees ∈ threeLocals.calleesAt [] innerCall, callees.reverse = callees :=
  rewriteExprChunk_meant_iff threeLocals innerCall ⟨rfl, ⟨rfl, trivial, trivial⟩, trivial⟩ ⟨[], ()⟩ _ rfl

/-- In `f(g(x))` the load of `g` comes before that of `f`, so the inner call takes `f` and the outer one `g`. -/
theorem nestedCall_not_meant : ∃ s', threeLocals.rewriteExprChunk ⟨[], ()⟩ nestedCall.code = .ok s' ∧
    s'.insts = [⟨.LOCAL_LOAD, 0, 1, 1, 2⟩, ⟨.LOCAL_LOAD, 0, 0, 0, 1⟩, ⟨.LOCAL_LOAD, 0, 2, 2, 3⟩,
      ⟨.CALL_INDIRECT, 1, 0, 1, 2⟩, ⟨.CALL_INDIRECT, 1, 0, 0, 1⟩] ∧
    threeLocals.emitForest ⟨[], ()⟩ nestedCall ≠ some s' :=
  ⟨_, rfl, rfl, by decide⟩

/-! ### The chunks of the builder -/

section Builder

variable {ast : Ast} {src : List UInt8}

theorem exprOperands_inst {k : Combine} {n : Nat} (takes : k.action.Takes n) (few : n < 0x4000) :
    exprOperands (k.inst n) = some n := by
  obtain ⟨action, node, start, stop⟩ := k
  cases action with
  | call receiver spread => exact congrArg some (callTok_count n spread few)
  | tuple =>
    have size : (UInt16.ofNat n).toNat = n := Nat.mod_eq_of_lt (by omega)
    exact congrArg some size
  | slice flags => exact congrArg some (Eq.symm takes)
  | size bytes => exact congrArg some (Eq.symm takes.1)
  | _ => exact congrArg some (Eq.symm takes)

/-- The code of a list of nodes is that of as many well-formed expressions. -/
theorem codeAll_forest {code : Int → Option (List MirInst)}
    (single : ∀ n cs, code n = some cs →
      ∃ inst operands, (InstForest.cons inst operands .nil).WellFormed ∧ (InstForest.cons inst operands .nil).code = cs)
    {ns : List Int} {cs : List MirInst} (all : PostfixCode.codeAll code ns = some cs) :
    ∃ f : InstForest, f.WellFormed ∧ f.length = ns.length ∧ f.code = cs := by
  induction ns generalizing cs with
  | nil =>
    cases all
    exact ⟨.nil, trivial, rfl, rfl⟩
  | cons n ns ih =>
    obtain ⟨first, head, rest⟩ := Option.bind_eq_some_iff.mp all
    obtain ⟨more, tail, same⟩ := Option.bind_eq_some_iff.mp rest
    obtain ⟨inst, operands, ⟨takes, wf, _⟩, codeFirst⟩ := single n first head
    obtain ⟨f, wfRest, length, codeRest⟩ := ih tail
    refine ⟨.cons inst operands f, ⟨takes, wf, wfRest⟩, by rw [InstForest.length, length, List.length_cons], ?_⟩
    rw [InstForest.code, InstForest.code] at codeFirst
    rw [InstForest.code, codeRest, ← Option.some.inj same, ← codeFirst, List.append_assoc]
    rfl

/-- What the builder makes of an expression whose nodes have fewer operands than a call can count is the code of a
well-formed expression. -/
theorem exprCode_forest (few : ∀ nodeId k ns, exprShape ast src nodeId = some (k, ns) → ns.length < 0x4000)
    {treeDepth : Nat} {nodeId : Int} {cs : List MirInst} (code : exprCode ast src treeDepth nodeId = some cs) :
    ∃ inst operands, (InstForest.cons inst operands .nil).WellFormed ∧
      (InstForest.cons inst operands .nil).code = cs := by
  induction treeDepth generalizing nodeId cs with
  | zero => cases code
  | succ treeDepth ih =>
    rw [exprCode, PostfixCode.code] at code
    split at code
    · cases code
    · rename_i k ns shape
      obtain ⟨before, all, same⟩ := Option.map_eq_some_iff.mp code
      obtain ⟨f, wf, length, codeBefore⟩ := codeAll_forest (fun n cs coded => ih coded) all
      have takes := exprOperands_inst (exprShape_takes ast src shape) (few nodeId k ns shape)
      refine ⟨k.inst ns.length, f, ⟨by rw [takes, length], wf, trivial⟩, ?_⟩
      rw [InstForest.code, codeBefore, ← same]
      rfl

end Builder

end HopHop
