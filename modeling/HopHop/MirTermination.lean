import HopHop.MirJumpBound
import HopHop.MirProgramSafe

namespace HopHop

/-! Evaluation of a function without calls: the one activation it makes ends, and with it the evaluation. The
model bounds the depth of calls, the rounds of a loop and the payloads an operator looks through by one number;
what ends by itself comes to the same result under every bound that is large enough. -/

section Settling

variable {S α β : Type}

/-- From some bound on the computation comes to one and the same result, and not for lack of a bound. -/
def Settles (x : Nat → EStateM Stop S α) (s : S) : Prop :=
  ∃ r, (∀ stop s', r = .error stop s' → stop.Own) ∧ ∃ bound, ∀ fuel, bound ≤ fuel → x fuel s = r

theorem Settles.const {x : EStateM Stop S α} (finishes : Finishes x) (s : S) : Settles (fun _ => x) s :=
  ⟨x s, fun stop s' stops => finishes s stop s' stops, 0, fun _ _ => rfl⟩

theorem Settles.congr {x y : Nat → EStateM Stop S α} {s : S} (same : ∀ fuel, x fuel s = y fuel s)
    (settles : Settles y s) : Settles x s := by
  obtain ⟨r, own, bound, result⟩ := settles
  exact ⟨r, own, bound, fun fuel enough => (same fuel).trans (result fuel enough)⟩

theorem Settles.of_succ {x : Nat → EStateM Stop S α} {s : S} (settles : Settles (fun fuel => x (fuel + 1)) s) :
    Settles x s := by
  obtain ⟨r, own, bound, result⟩ := settles
  refine ⟨r, own, bound + 1, fun fuel enough => ?_⟩
  have positive : fuel ≠ 0 := by omega
  obtain ⟨fuel, rfl⟩ := Nat.exists_eq_add_one_of_ne_zero positive
  exact result fuel (Nat.le_of_succ_le_succ enough)

theorem Settles.bind {x : Nat → EStateM Stop S α} {f : Nat → α → EStateM Stop S β} {s : S}
    (first : Settles x s) (rest : ∀ a s', (∃ fuel, x fuel s = .ok a s') → Settles (fun fuel => f fuel a) s') :
    Settles (fun fuel => x fuel >>= f fuel) s := by
  obtain ⟨r, own, bound, result⟩ := first
  cases r with
  | ok a s' =>
    obtain ⟨r', own', bound', result'⟩ := rest a s' ⟨bound, result bound (Nat.le_refl _)⟩
    refine ⟨r', own', max bound bound', fun fuel enough => ?_⟩
    exact (run_bind_ok (result fuel (by omega))).trans (result' fuel (by omega))
  | error stop s' =>
    refine ⟨.error stop s', ?_, bound, fun fuel enough => run_bind_error (result fuel enough)⟩
    intro stop' s'' same
    cases same
    exact own stop s' rfl

theorem Settles.onMem {σ : Type} {x : Nat → Exec σ α} {c : Config σ} (settles : Settles x c.mem) :
    Settles (fun fuel => onMem (x fuel)) c := by
  obtain ⟨r, own, bound, result⟩ := settles
  cases r with
  | ok a mem =>
    exact ⟨.ok a { c with mem }, nofun, bound, fun fuel enough => by
      simp only [HopHop.onMem, result fuel enough]⟩
  | error stop mem =>
    refine ⟨.error stop { c with mem }, ?_, bound, fun fuel enough => by
      simp only [HopHop.onMem, result fuel enough]⟩
    intro stop' c' same
    cases same
    exact own stop mem rfl

theorem Settles.finallyDo {σ : Type} {x : Nat → Exec σ α} {mem : σ} (settles : Settles x mem) (undo : σ → σ) :
    Settles (fun fuel => finallyDo (x fuel) undo) mem := by
  obtain ⟨r, own, bound, result⟩ := settles
  cases r with
  | ok a mem' =>
    exact ⟨.ok a (undo mem'), nofun, bound, fun fuel enough => by
      simp only [HopHop.finallyDo, result fuel enough]⟩
  | error stop mem' =>
    refine ⟨.error stop (undo mem'), ?_, bound, fun fuel enough => by
      simp only [HopHop.finallyDo, result fuel enough]⟩
    intro stop' c' same
    cases same
    exact own stop mem' rfl

end Settling

section Payloads

variable {σ : Type} (m : Machine σ)

/-- The payloads of an optional, one inside the other, come to an end. -/
inductive PayloadsEnd (mem : σ) : CTFEValue → Prop
  | intro (v : CTFEValue) (inner : ∀ p, optionalPayload v = some (some p) → PayloadsEnd mem (m.loadValue p mem)) :
      PayloadsEnd mem v

variable (hook : Option (BinaryHook σ)) (op : TokenKind)

theorem evalBinary_settles_flat {lhs rhs : CTFEValue} (mem : σ)
    (left : ¬(lhs.kind = .OPTIONAL ∧ rhs.kind ≠ .OPTIONAL ∧ rhs.kind ≠ .NULL))
    (right : ¬(rhs.kind = .OPTIONAL ∧ lhs.kind ≠ .OPTIONAL ∧ lhs.kind ≠ .NULL)) :
    Settles (fun fuel => evalBinary m hook op fuel lhs rhs) mem := by
  refine Settles.congr (fun fuel => ?_) (.const (evalBinaryFlat_finishes m hook op lhs rhs) mem)
  rw [evalBinary.eq_def]
  dsimp only
  rw [if_neg left, if_neg right]

/-- The left operand is unwrapped down to a value that is no optional. -/
theorem evalBinary_settles_left {lhs rhs : CTFEValue} {mem : σ} (ends : PayloadsEnd m mem lhs)
    (notOptional : rhs.kind ≠ .OPTIONAL) (notNull : rhs.kind ≠ .NULL) :
    Settles (fun fuel => evalBinary m hook op fuel lhs rhs) mem := by
  induction ends with
  | intro lhs inner ih =>
    by_cases optional : lhs.kind = .OPTIONAL
    · have unwraps : lhs.kind = .OPTIONAL ∧ rhs.kind ≠ .OPTIONAL ∧ rhs.kind ≠ .NULL :=
        ⟨optional, notOptional, notNull⟩
      cases payload : optionalPayload lhs with
      | none =>
        refine Settles.congr (fun fuel => ?_) (.const finishes_notConst mem)
        rw [evalBinary.eq_def]
        dsimp only
        rw [if_pos unwraps, payload]
      | some found =>
        cases found with
        | none =>
          refine Settles.congr (fun fuel => ?_) (.const finishes_notConst mem)
          rw [evalBinary.eq_def]
          dsimp only
          rw [if_pos unwraps, payload]
        | some p =>
          refine Settles.of_succ (Settles.congr (fun fuel => ?_) (ih p payload))
          rw [evalBinary.eq_def]
          dsimp only
          rw [if_pos unwraps, payload]
          rfl
    · exact evalBinary_settles_flat m hook op mem (fun unwraps => optional unwraps.1)
        fun unwraps => notOptional unwraps.1

theorem evalBinary_settles_right {lhs rhs : CTFEValue} {mem : σ} (ends : PayloadsEnd m mem rhs)
    (notOptional : lhs.kind ≠ .OPTIONAL) (notNull : lhs.kind ≠ .NULL) :
    Settles (fun fuel => evalBinary m hook op fuel lhs rhs) mem := by
  induction ends with
  | intro rhs inner ih =>
    have left : ¬(lhs.kind = .OPTIONAL ∧ rhs.kind ≠ .OPTIONAL ∧ rhs.kind ≠ .NULL) :=
      fun unwraps => notOptional unwraps.1
    by_cases optional : rhs.kind = .OPTIONAL
    · have unwraps : rhs.kind = .OPTIONAL ∧ lhs.kind ≠ .OPTIONAL ∧ lhs.kind ≠ .NULL :=
        ⟨optional, notOptional, notNull⟩
      cases payload : optionalPayload rhs with
      | none =>
        refine Settles.congr (fun fuel => ?_) (.const finishes_notConst mem)
        rw [evalBinary.eq_def]
        dsimp only
        rw [if_neg left, if_pos unwraps, payload]
      | some found =>
        cases found with
        | none =>
          refine Settles.congr (fun fuel => ?_) (.const finishes_notConst mem)
          rw [evalBinary.eq_def]
          dsimp only
          rw [if_neg left, if_pos unwraps, payload]
        | some p =>
          refine Settles.of_succ (Settles.congr (fun fuel => ?_) (ih p payload))
          rw [evalBinary.eq_def]
          dsimp only
          rw [if_neg left, if_pos unwraps, payload]
          rfl
    · exact evalBinary_settles_flat m hook op mem left fun unwraps => optional unwraps.1

theorem evalBinary_settles {lhs rhs : CTFEValue} {mem : σ} (left : PayloadsEnd m mem lhs)
    (right : PayloadsEnd m mem rhs) : Settles (fun fuel => evalBinary m hook op fuel lhs rhs) mem := by
  by_cases unwrapsLeft : lhs.kind = .OPTIONAL ∧ rhs.kind ≠ .OPTIONAL ∧ rhs.kind ≠ .NULL
  · exact evalBinary_settles_left m hook op left unwrapsLeft.2.1 unwrapsLeft.2.2
  · by_cases unwrapsRight : rhs.kind = .OPTIONAL ∧ lhs.kind ≠ .OPTIONAL ∧ lhs.kind ≠ .NULL
    · exact evalBinary_settles_right m hook op right unwrapsRight.2.1 unwrapsRight.2.2
    · exact evalBinary_settles_flat m hook op mem unwrapsLeft unwrapsRight

theorem binaryValue_settles (env : ExecEnv σ) (ins : MirInst) {lhs rhs : CTFEValue} {mem : σ}
    (left : PayloadsEnd m mem lhs) (right : PayloadsEnd m mem rhs) :
    Settles (fun fuel => binaryValue m env fuel ins lhs rhs) mem := by
  obtain ⟨r, own, bound, result⟩ := evalBinary_settles m env.evalBinary (TokenKind.ofCode ins.tok) left right
  by_cases refused : ∃ after, r = .error .notConst after
  · obtain ⟨after, rfl⟩ := refused
    refine ⟨refuse env ins "binary operation is not supported during const evaluation" after, ?_, bound, ?_⟩
    · exact fun stop s' stops => refuse_finishes env ins _ after stop s' stops
    · intro fuel enough
      simp only [binaryValue, result fuel enough]
  · refine ⟨r, own, bound, fun fuel enough => ?_⟩
    simp only [binaryValue, result fuel enough]
    split
    · rename_i after
      exact (refused ⟨after, rfl⟩).elim
    · rfl

end Payloads

section Loop

variable {σ : Type} (m : Machine σ) (run : ExecRun σ) (callee : Nat → Callee σ)

/-- The activation with another bound on the payloads an operator looks through. -/
def ExecRun.withDepth (depth : Nat) : ExecRun σ := { run with depth }

/-- The code calls no function of the program. -/
def CallFree (code : List MirInst) : Prop := ∀ ins ∈ code, ins.op ≠ .CALL_FN ∧ ins.op ≠ .CALL_INDIRECT

/-- The bound on payloads matters for the binary operators only. -/
theorem execOp_withDepth (depth : Nat) {ins : MirInst} (noCall : ins.op ≠ .CALL_FN)
    (noIndirect : ins.op ≠ .CALL_INDIRECT) (noBinary : ins.op ≠ .BINARY) (callee callee' : Callee σ) :
    execOp m (run.withDepth depth) callee ins = execOp m run callee' ins := by
  unfold execOp
  cases op : ins.op with
  | CALL_FN => exact absurd op noCall
  | CALL_INDIRECT => exact absurd op noIndirect
  | BINARY => exact absurd op noBinary
  | _ => rfl

theorem jump_finishes (ins : MirInst) : Finishes (jump run ins) := by
  unfold jump
  have refused : Straight (onMem (refuse run.env ins "for-loop exceeded const-eval iteration limit") : Frame σ Unit) :=
    .onMem (refuse_finishes run.env ins _)
  have finishes := refused.finishes
  grind

theorem Finishes.ofOp (callee : Callee σ) {ins : MirInst} (noCall : ins.op ≠ .CALL_FN)
    (noIndirect : ins.op ≠ .CALL_INDIRECT) (noBinary : ins.op ≠ .BINARY) : Finishes (execOp m run callee ins) := by
  have jumps := jump_finishes run ins
  by_cases isJump : ins.op = .JUMP
  · simp only [execOp, isJump]
    exact .seq (guardJump_straight run ins).finishes fun _ => jumps
  · by_cases isBranch : ins.op = .JUMP_IF_FALSE
    · simp only [execOp, isBranch]
      refine .seq (guardJump_straight run ins).finishes fun _ => .seq pop_straight.finishes fun cond => ?_
      refine .seq (boolOf_straight cond).finishes fun holds => ?_
      exact .ite (fun _ => jumps) fun _ => .pure _
    · exact execOp_finishes m run callee isJump isBranch noCall noIndirect noBinary

theorem execOp_settles (finite : ∀ mem v, PayloadsEnd m mem v) {ins : MirInst} (noCall : ins.op ≠ .CALL_FN)
    (noIndirect : ins.op ≠ .CALL_INDIRECT) (c : Config σ) :
    Settles (fun fuel => execOp m (run.withDepth fuel) (callee fuel) ins) c := by
  by_cases binary : ins.op = .BINARY
  · simp only [execOp, binary]
    refine Settles.bind (.const pop_straight.finishes c) fun rhs c₁ _ => ?_
    refine Settles.bind (.const pop_straight.finishes c₁) fun lhs c₂ _ => ?_
    have value := binaryValue_settles m run.env ins (finite c₂.mem lhs) (finite c₂.mem rhs)
    exact Settles.bind value.onMem fun v c₃ _ => .const (push_straight m run v).finishes c₃
  · refine Settles.congr (fun fuel => ?_)
      (.const (Finishes.ofOp m run (fun _ _ _ => Exec.notConst) noCall noIndirect binary) c)
    rw [execOp_withDepth m run fuel noCall noIndirect binary]

theorem returnValue_finishes (ins : MirInst) : Finishes (returnValue run ins) := by
  unfold returnValue
  refine .seq .get fun c => ?_
  split
  · exact (Straight.onMem (coerceValueForType_finishes run.env run.program _ _)).finishes
  · exact (Straight.onMem (refuse_finishes run.env ins _)).finishes

theorem execInst_settles (finite : ∀ mem v, PayloadsEnd m mem v) {ins : MirInst}
    (noCall : ins.op ≠ .CALL_FN) (noIndirect : ins.op ≠ .CALL_INDIRECT) (c : Config σ) :
    Settles (fun fuel => execInst m (run.withDepth fuel) (callee fuel) ins) c := by
  unfold execInst
  by_cases returns : ins.op = .RETURN
  · simp only [if_pos returns]
    exact .const ((returnValue_finishes run ins).map some) c
  · by_cases returnsVoid : ins.op = .RETURN_VOID
    · simp only [if_neg returns, if_pos returnsVoid]
      exact .const (.pure _) c
    · simp only [if_neg returns, if_neg returnsVoid]
      exact Settles.bind (execOp_settles m run callee finite noCall noIndirect c) fun _ c' _ => .const (.pure _) c'

/-- What a round comes to with the result of its instruction. -/
def afterInst (r : EStateM.Result Stop (Config σ) (Option CTFEValue)) : Steps.Next (Config σ) (RunResult σ) :=
  match r with
  | .ok none c => .run c
  | .ok (some v) c => .halt (.ok v c.mem)
  | .error stop c => .halt (.error stop c.mem)

theorem runStep_at (callee : Callee σ) {c : Config σ} (inside : c.pc < run.code.length) :
    runStep m run callee c = afterInst (execInst m run callee run.code[c.pc] { c with pc := c.pc + 1 }) := by
  have fetched : ∀ mid, (onMem (readTable .insts run.code c.pc) : Frame σ MirInst) mid =
      .ok run.code[c.pc] mid := by
    intro mid
    rw [onMem, readTable, List.getElem?_eq_getElem inside]
    rfl
  unfold runStep
  rw [if_neg (Nat.not_le_of_lt inside), run_bind_ok (fetched _)]
  rfl

/-- Under every large enough bound a round does the same. -/
theorem runStep_settles (finite : ∀ mem v, PayloadsEnd m mem v) (free : CallFree run.code) (c : Config σ) :
    ∃ next, (∀ stop mem, next = .halt (.error stop mem) → stop.Own) ∧
      ∃ bound, ∀ fuel, bound ≤ fuel → runStep m (run.withDepth fuel) (callee fuel) c = next := by
  by_cases inside : c.pc < run.code.length
  · obtain ⟨noCall, noIndirect⟩ := free _ (List.getElem_mem inside)
    obtain ⟨r, own, bound, result⟩ :=
      execInst_settles m run callee finite noCall noIndirect { c with pc := c.pc + 1 }
    refine ⟨afterInst r, ?_, bound, fun fuel enough => ?_⟩
    · intro stop mem same
      unfold afterInst at same
      split at same <;> cases same
      exact own _ _ rfl
    · rw [← result fuel enough]
      exact runStep_at m (run.withDepth fuel) (callee fuel) inside
  · refine ⟨.halt (.error .notConst c.mem), ?_, 0, fun fuel _ => if_pos (Nat.le_of_not_lt inside)⟩
    intro stop mem same
    cases same
    exact own_notConst

/-- The loop ends under every large enough bound, from any state the limit on backward jumps admits. -/
theorem runFor_settles (limited : run.env.backwardJumpLimit ≠ 0)
    (counts : run.env.backwardJumpLimit.toNat < 2 ^ 32 - 1) (finite : ∀ mem v, PayloadsEnd m mem v)
    (free : CallFree run.code) {c : Config σ} (within : run.Within c) :
    ∃ r, (∀ stop mem, r = .error stop mem → stop.Own) ∧ ∃ bound, ∀ fuel, bound ≤ fuel → ∀ rounds,
      run.budget c < rounds →
        Steps.runFor (runStep m (run.withDepth fuel) (callee fuel)) rounds c = some r := by
  induction left : run.budget c using Nat.strongRecOn generalizing c with
  | _ k ih =>
    obtain ⟨next, own, bound, same⟩ := runStep_settles m run callee finite free c
    cases next with
    | halt r =>
      refine ⟨r, fun stop mem stops => own stop mem (by rw [stops]), bound, fun fuel enough rounds more => ?_⟩
      obtain ⟨rounds, rfl⟩ := Nat.exists_eq_add_one_of_ne_zero (Nat.ne_of_gt (Nat.zero_lt_of_lt more))
      simp only [Steps.runFor, same fuel enough]
    | run c' =>
      obtain ⟨inside, moves⟩ := runStep_moves m (run.withDepth bound) (callee bound) limited
        (same bound (Nat.le_refl _))
      obtain ⟨within', lower⟩ := moves.lowers (run.withDepth bound) counts within inside
      have lower : run.budget c' < k := left ▸ lower
      obtain ⟨r, own', bound', result⟩ := ih _ lower within' rfl
      refine ⟨r, own', max bound bound', fun fuel enough rounds more => ?_⟩
      obtain ⟨rounds, rfl⟩ := Nat.exists_eq_add_one_of_ne_zero (Nat.ne_of_gt (Nat.zero_lt_of_lt more))
      simp only [Steps.runFor, same fuel (by omega)]
      exact result fuel (by omega) rounds (by omega)

theorem runLoop_settles (limited : run.env.backwardJumpLimit ≠ 0)
    (counts : run.env.backwardJumpLimit.toNat < 2 ^ 32 - 1) (finite : ∀ mem v, PayloadsEnd m mem v)
    (free : CallFree run.code) (mem : σ) :
    Settles (fun fuel => runLoop m (run.withDepth fuel) (callee fuel) fuel) mem := by
  have start : run.Within (startConfig mem) := Nat.zero_le _
  obtain ⟨r, own, bound, result⟩ := runFor_settles m run callee limited counts finite free start
  refine ⟨r, own, max bound (run.budget (startConfig mem) + 1), fun fuel enough => ?_⟩
  simp only [runLoop, result fuel (by omega) fuel (by omega), Option.getD_some]

end Loop

section Call

variable {σ : Type} (m : Machine σ)

theorem clearLocals_withDepth (run : ExecRun σ) (depth slot count : Nat) :
    clearLocals m (run.withDepth depth) slot count = clearLocals m run slot count := by
  induction count generalizing slot with
  | zero => rfl
  | succ count ih =>
    simp only [clearLocals, ih]
    rfl

theorem bindArgs_withDepth (run : ExecRun σ) (depth slot : Nat) (args : List CTFEValue) :
    bindArgs m (run.withDepth depth) slot args = bindArgs m run slot args := by
  induction args generalizing slot with
  | nil => rfl
  | cons arg rest ih =>
    simp only [bindArgs, ih]
    rfl

theorem bindAll_withDepth (run : ExecRun σ) (depth : Nat) (args : List CTFEValue) :
    bindAll m (run.withDepth depth) args = bindAll m run args := by
  unfold bindAll
  rw [bindArgs_withDepth]
  rfl

theorem clearLocals_finishes (run : ExecRun σ) (slot count : Nat) : Finishes (clearLocals m run slot count) := by
  induction count generalizing slot with
  | zero => exact .pure _
  | succ count ih => exact .seq (storeLocal_finishes m run slot .invalid) fun _ => ih (slot + 1)

theorem bindArgs_finishes (run : ExecRun σ) (slot : Nat) (args : List CTFEValue) :
    Finishes (bindArgs m run slot args) := by
  induction args generalizing slot with
  | nil => exact .pure _
  | cons arg rest ih =>
    have next := ih (slot + 1)
    unfold bindArgs
    grind

variable (program : MirProgram)

@[grind ←] theorem allocValues_finishes (count : Nat) : Finishes (allocValues m count) :=
  allocOr_finishes m _ 0 0

@[grind ←] theorem allocLocals_finishes (count : Nat) : Finishes (allocLocals m count) := by
  grind [allocLocals]

theorem bindAll_finishes (run : ExecRun σ) (args : List CTFEValue) : Finishes (bindAll m run args) := by
  have binds := bindArgs_finishes m run 0 args
  grind [bindAll]

theorem initRun_finishes (code : List MirInst) (tables : Option MirProgram) (function : Option MirFunction)
    (localCount : Nat) (args : List CTFEValue) (env : ExecEnv σ) (depth : Nat) :
    Finishes (initRun m code tables function localCount args env depth) := by
  refine .seq (allocValues_finishes m _) fun _ => .seq (allocLocals_finishes m _) fun locals => ?_
  exact .seq (clearLocals_finishes m _ _ _) fun _ => .seq (bindAll_finishes m _ _) fun _ => .pure _

/-- The bound is only recorded when the activation is set up. -/
theorem initRun_withDepth (code : List MirInst) (tables : Option MirProgram) (function : Option MirFunction)
    (localCount : Nat) (args : List CTFEValue) (env : ExecEnv σ) (depth : Nat) :
    initRun m code tables function localCount args env depth =
      (do return (← initRun m code tables function localCount args env 0).withDepth depth) := by
  simp only [initRun, bind_assoc, pure_bind]
  refine bind_congr fun _ => bind_congr fun locals => ?_
  generalize blank : (ExecRun.mk code tables function env _ localCount locals _ 0) = run
  have cleared := clearLocals_withDepth m run depth 0 localCount
  have bound := bindAll_withDepth m run depth args
  rw [← cleared, ← bound, ← blank]
  rfl

theorem initRun_spec {code : List MirInst} {tables : Option MirProgram} {function : Option MirFunction}
    {localCount : Nat} {args : List CTFEValue} {env : ExecEnv σ} {depth : Nat} {mem mem' : σ} {run : ExecRun σ}
    (done : initRun m code tables function localCount args env depth mem = .ok run mem') :
    run.code = code ∧ run.env = env := by
  obtain ⟨_, _, -, done⟩ := bind_ok done
  obtain ⟨_, _, -, done⟩ := bind_ok done
  obtain ⟨_, _, -, done⟩ := bind_ok done
  obtain ⟨_, _, -, done⟩ := bind_ok done
  cases done
  exact ⟨rfl, rfl⟩

/-- Setting an activation up and running it settles when the loop does. -/
theorem initRun_settles {β : Type} (code : List MirInst) (tables : Option MirProgram)
    (function : Option MirFunction) (localCount : Nat) (args : List CTFEValue) (env : ExecEnv σ)
    (rest : Nat → ExecRun σ → Exec σ β)
    (settles : ∀ (run : ExecRun σ) mem, run.code = code → run.env = env →
      Settles (fun fuel => rest fuel (run.withDepth fuel)) mem) (mem : σ) :
    Settles (fun fuel => do rest fuel (← initRun m code tables function localCount args env fuel)) mem := by
  refine Settles.congr (y := fun fuel => do
    rest fuel ((← initRun m code tables function localCount args env 0).withDepth fuel)) (fun fuel => ?_) ?_
  · rw [initRun_withDepth, bind_assoc]
    simp only [pure_bind]
  · refine Settles.bind (.const (initRun_finishes m code tables function localCount args env 0) mem) ?_
    rintro run mem' ⟨_, done⟩
    obtain ⟨sameCode, sameEnv⟩ := initRun_spec m done
    exact settles run mem' sameCode sameEnv

theorem storePack_finishes (run : ExecRun σ) (fn : MirFunction) (pack : Option CTFEValue) :
    Finishes (storePack m run fn pack) := by
  cases pack <;> grind [storePack]

theorem clearDiag_finishes (top : Bool) : Finishes (clearDiag m top) := by
  grind [clearDiag]

theorem runFrame_settles (callee : Nat → ExecEnv σ → Callee σ) {env : ExecEnv σ} {fn : MirFunction}
    (limited : env.backwardJumpLimit ≠ 0) (counts : env.backwardJumpLimit.toNat < 2 ^ 32 - 1)
    (finite : ∀ mem v, PayloadsEnd m mem v) (free : CallFree (fn.code program)) (args : List CTFEValue)
    (pack : Option CTFEValue) (top : Bool) (mem : σ) :
    Settles (fun fuel => runFrame m program (callee fuel) env fn args pack top fuel) mem := by
  refine Settles.bind (.const (clearDiag_finishes m top) mem) fun _ mem₁ _ => ?_
  refine initRun_settles m (fn.code program) (some program) (some fn) fn.localCount.toNat args env
    (fun fuel run => do
      storePack m run fn pack
      askStatus (env.bindFrame.map fun bind => bind program fn run.locals fn.localCount)
      finallyDo (runLoop m run (callee fuel env) fuel)
        (if env.bindFrame.isSome then env.unbindFrame.getD id else id)) ?_ mem₁
  intro run mem₂ sameCode sameEnv
  refine Settles.bind (.const (storePack_finishes m run fn pack) mem₂) fun _ mem₃ _ => ?_
  have asked := askStatus_finishes (env.bindFrame.map fun bind => bind program fn run.locals fn.localCount)
  refine Settles.bind (.const asked mem₃) fun _ mem₄ _ => ?_
  refine Settles.finallyDo ?_ _
  rw [← sameCode] at free
  rw [← sameEnv] at limited counts
  exact runLoop_settles m run (fun fuel => callee fuel env) limited counts finite free mem₄

@[grind ←] theorem hiddenArgument_finishes (fn : MirFunction) (functionIndex : UInt32) (args : List CTFEValue) :
    Finishes (hiddenArgument m fn functionIndex args) := by
  unfold hiddenArgument
  grind

@[grind ←] theorem packArguments_finishes (env : ExecEnv σ) (fn : MirFunction) (callFlags : UInt16)
    (args : List CTFEValue) : Finishes (packArguments program env fn callFlags args) := by
  unfold packArguments packType
  grind

@[grind ←] theorem functionSource_finishes (env : ExecEnv σ) (fn : MirFunction) :
    Finishes (functionSource program env fn) := by
  unfold functionSource
  grind

theorem callFunction_settles (callee : Nat → ExecEnv σ → Callee σ) {env : ExecEnv σ} {fn : MirFunction}
    (limited : env.backwardJumpLimit ≠ 0) (counts : env.backwardJumpLimit.toNat < 2 ^ 32 - 1)
    (finite : ∀ mem v, PayloadsEnd m mem v) (free : CallFree (fn.code program)) (functionIndex : UInt32)
    (args : List CTFEValue) (callFlags : UInt16) (top : Bool) (mem : σ) :
    Settles (fun fuel => callFunction m program (callee fuel) env fn functionIndex args callFlags top fuel)
      mem := by
  refine Settles.bind (.const (hiddenArgument_finishes m fn functionIndex args) mem) fun args mem₁ _ => ?_
  refine Settles.bind (.const (packArguments_finishes program env fn callFlags args) mem₁) fun packed mem₂ _ => ?_
  refine Settles.bind (.const (functionSource_finishes program env fn) mem₂) fun src mem₃ _ => ?_
  refine Settles.bind (.const (askStatus_finishes _) mem₃) fun _ mem₄ _ => ?_
  have limited' : ({ env with src } : ExecEnv σ).backwardJumpLimit ≠ 0 := limited
  have body := runFrame_settles m program callee limited' counts finite free packed.1 packed.2 top mem₄
  exact body.finallyDo _

theorem failWith_finishes (diag : Diag) : Finishes (failWith m diag) :=
  .seq (.modify _) fun _ => finishes_error

/-- The evaluation of a function without calls ends: every large enough bound gives the same result. -/
theorem evalFunction_settles {env : ExecEnv σ} (limited : env.backwardJumpLimit ≠ 0)
    (counts : env.backwardJumpLimit.toNat < 2 ^ 32 - 1) (finite : ∀ mem v, PayloadsEnd m mem v)
    (functionIndex : UInt32)
    (free : ∀ fn, program.funcs[functionIndex.toNat]? = some fn → CallFree (fn.code program))
    (args : List CTFEValue) (mem : σ) :
    Settles (fun fuel => evalFunction m program env functionIndex args fuel) mem := by
  refine Settles.of_succ ?_
  simp only [evalFunction, evalFunctionInternal, if_true]
  by_cases missing : program.funcs.length ≤ functionIndex.toNat
  · simp only [if_pos missing]
    exact .const (failWith_finishes m _) mem
  simp only [if_neg missing]
  cases validateProgram program with
  | some diag => exact .const (failWith_finishes m diag) mem
  | none =>
    refine Settles.bind (.const (readTable_finishes .funcs program.funcs functionIndex.toNat) mem) ?_
    rintro fn mem₁ ⟨_, found⟩
    by_cases outside : program.insts.length < fn.instStart.toNat
        ∨ program.insts.length - fn.instStart.toNat < fn.instLen.toNat
    · simp only [if_pos outside]
      exact .const (failWith_finishes m _) mem₁
    simp only [if_neg outside]
    by_cases short : fn.localCount < fn.paramCount
    · simp only [if_pos short]
      exact .const finishes_notConst mem₁
    simp only [if_neg short]
    exact callFunction_settles m program (fun fuel => evalFunctionInternal m program fuel false) limited counts
      finite (free fn (readTable_ok found)) functionIndex args 0 true mem₁

end Call

/-- Under this limit every activation returns after executing the code at most once more than it may jump
backward, and the evaluation of a function without calls comes to an end. -/
def JumpsBounded (limit : UInt32) : Prop :=
  (∀ (σ : Type) (m : Machine σ) (run : ExecRun σ) (callee : Callee σ) (mem : σ),
    run.env.backwardJumpLimit = limit →
      run.ReturnsWithin m callee (startConfig mem) ((limit.toNat + 1) * run.code.length)) ∧
  ∀ (σ : Type) (m : Machine σ) (program : MirProgram) (env : ExecEnv σ) (functionIndex : UInt32),
    env.backwardJumpLimit = limit → (∀ mem v, PayloadsEnd m mem v) →
    (∀ fn, program.funcs[functionIndex.toNat]? = some fn → CallFree (fn.code program)) → ∀ args mem,
      Settles (fun fuel => evalFunction m program env functionIndex args fuel) mem

/-- An instruction that jumps to itself. -/
def spinInst : MirInst := ⟨.JUMP, 0, 0, 0, 0⟩

/-- An activation of it with the greatest limit. -/
def spinRun : ExecRun Unit :=
  ⟨[spinInst], none, none, { ExecEnv.empty Unit [] with backwardJumpLimit := 0xFFFFFFFF }, 2, 0, 0, 0, 0⟩

/-- The count of backward jumps wraps around before it can exceed the greatest limit. -/
theorem spin_step (callee : Callee Unit) {c : Config Unit} (atStart : c.pc = 0) :
    ∃ c', runStep Machine.bare spinRun callee c = .run c' ∧ c'.pc = 0 := by
  have inside : c.pc < spinRun.code.length := by rw [atStart]; decide
  have under : ¬(0xFFFFFFFF : UInt32) < c.backwardJumpCount + 1 := by
    rw [UInt32.lt_iff_toNat_lt]
    have small := (c.backwardJumpCount + 1).toNat_lt
    exact Nat.not_lt.mpr (Nat.le_of_lt_succ small)
  refine ⟨{ c with pc := 0, backwardJumpCount := c.backwardJumpCount + 1 }, ?_, rfl⟩
  rw [runStep_at Machine.bare spinRun callee inside]
  have spins : spinRun.code[c.pc] = spinInst := by simp only [atStart]; rfl
  have jumps : execOp Machine.bare spinRun callee spinInst { c with pc := c.pc + 1 } =
      .ok () { c with pc := 0, backwardJumpCount := c.backwardJumpCount + 1 } := by
    have back : spinRun.env.backwardJumpLimit ≠ 0 ∧ spinInst.aux.toNat < c.pc + 1 :=
      ⟨by decide, Nat.succ_pos _⟩
    change jump spinRun spinInst { c with pc := c.pc + 1 } = _
    have got : (get : Frame Unit (Config Unit)) { c with pc := c.pc + 1 } =
        .ok { c with pc := c.pc + 1 } { c with pc := c.pc + 1 } := rfl
    have stored : (set { c with pc := c.pc + 1, backwardJumpCount := c.backwardJumpCount + 1 } : Frame Unit PUnit)
        { c with pc := c.pc + 1 } =
          .ok () { c with pc := c.pc + 1, backwardJumpCount := c.backwardJumpCount + 1 } := rfl
    rw [jump, run_bind_ok got, if_pos back, run_bind_ok stored]
    exact congrFun (if_neg under) _
  rw [spins, execInst, if_neg (by decide), if_neg (by decide), run_bind_ok jumps]
  rfl

/-- The activation that jumps to itself never returns. -/
theorem spin_never (callee : Callee Unit) (mem : Unit) (bound : Nat) :
    ¬spinRun.ReturnsWithin Machine.bare callee (startConfig mem) bound := by
  rintro ⟨rounds, c, r, reach, last, -⟩
  have atStart : c.pc = 0 := by
    refine reach.reaches.invariant (P := fun c => c.pc = 0) (fun a b same round => ?_) rfl
    obtain ⟨b', again, atZero⟩ := spin_step callee same
    rw [again] at round
    cases round
    exact atZero
  obtain ⟨c', again, -⟩ := spin_step callee atStart
  rw [again] at last
  cases last

/-- The loop is bounded exactly by the limits the 32-bit count of backward jumps can go beyond. -/
theorem jumpsBounded_iff {limit : UInt32} (positive : 0 < limit) : JumpsBounded limit ↔ limit ≠ 0xFFFFFFFF := by
  have nonzero : limit ≠ 0 := UInt32.pos_iff_ne_zero.mp positive
  constructor
  · rintro ⟨returns, -⟩ rfl
    exact spin_never (fun _ _ _ => Exec.notConst) () _
      (returns Unit Machine.bare spinRun (fun _ _ _ => Exec.notConst) () rfl)
  · intro below
    have counts : limit.toNat < 2 ^ 32 - 1 := by
      have small := limit.toNat_lt
      have apart : limit.toNat ≠ 2 ^ 32 - 1 := fun same => below (UInt32.toNat_inj.mp same)
      omega
    constructor
    · rintro σ m run callee mem rfl
      exact returnsWithin_of_counts m run callee nonzero counts mem
    · rintro σ m program env functionIndex rfl finite free args mem
      exact evalFunction_settles m program nonzero counts finite functionIndex free args mem

/-- The limit of the checker's loops. -/
theorem jumpsBounded_checker : 0 < (100000 : UInt32) ∧ JumpsBounded 100000 :=
  ⟨by decide, (jumpsBounded_iff (by decide)).mpr (by decide)⟩

theorem not_jumpsBounded_greatest : ¬JumpsBounded 0xFFFFFFFF := by
  rintro ⟨returns, -⟩
  exact spin_never (fun _ _ _ => Exec.notConst) () _
    (returns Unit Machine.bare spinRun (fun _ _ _ => Exec.notConst) () rfl)

end HopHop
