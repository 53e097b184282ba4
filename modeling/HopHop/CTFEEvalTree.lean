import HopHop.CTFEEvalStep
import Mathlib.Data.List.Forall2

namespace HopHop

/-! A constant expression is evaluated as its tree is, once the literals have been read. -/

section Loop

variable {σ : Type} {m : Machine σ} {run : ExecRun σ} {callee : Callee σ} {pc : Nat} {st vs : List CTFEValue} {s : σ}

/-- A round of the loop at an instruction that is no return. -/
theorem runStep_follows {ins : MirInst} (fetched : run.code[pc]? = some ins)
    (goesOn : ins.op ≠ .RETURN ∧ ins.op ≠ .RETURN_VOID) {r : EStateM.Result Stop σ CTFEValue}
    (follows : Follows (pc + 1) st r (execOp m run callee ins ⟨pc + 1, vs.reverse ++ st, 0, s⟩)) :
    PostfixCode.Combines (runStep m run callee) (fun pc st s => ⟨pc, st, 0, s⟩) (fun stop s => .error stop s) pc vs
      st s r := by
  have inside : ¬ run.code.length ≤ pc := Nat.not_le.mpr (List.getElem?_eq_some_iff.mp fetched).1
  have read : onMem (readTable .insts run.code pc) (⟨pc + 1, vs.reverse ++ st, 0, s⟩ : Config σ) =
      .ok ins ⟨pc + 1, vs.reverse ++ st, 0, s⟩ := by
    apply onMem_ok
    unfold readTable
    rw [fetched]
    rfl
  have exec : execInst m run callee ins = (do execOp m run callee ins; pure none) := by
    unfold execInst
    rw [if_neg goesOn.1, if_neg goesOn.2]
  cases r with
  | ok v s' =>
    unfold PostfixCode.Combines runStep
    simp only [if_neg inside]
    rw [run_bind_ok read, exec, run_bind_ok follows]
    rfl
  | error stop s' =>
    obtain ⟨rest, follows⟩ := follows
    unfold PostfixCode.Combines runStep
    simp only [if_neg inside]
    rw [run_bind_ok read, exec, run_bind_error follows]

variable (m callee) in
/-- A return of the only value on the stack ends the run with it when the function has no result type. -/
theorem runStep_returns {ret : MirInst} (fetched : run.code[pc]? = some ret) (op : ret.op = .RETURN)
    (untyped : (run.function.map MirFunction.typeRef).getD noTypeRef = noTypeRef) {v : CTFEValue} :
    runStep m run callee ⟨pc, [v], 0, s⟩ = .halt (.ok v s) := by
  have inside : ¬ run.code.length ≤ pc := Nat.not_le.mpr (List.getElem?_eq_some_iff.mp fetched).1
  have read : onMem (readTable .insts run.code pc) (⟨pc + 1, [v], 0, s⟩ : Config σ) = .ok ret ⟨pc + 1, [v], 0, s⟩ := by
    apply onMem_ok
    unfold readTable
    rw [fetched]
    rfl
  have returned : execInst m run callee ret ⟨pc + 1, [v], 0, s⟩ = .ok (some v) ⟨pc + 1, [v], 0, s⟩ := by
    unfold execInst returnValue
    rw [if_pos op, untyped]
    rfl
  unfold runStep
  simp only [if_neg inside]
  rw [run_bind_ok read, returned]

end Loop

section Evaluation

variable {σ : Type} {m : Machine σ} {run : ExecRun σ} {hooks : CTFEHooks σ} {src : List UInt8} {program : MirProgram}
  {t : MirBuilderTables}

/-- The number of arguments that the token of a call has place for. -/
def maxCallArgs : Nat := 0x3FFF

/-- A node has the operands its action takes, and a call not too many. -/
def Combine.Fits (k : Combine) (operands : Nat) : Prop :=
  k.action.Takes operands ∧ ∀ receiver spread, k.action = .call receiver spread → operands ≤ maxCallArgs

/-- What a node is lowered to is no return. -/
theorem LoweredTo.goesOn {k : Combine} {n : Nat} {given : Option MirConst} {ins : MirInst}
    (lowered : LoweredTo src t (k.inst n) given ins) : ins.op ≠ .RETURN ∧ ins.op ≠ .RETURN_VOID := by
  cases lowered with
  | const | host => exact ⟨MirOp.noConfusion, MirOp.noConfusion⟩
  | ident | call | cast | field | same => exact k.inst_op n

/-- A return is lowered to a return. -/
theorem LoweredTo.isReturn {ret ins : MirInst} (lowered : LoweredTo src t ret none ins) (op : ret.op = .RETURN) :
    ins.op = .RETURN := by
  cases lowered with
  | ident | call | cast | field | same => exact op
  | host isCall => rw [op] at isCall; cases isCall

/-- The code of a tree, lowered, puts the value of the tree on the stack, or ends the run as its evaluation does. -/
theorem lowered_comes (callee : Callee σ) {code rest : List (MirInst × Option MirConst)} {treeDepth : Nat}
    {tree : PostfixCode.Tree Combine (Option MirConst)} (onProgram : RunsOver run program t)
    (coded : tree.code Combine.inst treeDepth = some code) (lowered : LoweredCode src t (code ++ rest) run.code)
    (isEnv : ∀ ins ∈ run.code, EnvOf hooks src run ins) (deep : code.length ≤ run.stackCap)
    (fits : PostfixCode.Holds PostfixCode.Tree.shape (Combine.applyRead m (hooks.env src) run.depth) .outOfFuel
      (fun k vs _ => k.1.Fits vs.length) treeDepth tree s) :
    PostfixCode.Comes (runStep m run callee) (fun pc st s => ⟨pc, st, 0, s⟩) (fun stop s => .error stop s) 0
      code.length [] s List.cons (evalRead m (hooks.env src) run.depth treeDepth tree s) := by
  refine PostfixCode.eval_comes (code ++ rest) run.stackCap ?_ treeDepth tree code 0 [] s fits coded
    ⟨[], rest, rfl, rfl⟩ ?_
  · intro n k ns vs pc st s shape count good fetched room
    have below : pc < run.code.length := by
      rw [← lowered.length_eq]
      exact (List.getElem?_eq_some_iff.mp fetched).1
    have atPlace : run.code[pc]? = some run.code[pc] := List.getElem?_eq_getElem below
    obtain ⟨inside, emitted⟩ := List.getElem?_eq_some_iff.mp fetched
    have one : LoweredTo src t (k.1.inst vs.length) k.2 run.code[pc] := by
      have both := lowered.get inside below
      rw [List.get_eq_getElem, List.get_eq_getElem, emitted, PostfixCode.emitGiven, ← count] at both
      exact both
    exact runStep_follows atPlace one.goesOn (lowered_follows callee onProgram room
      (isEnv _ (List.mem_of_getElem? atPlace)) one good.1 fun r p call => Nat.lt_succ_of_le (good.2 r p call))
  · rw [List.length_nil, Nat.zero_add]
    exact deep

/-- The loop over the function of an expression ends as the evaluation of the tree does. -/
theorem runLoop_expr (callee : Callee σ) {code : List (MirInst × Option MirConst)} {ret : MirInst} {treeDepth fuel : Nat}
    {tree : PostfixCode.Tree Combine (Option MirConst)} (onProgram : RunsOver run program t)
    (coded : tree.code Combine.inst treeDepth = some code)
    (lowered : LoweredCode src t (code ++ [(ret, none)]) run.code) (op : ret.op = .RETURN)
    (isEnv : ∀ ins ∈ run.code, EnvOf hooks src run ins) (deep : code.length ≤ run.stackCap)
    (untyped : (run.function.map MirFunction.typeRef).getD noTypeRef = noTypeRef)
    (fits : PostfixCode.Holds PostfixCode.Tree.shape (Combine.applyRead m (hooks.env src) run.depth) .outOfFuel
      (fun k vs _ => k.1.Fits vs.length) treeDepth tree s) (enough : code.length < fuel) :
    runLoop m run callee fuel s = evalRead m (hooks.env src) run.depth treeDepth tree s := by
  have comes := lowered_comes callee onProgram coded lowered isEnv deep fits
  unfold runLoop
  cases value : evalRead m (hooks.env src) run.depth treeDepth tree s with
  | ok v s' =>
    rw [value, PostfixCode.Comes, Nat.zero_add] at comes
    have length := lowered.length_eq
    rw [List.length_append, List.length_singleton] at length
    have inside : code.length < (code ++ [(ret, none)]).length := by
      rw [List.length_append, List.length_singleton]
      exact Nat.lt_succ_self _
    have below : code.length < run.code.length := length ▸ Nat.lt_succ_self _
    have last : LoweredTo src t ret none run.code[code.length] := by
      have both := lowered.get inside below
      rw [List.get_eq_getElem, List.get_eq_getElem, List.getElem_append_right (Nat.le_refl _)] at both
      simp only [Nat.sub_self, List.getElem_singleton] at both
      exact both
    have returns := runStep_returns m callee (s := s') (v := v)
      (List.getElem?_eq_getElem below) (last.isReturn op) untyped
    rw [show startConfig s = ⟨0, [], 0, s⟩ from rfl, comes.runFor_eq returns enough]
    rfl
  | error stop s' =>
    rw [value] at comes
    obtain ⟨k, b, within, reach, last⟩ := comes
    rw [show startConfig s = ⟨0, [], 0, s⟩ from rfl, reach.runFor_eq last (Nat.lt_trans within enough)]
    rfl

end Evaluation

section Frame

variable {σ : Type} {m : Machine σ} {program : MirProgram} {fn : MirFunction} {env : ExecEnv σ}

/-- The activation of a function that has neither parameters nor locals. -/
def bareRun (program : MirProgram) (fn : MirFunction) (env : ExecEnv σ) (depth : Nat) : ExecRun σ :=
  ⟨fn.code program, some program, some fn, env, (fn.code program).length + 1, 0, 0, valuesIn 0, depth⟩

theorem initRun_bare (short : (fn.code program).length + 1 < UInt32.size) (depth : Nat) :
    initRun m (fn.code program) (some program) (some fn) 0 [] env depth =
      (do let _ ← allocValues m ((fn.code program).length + 1); return bareRun program fn env depth) := by
  have cap : (UInt32.ofNat (fn.code program).length + UInt32.ofNat 0 + 1).toNat = (fn.code program).length + 1 := by
    have size : UInt32.size = 2 ^ 32 := rfl
    rw [UInt32.toNat_add, UInt32.toNat_add, UInt32.toNat_ofNat']
    change (((fn.code program).length % 2 ^ 32 + 0) % 2 ^ 32 + 1) % 2 ^ 32 = _
    omega
  unfold initRun
  simp only [List.length_nil, cap, allocLocals, if_true, pure_bind, clearLocals, bindAll, Nat.le_refl, bindArgs]
  rfl

theorem finallyDo_id {α : Type} (body : Exec σ α) : finallyDo body id = body := by
  funext s
  unfold finallyDo
  cases body s <;> rfl

/-- A call from outside of a function that has neither parameters nor locals. -/
theorem callFunction_bare (callee : ExecEnv σ → Callee σ) (short : (fn.code program).length + 1 < UInt32.size)
    (noFlags : fn.flags = 0) (noParams : fn.paramCount = 0) (noLocals : fn.localCount = 0)
    (source : program.sources[fn.sourceRef.toNat]? = some env.src) (enter : env.enterFunction = none)
    (bind : env.bindFrame = none) (functionIndex : UInt32) (fuel : Nat) :
    callFunction m program callee env fn functionIndex [] 0 true fuel = (do
      modify (m.setDiag ⟨.NONE, 0, 0⟩)
      let _ ← allocValues m ((fn.code program).length + 1)
      runLoop m (bareRun program fn env fuel) (callee env) fuel) := by
  have hidden : hiddenArgument m fn functionIndex [] = (pure [] : Exec σ (List CTFEValue)) := by
    rw [hiddenArgument, if_neg]
    exact fun both => by
      have := both.1
      rw [MirFunction.isFunctionValueEntry, noFlags] at this
      cases this
  have packed : packArguments program env fn 0 [] = (pure ([], none) : Exec σ (List CTFEValue × Option CTFEValue)) := by
    rw [packArguments, MirFunction.isVariadic, noFlags, noParams]
    rfl
  have src : functionSource program env fn = (pure env.src : Exec σ (List UInt8)) := by
    rw [functionSource, if_pos (List.getElem?_eq_some_iff.mp source).1, readTable, source]
  have frame : runFrame m program callee env fn [] none true fuel = (do
      modify (m.setDiag ⟨.NONE, 0, 0⟩)
      let _ ← allocValues m ((fn.code program).length + 1)
      runLoop m (bareRun program fn env fuel) (callee env) fuel) := by
    unfold runFrame
    simp only [bind, noLocals, UInt32.toNat_zero, initRun_bare short, storePack, askStatus, Option.map_none, pure_bind,
      Option.isSome_none, Bool.false_eq_true, if_false, finallyDo_id, bind_assoc, clearDiag, if_true]
  unfold callFunction
  simp only [hidden, packed, src, pure_bind]
  change (do
    askStatus (env.enterFunction.map fun (call : UInt32 → UInt32 → σ → Int × σ) => call functionIndex fn.sourceRef)
    finallyDo (runFrame m program callee env fn [] none true fuel)
      (if env.enterFunction.isSome then env.leaveFunction.getD id else id)) = _
  simp only [enter, askStatus, Option.map_none, Option.isSome_none, Bool.false_eq_true, if_false, finallyDo_id,
    pure_bind]
  exact frame

/-- An evaluation of a valid program whose first function has neither parameters nor locals. -/
theorem evalFunction_bare (valid : validateProgram program = none) (first : program.funcs[0]? = some fn)
    (range : fn.instStart.toNat + fn.instLen.toNat ≤ program.insts.length)
    (short : (fn.code program).length + 1 < UInt32.size)
    (noFlags : fn.flags = 0) (noParams : fn.paramCount = 0) (noLocals : fn.localCount = 0)
    (source : program.sources[fn.sourceRef.toNat]? = some env.src) (enter : env.enterFunction = none)
    (bind : env.bindFrame = none) (fuel : Nat) :
    evalFunction m program env 0 [] (fuel + 1) = (do
      modify (m.setDiag ⟨.NONE, 0, 0⟩)
      let _ ← allocValues m ((fn.code program).length + 1)
      runLoop m (bareRun program fn env fuel) (evalFunctionInternal m program fuel false env) fuel) := by
  have inside : ¬program.funcs.length ≤ (0 : UInt32).toNat := Nat.not_le.mpr (List.getElem?_eq_some_iff.mp first).1
  have read : (readTable .funcs program.funcs (0 : UInt32).toNat : Exec σ MirFunction) = pure fn := by
    rw [readTable, show (0 : UInt32).toNat = 0 from rfl, first]
  have ranged : ¬(program.insts.length < fn.instStart.toNat ∨
      program.insts.length - fn.instStart.toNat < fn.instLen.toNat) := by omega
  have params : ¬fn.localCount < fn.paramCount := by
    rw [noLocals, noParams]
    exact UInt32.lt_irrefl _
  unfold evalFunction evalFunctionInternal
  simp only [if_neg inside, if_true, valid, read, pure_bind, if_neg ranged, if_neg params]
  exact callFunction_bare (evalFunctionInternal m program fuel false) short noFlags noParams noLocals source enter bind
    0 fuel

end Frame

section Tree

variable {σ : Type} (m : Machine σ) (hooks : CTFEHooks σ) {ast : Ast} {src : MirSourceRef} {arenaHasRoom : Bool}
  {treeDepth : Nat} {nodeId : Int} {chunk : List MirInst}

/-- No call has more arguments than its token has place for. -/
def CallsFit (ast : Ast) (src : List UInt8) : Prop :=
  ∀ nodeId k operands, exprShape ast src nodeId = some (k, operands) →
    ∀ receiver spread, k.action = .call receiver spread → operands.length ≤ maxCallArgs

/-- An empty program takes any expression that was built. -/
theorem init_takes {size : Nat} (short : size + 1 < UInt32.size) : MirBodies.init.Takes size := by
  have room : MirBuilderTables.empty.Room (size + 1) := by
    constructor <;> exact (Nat.zero_add _).symm ▸ short
  exact ⟨room, by decide, by decide, (Nat.zero_add _).symm ▸ Nat.lt_of_succ_lt short⟩

section Lowers

variable {γ δ : Type} {full : Prop} {good : γ → δ → Prop} {r : EStateM.Result Stop σ δ} {s : σ}

theorem LowersAs.of_error {e : Stop} (lowers : LowersAs full good (.error e s) r) (room : ¬full) : r = .error e s := by
  cases lowers with
  | error => rfl
  | full isFull => exact absurd isFull room

theorem LowersAs.of_given {given : γ} (lowers : LowersAs full good (.ok given s) r) (room : ¬full) :
    ∃ a, r = .ok a s ∧ good given a := by
  cases lowers with
  | ok holds => exact ⟨_, rfl, holds⟩
  | full isFull => exact absurd isFull room

end Lowers

variable {m hooks}

/-- The resolution of names is only taken away from a program that has none. -/
theorem chosenEnv {program : MirProgram} {all chosen : ExecEnv σ}
    (choice : (if program.needsDynamicResolution then all else all.disableDynamicResolution) = chosen) :
    chosen = all ∨ chosen = all.disableDynamicResolution ∧
      ∀ ins ∈ program.insts, ins.op ≠ .LOAD_IDENT ∧ ins.op ≠ .CALL := by
  cases needs : program.needsDynamicResolution with
  | true =>
    rw [needs] at choice
    exact .inl choice.symm
  | false =>
    rw [needs] at choice
    refine .inr ⟨choice.symm, fun ins member => ?_⟩
    have neither := List.any_eq_false.mp needs ins member
    exact not_or.mp (fun either => neither (decide_eq_true either))

/-- The program of an expression runs as the evaluation of the tree. -/
theorem HasExpr.evaluates {b : MirProgramBuilder} {code : List (MirInst × Option MirConst)} {ret : MirInst}
    {sourceRef : UInt32} {t : MirBuilderTables} {out : List MirInst} {tree : PostfixCode.Tree Combine (Option MirConst)}
    (expr : b.HasExpr .init src (code ++ [(ret, none)]) sourceRef noTypeRef t out) (op : ret.op = .RETURN)
    (isExpr : ∀ p ∈ code ++ [(ret, none)], p.1.op.isExpr = true)
    (coded : tree.code Combine.inst treeDepth = some code) {size fuel : Nat} (length : out.length = size)
    (short : size + 1 < UInt32.size) (enough : size ≤ fuel)
    (fits : ∀ s, PostfixCode.Holds PostfixCode.Tree.shape (Combine.applyRead m (hooks.env src.src) fuel) .outOfFuel
      (fun k vs _ => k.1.Fits vs.length) treeDepth tree s) :
    evalFunction m b.finish (if b.finish.needsDynamicResolution then hooks.env src.src
        else (hooks.env src.src).disableDynamicResolution) 0 [] (fuel + 1) = (do
      modify (m.setDiag ⟨.NONE, 0, 0⟩)
      let _ ← allocValues m (size + 1)
      evalRead m (hooks.env src.src) fuel treeDepth tree) := by
  obtain ⟨_, insts, _, isLast⟩ := expr.includes .init rfl
  obtain ⟨isCode, _, range⟩ := expr.found .init rfl isLast
  have tables : b.tables = t := expr.holds.tables
  generalize chosen : (if b.finish.needsDynamicResolution then hooks.env src.src
    else (hooks.env src.src).disableDynamicResolution) = env
  generalize placed : (⟨exprFunction sourceRef noTypeRef, [], out⟩ : MirBody).placed _ _ = fn at isLast isCode range
  have isEnv := chosenEnv chosen
  have source : b.finish.sources[fn.sourceRef.toNat]? = some env.src := by
    obtain ⟨s, entry, isSource⟩ := expr.source
    obtain rfl : s = src := isSource.resolve_right (fun member => by cases member)
    rw [show b.finish.sources = b.tables.sources.val.map MirSourceRef.src from rfl, tables, ← placed]
    change (List.map _ _)[sourceRef.toNat]? = _
    rw [List.getElem?_map, entry]
    rcases isEnv with rfl | ⟨rfl, _⟩ <;> rfl
  have enter : env.enterFunction = none ∧ env.bindFrame = none := by
    rcases isEnv with rfl | ⟨rfl, _⟩ <;> exact ⟨rfl, rfl⟩
  have bare : evalFunction m b.finish env 0 [] (fuel + 1) = _ :=
    evalFunction_bare (expr.valid .init rfl isExpr rfl) (by rw [isLast]; rfl) range
      (by rw [isCode, length]; exact short) (by rw [← placed]; rfl) (by rw [← placed]; rfl) (by rw [← placed]; rfl) source
      enter.1 enter.2 fuel
  have onProgram : RunsOver (bareRun b.finish fn env fuel) b.finish t := by
    rw [← tables]
    exact ⟨rfl, rfl, rfl, rfl⟩
  have longer : code.length + 1 = out.length := by
    rw [← expr.lowered.length_eq, List.length_append, List.length_singleton]
  have loops : ∀ s, runLoop m (bareRun b.finish fn env fuel) (evalFunctionInternal m b.finish fuel false env) fuel s =
      evalRead m (hooks.env src.src) fuel treeDepth tree s := by
    intro s
    refine runLoop_expr _ onProgram coded ?_ op (fun ins member => ?_) ?_ ?_ (fits s) (by omega)
    · change LoweredCode src.src t _ (fn.code b.finish)
      rw [isCode]
      exact expr.lowered
    · refine isEnv.imp_right fun both => ⟨both.1, both.2 ins ?_⟩
      exact List.mem_of_mem_drop (List.mem_of_mem_take member)
    · change code.length ≤ (fn.code b.finish).length + 1
      rw [isCode]
      omega
    · rw [← placed]
      rfl
  rw [bare, funext loops, isCode, length]

variable (m hooks src) in
/-- The evaluation of a constant expression: the literals are read from left to right, the memory for the operands is
taken, and the tree is evaluated. -/
theorem evalExprEx_asTree (built : buildExpr ast src.src arenaHasRoom treeDepth nodeId = .ok (some chunk))
    (calls : CallsFit ast src.src) {fuel : Nat} (enough : chunk.length ≤ fuel) :
    evalExprEx m hooks ast src arenaHasRoom treeDepth nodeId (fuel + 1) = (do
      modify (m.setDiag ⟨.NONE, 0, 0⟩)
      let tree ← readExpr m ast src treeDepth nodeId
      modify (m.setDiag ⟨.NONE, 0, 0⟩)
      let _ ← allocValues m (chunk.length + 1)
      evalRead m (hooks.env src.src) fuel treeDepth tree) := by
  obtain ⟨c, coded, short, whole⟩ := buildExpr_some ast src.src built
  obtain ⟨ret, op, rfl⟩ : ∃ ret : MirInst, ret.op = .RETURN ∧ chunk = c ++ [ret] := ⟨_, rfl, whole⟩
  funext s
  rw [evalExprEx]
  change (lowerExprAsFunction m ast src arenaHasRoom treeDepth nodeId >>= _) (m.setDiag ⟨.NONE, 0, 0⟩ s) =
    (readExpr m ast src treeDepth nodeId >>= _) (m.setDiag ⟨.NONE, 0, 0⟩ s)
  generalize m.setDiag ⟨.NONE, 0, 0⟩ s = s₁
  have room : ¬¬MirBodies.init.Takes (c ++ [ret]).length := not_not_intro (init_takes short)
  have spec := lowerAppendExprAsFunction_spec m ast (-1) built .init rfl s₁
  have gives := PostfixCode.writeOut_gives (literalConst m src.src) Stop.outOfFuel treeDepth nodeId c s₁ coded
  change PostfixCode.Gives _ _ _ _ (readExpr m ast src treeDepth nodeId s₁) at gives
  cases read : readExpr m ast src treeDepth nodeId s₁ with
  | error e s₂ =>
    rw [read] at gives
    rw [PostfixCode.evalAll_append_error gives] at spec
    have stops := spec.of_error room
    have lowers : lowerExprAsFunction m ast src arenaHasRoom treeDepth nodeId s₁ = .error e s₂ := run_bind_error stops
    rw [run_bind_error lowers, run_bind_error read]
  | ok tree s₂ =>
    rw [read] at gives
    obtain ⟨given, gave, codedTree⟩ := gives
    have last : literalConst m src.src ret s₂ = .ok none s₂ := by
      rw [literalConst, op]
      rfl
    rw [PostfixCode.evalAll_append_ok gave (PostfixCode.evalAll_singleton last)] at spec
    obtain ⟨_, lowered, b, sourceRef, typeRef, t, out, rfl, untyped, expr⟩ := spec.of_given room
    obtain rfl := untyped (by decide)
    have lowers : lowerExprAsFunction m ast src arenaHasRoom treeDepth nodeId s₁ = .ok (some b.finish) s₂ :=
      run_bind_ok lowered
    have isExpr : ∀ p ∈ (c ++ [ret]).zip (given ++ [none]), p.1.op.isExpr = true := fun p member =>
      buildExpr_isExpr built p.1 (List.of_mem_zip member).1
    have length : out.length = (c ++ [ret]).length := by
      rw [← expr.lowered.length_eq, List.length_zip, List.length_append, List.length_append,
        PostfixCode.evalAll_length gave, List.length_singleton, List.length_singleton, Nat.min_self]
    rw [List.zip_append (PostfixCode.evalAll_length gave).symm] at expr isExpr
    have fits : ∀ n k ns, exprShape ast src.src n = some (k, ns) → k.Fits ns.length := fun n k ns shape =>
      ⟨exprShape_takes ast src.src shape, calls n k ns shape⟩
    rw [run_bind_ok lowers, run_bind_ok read]
    exact congrFun (HasExpr.evaluates expr op isExpr codedTree length short enough
      fun s => PostfixCode.writeOut_holds fits read s) s₂

end Tree

/-- A caller for whom every name is the constant 7. -/
def sevenHooks : CTFEHooks Unit where
  resolveIdent := some fun _ _ s => (⟨0, .int 7, true⟩, s)
  resolveCall := none
  makeTuple := none
  indexValue := none
  aggGetField := none
  aggAddrField := none

theorem negatedName_callsFit : CallsFit negatedName (bytesOf "-x") := by
  intro nodeId k operands shape receiver spread call
  by_cases inTable : negatedName.inTable nodeId
  · obtain ⟨low, high⟩ : 0 ≤ nodeId ∧ nodeId.toNat < 2 := inTable
    obtain rfl | rfl : nodeId = 0 ∨ nodeId = 1 := by omega
    · obtain rfl := congrArg Prod.fst (Option.some.inj shape)
      cases call
    · obtain rfl := congrArg Prod.fst (Option.some.inj shape)
      cases call
  · rw [exprShape, if_pos inTable] at shape
    cases shape

theorem evalExprEx_negatedName :
    evalExprEx Machine.giving sevenHooks negatedName ⟨1, bytesOf "-x"⟩ true 2 0 4 () = .ok (.int (-7)) () :=
  (congrFun (evalExprEx_asTree Machine.giving sevenHooks ⟨1, bytesOf "-x"⟩ negatedName_built negatedName_callsFit
    (by decide)) ()).trans rfl

end HopHop
