import HopHop.MirExprBuild
import HopHop.MirExprStep

namespace HopHop

/-! The chunk of an expression runs as the direct evaluation of the expression. -/

section Plain

variable {σ : Type} (m : Machine σ) (env : ExecEnv σ)

theorem Combine.apply_plain (depth : Nat) (k : Combine) (vs : List CTFEValue) : Plain (k.apply m env depth vs) := by
  unfold Combine.apply
  simp only
  split <;> grind [literalValue, runeValue, callValue, tupleValue, sliceValue, unaryValue, castValue]

theorem evalAll_plain {eval : Int → Exec σ CTFEValue} (each : ∀ n, Plain (eval n)) (ns : List Int) :
    Plain (PostfixCode.evalAll eval ns) := by
  induction ns with
  | nil => exact .pure _
  | cons n ns ih => exact .seq (each n) fun _ => .seq ih fun _ => .pure _

/-- The direct evaluation only refuses, fails or runs out of fuel. -/
theorem evalExprNode_plain (ast : Ast) (src : List UInt8) (depth treeDepth : Nat) (nodeId : Int) :
    Plain (evalExprNode m env ast src depth treeDepth nodeId) := by
  unfold evalExprNode
  induction treeDepth generalizing nodeId with
  | zero => exact .throw plain_outOfFuel
  | succ treeDepth ih =>
    unfold PostfixCode.eval
    split
    · exact .throw plain_outOfFuel
    · exact .seq (evalAll_plain ih _) fun vs => Combine.apply_plain m env depth _ vs

end Plain

section

variable {σ : Type} (m : Machine σ) (env : ExecEnv σ)

/-- A chunk calls no function of a program. -/
def noCallee : Callee σ := fun _ _ _ => Exec.notConst

/-- The activation that a chunk is run in. -/
def chunkRun (chunk : List MirInst) (depth : Nat) : ExecRun σ :=
  ⟨chunk, none, none, env, chunk.length + 1, 0, 0, 0, depth⟩

variable {m env}

theorem initRun_chunk {chunk : List MirInst} (short : chunk.length + 1 < UInt32.size) {depth : Nat} {s s' : σ}
    {run : ExecRun σ} (starts : initRun m chunk none none 0 [] env depth s = .ok run s') :
    run = chunkRun env chunk depth := by
  have cap : (UInt32.ofNat chunk.length + UInt32.ofNat 0 + 1).toNat = chunk.length + 1 := by
    have size : UInt32.size = 2 ^ 32 := rfl
    rw [UInt32.toNat_add, UInt32.toNat_add, UInt32.toNat_ofNat']
    change ((chunk.length % 2 ^ 32 + 0) % 2 ^ 32 + 1) % 2 ^ 32 = _
    omega
  obtain ⟨_, mid, _, starts⟩ := bind_ok starts
  cases starts
  unfold chunkRun
  rw [← cap]
  rfl

theorem initRun_plain (chunk : List MirInst) (depth : Nat) :
    Plain (initRun m chunk none none 0 [] env depth) := by
  refine .seq (allocOr_plain m _ _ _) fun _ => ?_
  exact .pure _

/-- No node is lowered to a return. -/
theorem Combine.inst_op (k : Combine) (n : Nat) : (k.inst n).op ≠ .RETURN ∧ (k.inst n).op ≠ .RETURN_VOID := by
  obtain ⟨action, node, start, stop⟩ := k
  cases action <;> exact ⟨nofun, nofun⟩

/-- A round of the loop at the instruction of a node. -/
theorem runStep_combines {run : ExecRun σ} {pc : Nat} {st vs : List CTFEValue} {s : σ} {k : Combine}
    (fetched : run.code[pc]? = some (k.inst vs.length)) {r : EStateM.Result Stop σ CTFEValue}
    (follows : Follows (pc + 1) st r
      (execOp m run noCallee (k.inst vs.length) ⟨pc + 1, vs.reverse ++ st, 0, s⟩)) :
    PostfixCode.Combines (runStep m run noCallee) (fun pc st s => ⟨pc, st, 0, s⟩) (fun stop s => .error stop s) pc vs
      st s r := by
  have inside : ¬ run.code.length ≤ pc := Nat.not_le.mpr (List.getElem?_eq_some_iff.mp fetched).1
  have read : onMem (readTable .insts run.code pc) (⟨pc + 1, vs.reverse ++ st, 0, s⟩ : Config σ) =
      .ok (k.inst vs.length) ⟨pc + 1, vs.reverse ++ st, 0, s⟩ := by
    apply onMem_ok
    unfold readTable
    rw [fetched]
    rfl
  have exec : execInst m run noCallee (k.inst vs.length) = (do execOp m run noCallee (k.inst vs.length); pure none) := by
    unfold execInst
    rw [if_neg (k.inst_op _).1, if_neg (k.inst_op _).2]
  cases r with
  | ok v s' =>
    unfold PostfixCode.Combines runStep
    simp only [if_neg inside]
    rw [run_bind_ok read, exec, run_bind_ok follows]
    rfl
  | error stop s' =>
    obtain ⟨rest, follows⟩ := follows
    unfold PostfixCode.Combines runStep
    simp only [if_neg inside]
    rw [run_bind_ok read, exec, run_bind_error follows]

variable {ast : Ast} {src : List UInt8}

/-- Where an evaluation meets its conditions, the code of an expression at the start of a chunk puts the value on the
empty stack or ends the run as the evaluation does. -/
theorem chunk_comes {treeDepth depth : Nat} {nodeId : Int} {c : List MirInst} (rest : List MirInst) {s : σ}
    (coded : exprCode ast src treeDepth nodeId = some c)
    (clear : PostfixCode.Holds (exprShape ast src) (Combine.apply m env depth) .outOfFuel (Combine.Clear m env) treeDepth
      nodeId s) :
    PostfixCode.Comes (runStep m (chunkRun env (c ++ rest) depth) noCallee) (fun pc st s => ⟨pc, st, 0, s⟩)
      (fun stop s => .error stop s) 0 c.length [] s List.cons (evalExprNode m env ast src depth treeDepth nodeId s) := by
  refine PostfixCode.eval_comes (c ++ rest) (chunkRun env (c ++ rest) depth).stackCap ?_ treeDepth nodeId c 0 [] s clear
    coded ⟨[], rest, rfl, rfl⟩ ?_
  · intro n k ns vs pc st s shape count holds fetched room
    rw [← count] at fetched
    have takes : k.action.Takes vs.length := count ▸ exprShape_takes ast src shape
    exact runStep_combines fetched (execOp_follows noCallee rfl rfl room k vs takes holds)
  · change 0 + c.length ≤ (c ++ rest).length + 1
    rw [List.length_append]
    omega

/-- A return of the only value on the stack ends the run of a chunk with it. -/
theorem runStep_return {c : List MirInst} {ret : MirInst} (op : ret.op = .RETURN) {depth : Nat} {v : CTFEValue} {s : σ} :
    runStep m (chunkRun env (c ++ [ret]) depth) noCallee ⟨c.length, [v], 0, s⟩ = .halt (.ok v s) := by
  have inside : ¬ (chunkRun env (c ++ [ret]) depth).code.length ≤ c.length := by
    change ¬ (c ++ [ret]).length ≤ c.length
    rw [List.length_append, List.length_singleton]
    omega
  have read : onMem (readTable .insts (chunkRun env (c ++ [ret]) depth).code c.length)
      (⟨c.length + 1, [v], 0, s⟩ : Config σ) = .ok ret ⟨c.length + 1, [v], 0, s⟩ := by
    apply onMem_ok
    unfold readTable chunkRun
    rw [List.getElem?_append_right (Nat.le_refl _), Nat.sub_self]
    rfl
  have returned : execInst m (chunkRun env (c ++ [ret]) depth) noCallee ret ⟨c.length + 1, [v], 0, s⟩ =
      .ok (some v) ⟨c.length + 1, [v], 0, s⟩ := by
    unfold execInst
    rw [if_pos op]
    rfl
  unfold runStep
  simp only [if_neg inside]
  rw [run_bind_ok read, returned]

/-- The run of a chunk ends as the direct evaluation does, after fewer steps than the chunk has instructions. -/
theorem chunk_ends {treeDepth depth : Nat} {nodeId : Int} {c : List MirInst} {ret : MirInst} {s : σ}
    (op : ret.op = .RETURN) (coded : exprCode ast src treeDepth nodeId = some c)
    (clear : PostfixCode.Holds (exprShape ast src) (Combine.apply m env depth) .outOfFuel (Combine.Clear m env) treeDepth
      nodeId s) :
    ∃ k b, k < (c ++ [ret]).length ∧
      Steps.ReachesIn (runStep m (chunkRun env (c ++ [ret]) depth) noCallee) k (startConfig s) b ∧
      runStep m (chunkRun env (c ++ [ret]) depth) noCallee b =
        .halt (evalExprNode m env ast src depth treeDepth nodeId s) := by
  have comes := chunk_comes [ret] coded clear
  rw [List.length_append, List.length_singleton]
  cases value : evalExprNode m env ast src depth treeDepth nodeId s with
  | ok v s' =>
    rw [value] at comes
    refine ⟨c.length, _, Nat.lt_succ_self _, comes, ?_⟩
    rw [Nat.zero_add]
    exact runStep_return op
  | error stop s' =>
    rw [value] at comes
    obtain ⟨k, b, within, reach, last⟩ := comes
    exact ⟨k, b, Nat.lt_succ_of_lt within, reach, last⟩

end

section

variable {σ : Type} (m : Machine σ) (env : ExecEnv σ) (ast : Ast) (src : List UInt8) (chunk : List MirInst)
  (treeDepth : Nat) (nodeId : Int) (fuel : Nat) (mem : σ)

/-- The memory and the activation in which the instructions of a chunk start to run. -/
def startChunk : Exec σ (ExecRun σ) := do
  modify (m.setDiag ⟨.NONE, 0, 0⟩)
  initRun m chunk none none 0 [] env fuel

/-- What the chunk of an expression is for. -/
structure RunsAsTree : Prop where
  /-- No operand is missing and the stack has room for every value. -/
  noFault : ∀ stop after, evalChunk m env chunk fuel mem = .error stop after → stop ≠ .popEmpty ∧ stop ≠ .stackFull
  /-- Where no step refuses, the run gets to the return at the end, with the value of the tree alone on the stack. -/
  atReturn : ∀ run start, startChunk m env chunk fuel mem = .ok run start → ∀ v after,
    evalExprNode m env ast src fuel treeDepth nodeId start = .ok v after →
      Steps.Reaches (runStep m run noCallee) (startConfig start) ⟨chunk.length - 1, [v], 0, after⟩ ∧
        ∃ ret, chunk[chunk.length - 1]? = some ret ∧ ret.op = .RETURN
  /-- The result is that of the direct evaluation, and so is the memory, as soon as there is fuel for each
  instruction. -/
  sameResult : chunk.length < fuel → evalChunk m env chunk fuel mem =
    (do let _ ← startChunk m env chunk fuel; evalExprNode m env ast src fuel treeDepth nodeId) mem

/-- Every step of the direct evaluation meets its conditions. -/
def StepsClear : Prop :=
  ∀ run start, startChunk m env chunk fuel mem = .ok run start →
    PostfixCode.Holds (exprShape ast src) (Combine.apply m env fuel) .outOfFuel (Combine.Clear m env) treeDepth nodeId
      start

variable {m env ast src chunk treeDepth nodeId fuel mem}

theorem startChunk_plain : Plain (startChunk m env chunk fuel) :=
  .seq (.modify _) fun _ => initRun_plain chunk fuel

theorem evalChunk_ok {run : ExecRun σ} {start : σ} (starts : startChunk m env chunk fuel mem = .ok run start) :
    evalChunk m env chunk fuel mem = runLoop m run noCallee fuel start :=
  run_bind_ok (x := initRun m chunk none none 0 [] env fuel) starts

theorem evalChunk_error {stop : Stop} {after : σ} (stops : startChunk m env chunk fuel mem = .error stop after) :
    evalChunk m env chunk fuel mem = .error stop after :=
  run_bind_error (x := initRun m chunk none none 0 [] env fuel) stops

theorem evalChunk_runsAsTree {arenaHasRoom : Bool}
    (built : buildExpr ast src arenaHasRoom treeDepth nodeId = .ok (some chunk))
    (clear : StepsClear m env ast src chunk treeDepth nodeId fuel mem) :
    RunsAsTree m env ast src chunk treeDepth nodeId fuel mem := by
  obtain ⟨c, coded, short, whole⟩ := buildExpr_some ast src built
  cases starts : startChunk m env chunk fuel mem with
  | error stop after =>
    have stops := evalChunk_error starts
    refine ⟨fun stop' after' fails => ?_, fun run start goes => ?_, fun _ => ?_⟩
    · rw [stops] at fails
      cases fails
      rcases startChunk_plain _ _ _ starts with rfl | rfl | rfl <;> exact ⟨nofun, nofun⟩
    · rw [starts] at goes
      cases goes
    · rw [stops, run_bind_error starts]
  | ok run start =>
    obtain ⟨ret, op, rfl⟩ : ∃ ret : MirInst, ret.op = .RETURN ∧ chunk = c ++ [ret] := ⟨_, rfl, whole⟩
    obtain rfl : run = chunkRun env (c ++ [ret]) fuel := initRun_chunk short starts
    have holds := clear _ start starts
    obtain ⟨k, b, within, reach, last⟩ := chunk_ends op coded holds
    have loop := evalChunk_ok starts
    unfold runLoop at loop
    refine ⟨fun stop after fails => ?_, fun run' start' goes v after value => ?_, fun enough => ?_⟩
    · rw [loop] at fails
      cases ran : Steps.runFor (runStep m (chunkRun env (c ++ [ret]) fuel) noCallee) fuel (startConfig start) with
      | none =>
        rw [ran] at fails
        cases fails
        exact ⟨nofun, nofun⟩
      | some result =>
        rw [ran] at fails
        have same := (Steps.runFor_sound ran).unique ⟨b, reach.reaches, last⟩
        rw [Option.getD_some, same] at fails
        rcases evalExprNode_plain m env ast src fuel treeDepth nodeId _ _ _ fails with rfl | rfl | rfl <;>
          exact ⟨nofun, nofun⟩
    · rw [starts] at goes
      cases goes
      have comes := chunk_comes [ret] coded holds
      rw [value, PostfixCode.Comes, Nat.zero_add] at comes
      rw [List.length_append, List.length_singleton, Nat.add_sub_cancel]
      refine ⟨comes.reaches, ret, ?_, op⟩
      rw [List.getElem?_append_right (Nat.le_refl _), Nat.sub_self]
      rfl
    · rw [loop, reach.runFor_eq last (Nat.lt_trans within enough), run_bind_ok starts]
      rfl

end

/-- The tree of the expression `-x`. -/
def negatedName : Ast where
  nodes := [⟨0, 2, 1, -1, 0, 0, .SUB, .UNARY, 0⟩, ⟨1, 2, -1, -1, 1, 2, .INVALID, .IDENT, 0⟩]
  root := 0

def negatedNameChunk : List MirInst :=
  [⟨.LOAD_IDENT, TokenKind.IDENT.code, 1, 1, 2⟩, ⟨.UNARY, TokenKind.SUB.code, 0, 0, 2⟩,
    ⟨.RETURN, TokenKind.EOF.code, 0, 0, 2⟩]

/-- An environment in which every name is the constant 7. -/
def sevenEnv : ExecEnv Unit :=
  { ExecEnv.empty Unit (bytesOf "-x") with resolveIdent := some fun _ _ s => (⟨0, .int 7, true⟩, s) }

theorem negatedName_built :
    buildExpr negatedName (bytesOf "-x") true 2 0 = .ok (some negatedNameChunk) := by
  decide

theorem negatedName_runsAsTree :
    RunsAsTree Machine.giving sevenEnv negatedName (bytesOf "-x") negatedNameChunk 2 0 9 () :=
  evalChunk_runsAsTree negatedName_built fun _ _ _ =>
    ⟨⟨⟨trivial, fun _ _ _ => rfl⟩, fun _ _ _ => trivial⟩, fun _ _ _ => trivial⟩

/-- An environment in which only the name that stands at the second byte of the source is a constant. -/
def secondByteEnv : ExecEnv Unit :=
  { ExecEnv.empty Unit (bytesOf "-x") with resolveIdent := some fun start stop s =>
      (⟨0, .int 7, start = 1 ∧ stop = 2⟩, s) }

/-- The run asks for the empty name, which is no constant, where the tree has a name that is one. -/
theorem not_runsAsTree_name :
    buildExpr negatedName (bytesOf "-x") true 2 0 = .ok (some negatedNameChunk) ∧
      ¬RunsAsTree Machine.giving secondByteEnv negatedName (bytesOf "-x") negatedNameChunk 2 0 9 () := by
  refine ⟨negatedName_built, fun runs => ?_⟩
  have chunk : evalChunk Machine.giving secondByteEnv negatedNameChunk 9 () = .error .notConst () := rfl
  have same := runs.sameResult (by decide)
  rw [chunk] at same
  exact nomatch same

end HopHop
