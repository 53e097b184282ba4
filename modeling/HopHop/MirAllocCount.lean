import HopHop.MirAllocPasses

namespace HopHop

/-! The code that goes in before the allocation of a slice computes the count that the source has there. -/

open CodeSplice

/-- What a count says. -/
inductive CountExpr
  | int (value : Int64)
  | load (slot : UInt32)
  | unary (op : TokenKind) (operand : CountExpr)
  | binary (op : TokenKind) (left right : CountExpr)
  deriving DecidableEq, Repr

/-- The count that stands at a node, down to a depth. -/
def readCountExpr (file : MirFile) (locals : List MirLocal) : Nat → Int → Option CountExpr
  | 0, _ => none
  | depth + 1, exprNode =>
    let n := file.ast.node exprNode
    if ¬ file.ast.inTable exprNode then none
    else
      match n.kind with
      | .INT => (parseMirIntLiteral file.source n.dataStart n.dataEnd).map .int
      | .IDENT => (findMirFunctionLocalBySlice locals file.source n.dataStart n.dataEnd).map fun i =>
          .load (UInt32.ofNat i)
      | .UNARY => (readCountExpr file locals depth n.firstChild).map (.unary n.op)
      | .BINARY => do
        let left ← readCountExpr file locals depth n.firstChild
        let right ← readCountExpr file locals depth (astNextSibling file.ast n.firstChild)
        return .binary n.op left right
      | _ => none

/-- Going on in a state, or halting. -/
def effectOf {σ ρ : Type} : Except ρ σ → Effect σ ρ
  | .ok s => .next s
  | .error r => .halt r

/-- A meaning of the instructions with an operand stack, under which those of a count compute. -/
structure CountMachine {σ ρ : Type} (meaning : Meaning mirJumpForm σ ρ) (consts : List MirConst) (ν : Type) where
  push : ν → σ → σ
  int : Int64 → ν
  load : UInt32 → σ → ν
  unary : UInt16 → ν → Except ρ ν
  binary : UInt16 → ν → ν → Except ρ ν
  load_push : ∀ slot v s, load slot (push v s) = load slot s
  exec_int : ∀ ins c s, ins.op = .PUSH_CONST → consts[ins.aux.toNat]? = some c → c.kind = .INT →
    meaning.exec false ins s = .next (push (int c.bits.toInt64) s)
  exec_load : ∀ ins s, ins.op = .LOCAL_LOAD → meaning.exec false ins s = .next (push (load ins.aux s) s)
  exec_unary : ∀ ins v s, ins.op = .UNARY →
    meaning.exec false ins (push v s) = effectOf ((unary ins.tok v).map fun w => push w s)
  exec_binary : ∀ ins v w s, ins.op = .BINARY →
    meaning.exec false ins (push w (push v s)) = effectOf ((binary ins.tok v w).map fun u => push u s)

section

variable {σ ρ ν : Type} {meaning : Meaning mirJumpForm σ ρ} {consts : List MirConst}

/-- The value of a count in a state: its operands from left to right, and what an operator comes to. -/
def CountExpr.eval (machine : CountMachine meaning consts ν) : CountExpr → σ → Except ρ ν
  | .int value, _ => .ok (machine.int value)
  | .load slot, s => .ok (machine.load slot s)
  | .unary op operand, s => do
    let v ← operand.eval machine s
    machine.unary op.code v
  | .binary op left right, s => do
    let v ← left.eval machine s
    let w ← right.eval machine s
    machine.binary op.code v w

theorem CountExpr.eval_push (machine : CountMachine meaning consts ν) (e : CountExpr) (v : ν) (s : σ) :
    e.eval machine (machine.push v s) = e.eval machine s := by
  induction e with
  | int value => rfl
  | load slot => rw [CountExpr.eval, machine.load_push, CountExpr.eval]
  | unary op operand ih => rw [CountExpr.eval, ih, CountExpr.eval]
  | binary op left right ihLeft ihRight => rw [CountExpr.eval, ihLeft, ihRight, CountExpr.eval]

/-- Code that pushes the value of a count. -/
def Computes (machine : CountMachine meaning consts ν) (block : List MirInst) (e : CountExpr) : Prop :=
  ∀ s, runPiece meaning block s = (e.eval machine s).map fun v => machine.push v s

theorem runPiece_append (left right : List MirInst) (s : σ) :
    runPiece meaning (left ++ right) s = (runPiece meaning left s).bind (runPiece meaning right) := by
  induction left generalizing s with
  | nil => rfl
  | cons ins rest ih =>
    rw [List.cons_append, runPiece, runPiece]
    cases meaning.exec false ins s with
    | next s' => exact ih s'
    | jump target s' => exact ih s'
    | halt r => rfl

theorem runPiece_one {ins : MirInst} {s : σ} {r : Except ρ σ} (exec : meaning.exec false ins s = effectOf r) :
    runPiece meaning [ins] s = r := by
  rw [runPiece, exec]
  cases r <;> rfl

theorem Computes.int {machine : CountMachine meaning consts ν} {ins : MirInst} {value : Int64} {c : MirConst}
    (op : ins.op = .PUSH_CONST) (found : consts[ins.aux.toNat]? = some c) (kind : c.kind = .INT)
    (bits : c.bits.toInt64 = value) : Computes machine [ins] (.int value) := by
  intro s
  apply runPiece_one
  rw [machine.exec_int ins c s op found kind, bits]
  rfl

theorem Computes.load {machine : CountMachine meaning consts ν} {ins : MirInst} (op : ins.op = .LOCAL_LOAD) :
    Computes machine [ins] (.load ins.aux) := by
  intro s
  apply runPiece_one
  rw [machine.exec_load ins s op]
  rfl

theorem Computes.unary {machine : CountMachine meaning consts ν} {block : List MirInst} {e : CountExpr} {ins : MirInst}
    {op : TokenKind} (computes : Computes machine block e) (isUnary : ins.op = .UNARY) (tok : ins.tok = op.code) :
    Computes machine (block ++ [ins]) (.unary op e) := by
  intro s
  rw [runPiece_append, computes, CountExpr.eval]
  cases e.eval machine s with
  | error r => rfl
  | ok v =>
    rw [← tok]
    exact runPiece_one (machine.exec_unary ins v s isUnary)

theorem Computes.binary {machine : CountMachine meaning consts ν} {left right : List MirInst} {e e' : CountExpr}
    {ins : MirInst} {op : TokenKind} (first : Computes machine left e) (second : Computes machine right e')
    (isBinary : ins.op = .BINARY) (tok : ins.tok = op.code) :
    Computes machine (left ++ right ++ [ins]) (.binary op e e') := by
  intro s
  rw [runPiece_append, runPiece_append, first, CountExpr.eval]
  cases value : e.eval machine s with
  | error r => rfl
  | ok v =>
    have rest := second (machine.push v s)
    rw [CountExpr.eval_push] at rest
    change ((runPiece meaning right (machine.push v s)).bind (runPiece meaning [ins])) = _
    rw [rest]
    cases e'.eval machine s with
    | error r => rfl
    | ok w =>
      rw [← tok]
      exact runPiece_one (machine.exec_binary ins v w s isBinary)

variable {file : MirFile} {locals : List MirLocal}

/-- What is lowered is the count that stands at the node, and its code computes it under all tables that have the
entries. -/
theorem lowerMirAllocNewCountExpr_computes {depth : Nat} {exprNode : Int} {t : MirTables}
    {out : List MirInst × MirTables}
    (done : lowerMirAllocNewCountExpr file locals depth exprNode t = some out) :
    t.Extends out.2 ∧ ∃ e, readCountExpr file locals depth exprNode = some e ∧
      (out.2.consts.length ≤ UInt32.size → ∀ {σ ρ ν : Type} {meaning : Meaning mirJumpForm σ ρ}
        {consts : List MirConst} (machine : CountMachine meaning consts ν), out.2.consts <+: consts →
        Computes machine out.1 e) := by
  induction depth generalizing exprNode t out with
  | zero => cases done
  | succ depth ih =>
    rw [lowerMirAllocNewCountExpr] at done
    rw [readCountExpr]
    by_cases inTable : file.ast.inTable exprNode
    case neg =>
      simp only [inTable, not_false_eq_true, if_true] at done
      cases done
    case pos =>
      simp only [inTable, not_true_eq_false, if_false] at done ⊢
      cases kind : (file.ast.node exprNode).kind <;> simp only [kind] at done ⊢
      case INT =>
        obtain ⟨value, parsed, done⟩ := Option.of_bind done
        cases done
        refine ⟨ensureMirConst_extends t, .int value, by rw [parsed]; rfl, fun small _ _ _ _ _ machine grown => ?_⟩
        obtain ⟨c, found, good⟩ := ensureMirConst_passes (by simp) small
        obtain ⟨isInt, bits⟩ := of_decide_eq_true good
        exact .int rfl (getElem?_grown grown found) isInt bits
      case IDENT =>
        obtain ⟨i, found, done⟩ := Option.of_bind done
        cases done
        exact ⟨.refl t, .load (UInt32.ofNat i), by rw [found]; rfl, fun _ _ _ _ _ _ machine _ => .load rfl⟩
      case UNARY =>
        obtain ⟨inner, innerDone, done⟩ := Option.of_bind done
        cases done
        obtain ⟨grown, e, isExpr, computes⟩ := ih innerDone
        exact ⟨grown, .unary _ e, by rw [isExpr]; rfl,
          fun small _ _ _ _ _ machine inConsts => (computes small machine inConsts).unary rfl rfl⟩
      case BINARY =>
        split at done
        · cases done
        · obtain ⟨left, leftDone, done⟩ := Option.of_bind done
          obtain ⟨right, rightDone, done⟩ := Option.of_bind done
          cases done
          obtain ⟨grown, e, isLeft, computesLeft⟩ := ih leftDone
          obtain ⟨grown', e', isRight, computesRight⟩ := ih rightDone
          refine ⟨grown.trans grown', .binary _ e e', by rw [isLeft, isRight]; rfl,
            fun small _ _ _ _ _ machine inConsts => ?_⟩
          have shorter := Nat.le_trans grown'.consts.length_le small
          exact (computesLeft shorter machine (grown'.consts.trans inConsts)).binary
            (computesRight small machine inConsts) rfl rfl
      all_goals cases done

end

theorem countMirAllocNewCountExprInsts_pos {file : MirFile} {depth : Nat} {exprNode : Int} {n : Nat}
    (counted : countMirAllocNewCountExprInsts file depth exprNode = some n) : 0 < n := by
  cases depth with
  | zero => cases counted
  | succ depth =>
    rw [countMirAllocNewCountExprInsts] at counted
    split at counted
    · cases counted
    · split at counted
      · cases counted
        exact Nat.one_pos
      · cases counted
        exact Nat.one_pos
      · obtain ⟨inner, _, rfl⟩ := Option.map_eq_some_iff.mp counted
        exact Nat.succ_pos inner
      · obtain ⟨left, _, counted⟩ := Option.of_bind counted
        split at counted
        · cases counted
        · obtain ⟨right, _, counted⟩ := Option.of_bind counted
          cases counted
          exact Nat.succ_pos _
      · cases counted

/-- How many instructions the count at a place calls for. -/
def sliceCountAt (files : UInt32 → Option MirFile) (program : MirProgram) (fn : MirFunction) (pc : Nat) : Option Nat :=
  (sliceCountNode files program fn (fn.code program) pc).bind fun found =>
    countMirAllocNewCountExprInsts found.1 found.1.ast.len found.2

/-- Before the allocation of a slice stands code that computes its count, whatever meaning the instructions have, and
before every other instruction stands nothing. -/
theorem sliceCount_computed {files : UInt32 → Option MirFile} {program : MirProgram} {fn : MirFunction}
    {t t₁ : MirTables} {cells : List (Cell MirInst)}
    (isFunction : (rewriteMirDynamicSliceAllocCounts files program).IsFunction fn (fn.code program)
      ((rewriteMirDynamicSliceAllocCounts files program).sites fn (fn.code program) t₁).1 t cells)
    (small : t.consts.length ≤ UInt32.size) {k : Nat} {cell : Cell MirInst} (here : cells[k]? = some cell) :
    cell.after = [] ∧
      (sliceCountAt files program fn k = none ∧ cell.before = [] ∨
        ∃ file node e, sliceCountNode files program fn (fn.code program) k = some (file, node) ∧
          readCountExpr file (fn.localMeta program) file.ast.len node = some e ∧
          ∀ {σ ρ ν : Type} {meaning : Meaning mirJumpForm σ ρ} (machine : CountMachine meaning t.consts ν),
            Computes machine cell.before e) := by
  have bound : k < (fn.code program).length := isFunction.length ▸ (List.getElem?_eq_some_iff.mp here).1
  obtain ⟨cell', atCell, isCell⟩ := isFunction.cell k _ (List.getElem?_eq_getElem bound)
  rw [here] at atCell
  cases atCell
  refine ⟨List.length_eq_zero_iff.mp isCell.after.length, ?_⟩
  obtain ⟨t', found⟩ := siteAt_sites (rewriteMirDynamicSliceAllocCounts files program) fn (fn.code program) t₁ bound
  have count : countAt ((rewriteMirDynamicSliceAllocCounts files program).sites fn (fn.code program) t₁).1 k =
      (sliceCountAt files program fn k).getD 0 := by
    rw [countAt, found]
    change (Option.map _ ((sliceCountNode files program fn (fn.code program) k).bind _)).getD 0 = _
    rw [sliceCountAt]
    cases sliceCountNode files program fn (fn.code program) k with
    | none => rfl
    | some found =>
      rw [Option.bind_some, Option.bind_some]
      cases countMirAllocNewCountExprInsts found.1 found.1.ast.len found.2 <;> rfl
  have length : cell.before.length = (sliceCountAt files program fn k).getD 0 := isCell.before.length.trans count
  cases counted : sliceCountAt files program fn k with
  | none =>
    rw [counted] at length
    exact .inl ⟨rfl, List.length_eq_zero_iff.mp length⟩
  | some n =>
    right
    rw [counted] at length
    obtain ⟨⟨file, node⟩, atNode, positive⟩ := Option.bind_eq_some_iff.mp counted
    rcases isCell.before.emitted with none | ⟨pc, t₂, t₃, same, emitted, grown⟩
    · rw [none] at length
      exact absurd length (Nat.ne_of_lt (countMirAllocNewCountExprInsts_pos positive))
    · cases same
      change ((sliceCountNode files program fn (fn.code program) k).bind _) = some _ at emitted
      rw [atNode] at emitted
      obtain ⟨_, e, isExpr, computes⟩ := lowerMirAllocNewCountExpr_computes emitted
      exact ⟨file, node, e, atNode, isExpr, fun machine =>
        computes (Nat.le_trans grown.consts.length_le small) machine grown.consts⟩

/-- The cells of the sample function: the count, then its four instructions. -/
def sliceCells : List (Cell MirInst) :=
  [⟨[⟨.PUSH_CONST, 0, 0, 0, 1⟩], ⟨.ALLOC_NEW, 0x40, 0, 0, 1⟩, []⟩, ⟨[], ⟨.LOCAL_STORE, 0, 0, 0, 1⟩, []⟩,
    ⟨[], ⟨.JUMP, 0, 3, 0, 1⟩, []⟩, ⟨[], ⟨.RETURN_VOID, 0, 0, 0, 1⟩, []⟩]

theorem sliceCells_isFunction :
    (rewriteMirDynamicSliceAllocCounts (fun _ => some countFile) sliceProgram).IsFunction sliceFunction
      (sliceFunction.code sliceProgram) ((rewriteMirDynamicSliceAllocCounts (fun _ => some countFile)
        sliceProgram).sites sliceFunction (sliceFunction.code sliceProgram) sliceProgram.tables).1
      countedProgram.tables sliceCells := by
  refine ⟨rfl, fun k ins atPlace => ?_⟩
  rcases k with _ | _ | _ | _ | k
  · cases atPlace
    refine ⟨_, rfl, rfl, ⟨rfl, .inr ⟨0, sliceProgram.tables, countedProgram.tables, rfl, rfl, .refl _⟩⟩, rfl, .inl rfl⟩
  · cases atPlace
    exact ⟨_, rfl, rfl, ⟨rfl, .inl rfl⟩, rfl, .inl rfl⟩
  · cases atPlace
    exact ⟨_, rfl, rfl, ⟨rfl, .inl rfl⟩, rfl, .inl rfl⟩
  · cases atPlace
    exact ⟨_, rfl, rfl, ⟨rfl, .inl rfl⟩, rfl, .inl rfl⟩
  · cases atPlace

/-- A meaning on a stack of numbers, with sums for the binary operators. -/
def stackMeaning (consts : List MirConst) : Meaning mirJumpForm (List Int64) Unit where
  exec := fun _ ins st =>
    if ins.isJump then .jump ins.aux.toNat st
    else if ins.op = .PUSH_CONST then
      (consts[ins.aux.toNat]?).elim (.halt ()) fun c => .next (c.bits.toInt64 :: st)
    else if ins.op = .LOCAL_LOAD then .next (0 :: st)
    else if ins.op = .UNARY then .next (-st.headD 0 :: st.tail)
    else if ins.op = .BINARY then .next ((st.tail.headD 0 + st.headD 0) :: st.tail.tail)
    else .halt ()
  fallOff := fun _ => ()
  jumps := by
    intro back ins st st' target run
    by_cases jump : ins.isJump = true
    · rw [if_pos jump] at run
      cases run
      exact if_pos jump
    · rw [if_neg jump] at run
      split at run
      · cases found : consts[ins.aux.toNat]? <;> rw [found] at run <;> cases run
      · split at run
        · cases run
        · split at run
          · cases run
          · split at run <;> cases run
  setTarget := by
    intro back ins st target target' fits jumps
    by_cases jump : ins.isJump = true
    · have moved : MirInst.isJump (mirJumpForm.setTarget target' ins) = true := jump
      have operand := mirJumpForm.target_setTarget fits jumps
      rw [if_pos jump, if_pos moved]
      change (if MirInst.isJump _ then some _ else none) = _ at operand
      rw [if_pos moved] at operand
      rw [Option.some.inj operand]
      rfl
    · have none : mirJumpForm.target ins = none := if_neg jump
      rw [none] at jumps
      cases jumps

def stackMachine (consts : List MirConst) : CountMachine (stackMeaning consts) consts Int64 where
  push := List.cons
  int := id
  load := fun _ _ => 0
  unary := fun _ v => .ok (-v)
  binary := fun _ v w => .ok (v + w)
  load_push := fun _ _ _ => rfl
  exec_int := fun ins c st op found _ => by simp [stackMeaning, MirInst.isJump, op, found]
  exec_load := fun ins st op => by simp [stackMeaning, MirInst.isJump, op]
  exec_unary := fun ins v st op => by simp [stackMeaning, MirInst.isJump, op, effectOf, Except.map]
  exec_binary := fun ins v w st op => by simp [stackMeaning, MirInst.isJump, op, effectOf, Except.map]

theorem sliceCells_computed : ∃ file node e,
    sliceCountNode (fun _ => some countFile) sliceProgram sliceFunction (sliceFunction.code sliceProgram) 0 =
      some (file, node) ∧
    readCountExpr file (sliceFunction.localMeta sliceProgram) file.ast.len node = some e ∧
    Computes (stackMachine countedProgram.tables.consts) [⟨.PUSH_CONST, 0, 0, 0, 1⟩] e := by
  rcases (sliceCount_computed sliceCells_isFunction (by decide)
    (show sliceCells[0]? = some ⟨[⟨.PUSH_CONST, 0, 0, 0, 1⟩], ⟨.ALLOC_NEW, 0x40, 0, 0, 1⟩, []⟩ from rfl)).2 with
    ⟨_, empty⟩ | ⟨file, node, e, atNode, isExpr, computes⟩
  · cases empty
  · exact ⟨file, node, e, atNode, isExpr, computes (stackMachine countedProgram.tables.consts)⟩

end HopHop
