import HopHop.MirExprChunk
import HopHop.MirLowerValid

namespace HopHop

/-! The evaluation of a constant expression: it is lowered to a function, and the function is run. -/

/-- What the caller of an evaluation provides. -/
structure CTFEHooks (σ : Type) where
  resolveIdent : Option (UInt32 → UInt32 → σ → Answer × σ)
  resolveCall : Option (UInt32 → UInt32 → List CTFEValue → σ → Answer × σ)
  makeTuple : Option (List CTFEValue → UInt32 → σ → Answer × σ)
  indexValue : Option (CTFEValue → CTFEValue → σ → Answer × σ)
  aggGetField : Option (CTFEValue → UInt32 → UInt32 → σ → Answer × σ)
  aggAddrField : Option (CTFEValue → UInt32 → UInt32 → σ → Answer × σ)

/-- The environment of an evaluation; a call is resolved by its name and its arguments alone. -/
def CTFEHooks.env {σ : Type} (hooks : CTFEHooks σ) (src : List UInt8) : ExecEnv σ :=
  { ExecEnv.empty σ src with
    resolveIdent := hooks.resolveIdent
    resolveCall := hooks.resolveCall.map fun resolve _ nameStart nameEnd args => resolve nameStart nameEnd args
    makeTuple := hooks.makeTuple
    indexValue := hooks.indexValue
    aggGetField := hooks.aggGetField
    aggAddrField := hooks.aggAddrField }

def MirProgram.needsDynamicResolution (program : MirProgram) : Bool :=
  program.insts.any fun ins => ins.op = .LOAD_IDENT ∨ ins.op = .CALL

def ExecEnv.disableDynamicResolution {σ : Type} (env : ExecEnv σ) : ExecEnv σ :=
  { env with resolveIdent := none, resolveCall := none }

section

variable {σ : Type} (m : Machine σ) (hooks : CTFEHooks σ) (ast : Ast) (src : MirSourceRef)

/-- `H2CTFEEvalExprEx`. -/
def evalExprEx (arenaHasRoom : Bool) (treeDepth : Nat) (nodeId : Int) (fuel : Nat) : Exec σ CTFEValue := do
  modify (m.setDiag ⟨.NONE, 0, 0⟩)
  match ← lowerExprAsFunction m ast src arenaHasRoom treeDepth nodeId with
  | none => Exec.notConst
  | some program =>
    let env := hooks.env src.src
    evalFunction m program (if program.needsDynamicResolution then env else env.disableDynamicResolution) 0 [] fuel

/-- The tree of an expression, with the constants of its literals. They are read from left to right. -/
def readExpr (treeDepth : Nat) (nodeId : Int) : Exec σ (PostfixCode.Tree Combine (Option MirConst)) :=
  PostfixCode.writeOut (exprShape ast src.src) Combine.inst (literalConst m src.src) .outOfFuel treeDepth nodeId

variable (env : ExecEnv σ)

/-- A call by the name of a builtin that only the host has. -/
def Combine.callsHost (src : List UInt8) (k : Combine) : Bool :=
  match k.action with
  | .call receiver _ => !receiver ∧ (hostTargetOf src k.start k.stop).isSome
  | _ => false

/-- How a node combines the values of its operands when its literals have been read. -/
def Combine.applyRead (depth : Nat) (k : Combine × Option MirConst) (vs : List CTFEValue) : Exec σ CTFEValue :=
  match k.2 with
  | some value => (constToValue value).elim Exec.notConst pure
  | none => if k.1.callsHost env.src then Exec.notConst else k.1.apply m env depth vs

/-- The direct evaluation of a tree whose literals have been read. -/
def evalRead (depth treeDepth : Nat) (t : PostfixCode.Tree Combine (Option MirConst)) : Exec σ CTFEValue :=
  PostfixCode.eval PostfixCode.Tree.shape (Combine.applyRead m env depth) .outOfFuel treeDepth t

end

end HopHop
