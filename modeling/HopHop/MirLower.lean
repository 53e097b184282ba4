import HopHop.MirBuild
import HopHop.MirEnv
import HopHop.MirProgramBuilder

namespace HopHop

/-! Expressions lowered into the functions of a program: literals become entries of the constant table, and names,
types and fields become entries of the tables they belong to. -/

def rawCallAuxNode (aux : UInt32) : UInt32 := aux >>> 1

def rawCallAuxFlags (aux : UInt32) : UInt32 := aux &&& 1

def hostTargetDealloc : UInt32 := 2
def hostTargetConcat : UInt32 := 3
def hostTargetCopy : UInt32 := 4

section

variable {σ : Type} (m : Machine σ)

/-- A table that takes no more entries ends the lowering. -/
def orOutOfMemory {α : Type} (start stop : UInt32) (added : Option α) : Exec σ α :=
  match added with
  | some a => pure a
  | none => do
    modify (m.setDiag ⟨.ARENA_OOM, start.toNat, stop.toNat⟩)
    Exec.error

/-- The constant of a literal instruction; none for other instructions and for a number that cannot be read. -/
def literalConst (src : List UInt8) (ins : MirInst) : Exec σ (Option MirConst) :=
  match ins.op with
  | .PUSH_INT =>
    if ins.tok = TokenKind.RUNE.code then
      match decodeRuneLiteralValidate src ins.start.toNat ins.stop.toNat with
      | .error err => do
        modify (m.setDiag ⟨runeLitErrDiagCode err.kind, err.start, err.stop⟩)
        Exec.error
      | .ok rune => pure (some ⟨.INT, 0, rune.toUInt64, ⟨0, 0⟩⟩)
    else if ins.tok = TokenKind.INVALID.code then pure (some ⟨.INT, 0, ins.aux.toInt32.toInt64.toUInt64, ⟨0, 0⟩⟩)
    else pure ((parseIntLiteral src ins.start.toNat ins.stop.toNat).map fun i => ⟨.INT, 0, i.toUInt64, ⟨0, 0⟩⟩)
  | .PUSH_FLOAT =>
    pure ((parseFloatLiteral src ins.start.toNat ins.stop.toNat).map fun f => ⟨.FLOAT, 0, f.toBits, ⟨0, 0⟩⟩)
  | .PUSH_BOOL =>
    pure ((parseBoolLiteral src ins.start.toNat ins.stop.toNat).map fun b =>
      ⟨.BOOL, 0, if b then 1 else 0, ⟨0, 0⟩⟩)
  | .PUSH_STRING => do
    let bytes ← decodeStringLiteralArena m src ins.start.toNat ins.stop.toNat
    return some ⟨.STRING, 0, 0, bytes⟩
  | .PUSH_NULL => pure (some ⟨.NULL, 0, 0, ⟨0, 0⟩⟩)
  | _ => pure none

/-- The instruction that refers to an entry of a table. -/
def refersTo (start stop : UInt32) (added : Option (UInt32 × MirBuilderTables)) (ins : UInt32 → MirInst) :
    Exec σ (MirBuilderTables × MirInst) := do
  let (i, t) ← orOutOfMemory m start stop added
  return (t, ins i)

/-- `H2MirLowerRewriteConstInst`. -/
def lowerConstInst (src : List UInt8) (t : MirBuilderTables) (ins : MirInst) :
    Exec σ (MirBuilderTables × MirInst) := do
  match ← literalConst m src ins with
  | none => return (t, ins)
  | some value =>
    refersTo m ins.start ins.stop (t.addConst value) fun i => { ins with op := .PUSH_CONST, tok := 0, aux := i }

/-- The entry that is there already, or the one that is added. -/
def MirBuilderTables.intern {α : Type} (t : MirBuilderTables) (entries : MirArray α) (same : α → Bool)
    (add : Option (UInt32 × MirBuilderTables)) : Option (UInt32 × MirBuilderTables) :=
  match entries.val.findIdx? same with
  | some i => some (UInt32.ofNat i, t)
  | none => add

section

variable (t : MirBuilderTables)

def MirBuilderTables.internSymbol (value : MirSymbolEntry) : Option (UInt32 × MirBuilderTables) :=
  t.intern t.symbols (fun existing => existing = value) (t.addSymbol value)

def MirBuilderTables.internType (astNode sourceRef flags : UInt32) : Option (UInt32 × MirBuilderTables) :=
  t.intern t.types
    (fun existing => existing.astNode = astNode ∧ existing.sourceRef = sourceRef ∧ existing.flags = flags)
    (t.addType ⟨astNode, sourceRef, flags, 0⟩)

def MirBuilderTables.internHost (value : MirHostRef) : Option (UInt32 × MirBuilderTables) :=
  t.intern t.hosts (fun existing => existing = value) (t.addHost value)

def MirBuilderTables.internField (nameStart nameEnd : UInt32) : Option (UInt32 × MirBuilderTables) :=
  let value : MirFieldEntry := ⟨⟨nameStart, nameEnd⟩, 0, noTypeRef, noTypeRef⟩
  t.intern t.fields (fun existing => existing = value) (t.addField value)

/-- `H2MirLowerRewriteSymbolInst`. -/
def lowerSymbolInst (ins : MirInst) : Exec σ (MirBuilderTables × MirInst) :=
  let named (value : MirSymbolEntry) : Exec σ (MirBuilderTables × MirInst) :=
    refersTo m ins.start ins.stop (t.internSymbol value) fun i => { ins with aux := i }
  match ins.op with
  | .LOAD_IDENT | .STORE_IDENT => named ⟨⟨ins.start, ins.stop, .IDENT⟩, 0, ins.aux⟩
  | .CALL => named ⟨⟨ins.start, ins.stop, .CALL⟩, rawCallAuxFlags ins.aux, rawCallAuxNode ins.aux⟩
  | _ => return (t, ins)

/-- The index of a source, and 0 for one that was not added. -/
def MirBuilderTables.findSourceRef (src : MirSourceRef) : UInt32 :=
  if src.ptr = 0 then 0
  else UInt32.ofNat ((t.sources.val.findIdx? fun s => s.ptr = src.ptr ∧ s.src.length = src.src.length).getD 0)

/-- `H2MirLowerRewriteTypeInst`. -/
def lowerTypeInst (src : MirSourceRef) (ins : MirInst) : Exec σ (MirBuilderTables × MirInst) :=
  if ins.op = .CAST then
    refersTo m 0 0 (t.internType ins.aux (t.findSourceRef src) 0) fun i => { ins with aux := i }
  else return (t, ins)

/-- The builtin that a call of this name is made by. -/
def hostTargetOf (src : List UInt8) (start stop : UInt32) : Option UInt32 :=
  if stop = start + 4 ∧ (src.drop start.toNat).take 4 = bytesOf "copy" then some hostTargetCopy
  else if stop = start + 6 ∧ (src.drop start.toNat).take 6 = bytesOf "concat" then some hostTargetConcat
  else if stop = start + 7 ∧ (src.drop start.toNat).take 7 = bytesOf "dealloc" then some hostTargetDealloc
  else none

/-- `H2MirLowerRewriteHostInst`. -/
def lowerHostInst (src : List UInt8) (ins : MirInst) : Exec σ (MirBuilderTables × MirInst) :=
  if ins.op = .CALL then
    match hostTargetOf src ins.start ins.stop, t.symbols.val[ins.aux.toNat]? with
    | some target, some symbol =>
      if symbol.symbol.kind ≠ .CALL ∨ symbol.flags ≠ 0 then return (t, ins)
      else
        refersTo m ins.start ins.stop (t.internHost ⟨ins.start, ins.stop, true, 0, target⟩) fun i =>
          { ins with op := .CALL_HOST, aux := i }
    | _, _ => return (t, ins)
  else return (t, ins)

/-- `H2MirLowerRewriteFieldInst`. -/
def lowerFieldInst (ins : MirInst) : Exec σ (MirBuilderTables × MirInst) :=
  if ins.op = .AGG_GET ∨ ins.op = .AGG_ADDR then
    refersTo m ins.start ins.stop (t.internField ins.start ins.stop) fun i => { ins with aux := i }
  else return (t, ins)

end

/-- The instruction as the program has it, with the tables it refers to. -/
def lowerInst (src : MirSourceRef) (t : MirBuilderTables) (ins : MirInst) : Exec σ (MirBuilderTables × MirInst) := do
  let (t, ins) ← lowerConstInst m src.src t ins
  let (t, ins) ← lowerSymbolInst m t ins
  let (t, ins) ← lowerTypeInst m t src ins
  let (t, ins) ← lowerHostInst m t src.src ins
  lowerFieldInst m t ins

/-- `H2MirLowerAppendInst`. -/
def lowerAppendInst (src : MirSourceRef) (b : MirProgramBuilder) (ins : MirInst) : Exec σ MirProgramBuilder := do
  let (tables, ins) ← lowerInst m src b.tables ins
  orOutOfMemory m ins.start ins.stop ({ b with tables }.appendInst ins)

def lowerInsts (src : MirSourceRef) : MirProgramBuilder → List MirInst → Exec σ MirProgramBuilder
  | b, [] => pure b
  | b, ins :: rest => do lowerInsts src (← lowerAppendInst m src b ins) rest

/-- A result of the builder of a chunk. -/
def chunkOf (built : Except BuildStop (Option (List MirInst))) : Exec σ (Option (List MirInst)) :=
  match built with
  | .ok chunk => pure chunk
  | .error (.diag diag) => do
    modify (m.setDiag diag)
    Exec.error
  | .error .outOfFuel => throw .outOfFuel

/-- The function an expression is lowered to, before it has a place. -/
def exprFunction (sourceRef typeRef : UInt32) : MirFunction where
  instStart := 0
  instLen := 0
  sourceRef := sourceRef
  localStart := 0
  localCount := 0
  paramCount := 0
  typeRef := typeRef
  nameStart := 0
  nameEnd := 0
  flags := 0
  captureCount := 0

variable (ast : Ast) (src : MirSourceRef) (arenaHasRoom : Bool) (treeDepth : Nat)

/-- The type of the result, where one is given. -/
def resultType (t : MirBuilderTables) (resultTypeNode : Int) (sourceRef : UInt32) :
    Exec σ (UInt32 × MirBuilderTables) :=
  if resultTypeNode < 0 then pure (noTypeRef, t)
  else
    let typeNode := ast.node resultTypeNode
    orOutOfMemory m (UInt32.ofNat typeNode.start) (UInt32.ofNat typeNode.stop)
      (t.addType ⟨nodeOperand resultTypeNode, sourceRef, 0, 0⟩)

/-- `H2MirLowerAppendExprAsFunction`: the index of the function and the builder with it, or none for an expression
that is not supported. -/
def lowerAppendExprAsFunction (b : MirProgramBuilder) (nodeId resultTypeNode : Int) :
    Exec σ (Option (UInt32 × MirProgramBuilder)) := do
  match ← chunkOf m (buildExpr ast src.src arenaHasRoom treeDepth nodeId) with
  | none => return none
  | some chunk =>
    let (sourceIndex, t) ← orOutOfMemory m 0 0 (b.tables.addSource src)
    let (typeRef, tables) ← resultType m ast t resultTypeNode sourceIndex
    let (index, b) ← orOutOfMemory m 0 0 ({ b with tables }.beginFunction (exprFunction sourceIndex typeRef))
    let b ← lowerInsts m src b chunk
    let b ← orOutOfMemory m 0 0 b.endFunction
    return some (index, b)

/-- `H2MirLowerExprAsFunction`. -/
def lowerExprAsFunction (nodeId : Int) : Exec σ (Option MirProgram) := do
  let lowered ← lowerAppendExprAsFunction m ast src arenaHasRoom treeDepth .init nodeId (-1)
  return lowered.map fun (_, b) => b.finish

end

end HopHop
