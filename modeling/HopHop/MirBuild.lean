import HopHop.Ast
import HopHop.Mir
import HopHop.CTFEEval

namespace HopHop

/-! Lowering of an expression of the syntax tree to a chunk of instructions. -/

/-- `H2MirNameEqLiteral`. -/
def nameEqLiteral (src : List UInt8) (start stop : Nat) (lit : String) : Bool :=
  start ≤ stop ∧ stop ≤ src.length ∧ (src.drop start).take (stop - start) = bytesOf lit

/-- The range is as long as the text and holds it. -/
def nameIs (src : List UInt8) (start stop : Nat) (text : String) : Bool :=
  stop = start + text.length ∧ (src.drop start).take text.length = bytesOf text

/-- `H2MirNameEqLiteralOrPkgBuiltin`: the name itself, or the name behind a package prefix. -/
def nameEqLiteralOrPkgBuiltin (src : List UInt8) (start stop : Nat) (lit pkgPrefix : String) : Bool :=
  nameEqLiteral src start stop lit ∨ nameEqLiteral src start stop (pkgPrefix ++ "__" ++ lit)

def nameIsCompilerDiagBuiltin (src : List UInt8) (start stop : Nat) : Bool :=
  nameEqLiteralOrPkgBuiltin src start stop "error" "compiler"
    ∨ nameEqLiteralOrPkgBuiltin src start stop "error_at" "compiler"
    ∨ nameEqLiteralOrPkgBuiltin src start stop "warn" "compiler"
    ∨ nameEqLiteralOrPkgBuiltin src start stop "warn_at" "compiler"

def nameIsLazyTypeBuiltin (src : List UInt8) (start stop : Nat) : Bool :=
  ["typeof", "kind", "base", "is_alias", "is_const", "type_name", "ptr", "slice", "array"].any
    (nameEqLiteral src start stop)

/-- Why building a chunk stops with return code -1, or that the bound on the depth is used up. -/
inductive BuildStop
  | diag (d : Diag)
  | outOfFuel
  deriving DecidableEq, Repr

/-- The instructions built so far, and whether the expression is supported as far as it has been seen. -/
structure MirBuilder where
  v : List MirInst
  supported : Bool
  deriving DecidableEq, Repr

abbrev Build := EStateM BuildStop MirBuilder

def buildError {α : Type} (code : DiagCode) (start stop : Nat) : Build α := throw (.diag ⟨code, start, stop⟩)

def setUnsupported : Build Unit := modify fun b => { b with supported := false }

section

variable (ast : Ast) (src : List UInt8)

/-- `H2MirCallUsesLazyBuiltinLowering`: the callee takes its operands unevaluated. -/
def callUsesLazyBuiltinLowering (callNode : Int) : Bool :=
  if ¬ast.inTable callNode then false
  else
    let call := ast.node callNode
    let callee := ast.node call.firstChild
    if call.kind ≠ .CALL ∨ call.firstChild < 0 then false
    else if callee.kind = .IDENT then
      nameEqLiteralOrPkgBuiltin src callee.dataStart callee.dataEnd "source_location_of" "builtin"
        ∨ nameIsCompilerDiagBuiltin src callee.dataStart callee.dataEnd
        ∨ nameIsLazyTypeBuiltin src callee.dataStart callee.dataEnd
    else if callee.kind ≠ .FIELD_EXPR then false
    else
      let recv := ast.node callee.firstChild
      if ¬ast.inTable callee.firstChild ∨ recv.kind ≠ .IDENT then false
      else if nameEqLiteral src recv.dataStart recv.dataEnd "builtin"
          ∧ nameEqLiteral src callee.dataStart callee.dataEnd "source_location_of" then true
      else if !nameEqLiteral src recv.dataStart recv.dataEnd "compiler" then false
      else nameIsCompilerDiagBuiltin src callee.dataStart callee.dataEnd

/-- `H2MirTypeNameEqCStr`. -/
def typeNameEqCStr (n : AstNode) (s : String) : Bool := nameEqLiteral src n.dataStart n.dataEnd s

/-- `H2MirClassifyCastTarget`. -/
def classifyCastTarget (typeNode : Int) : CastTarget :=
  if ¬ast.inTable typeNode then .INVALID
  else
    let n := ast.node typeNode
    if (n.kind = .TYPE_REF ∨ n.kind = .TYPE_PTR) ∧ ast.inTable n.firstChild then
      let child := ast.node n.firstChild
      if child.kind = .TYPE_NAME ∧ typeNameEqCStr src child "str" then .STR_VIEW else .PTR_LIKE
    else if n.kind = .TYPE_MUTREF then .PTR_LIKE
    else if n.kind ≠ .TYPE_NAME then .INVALID
    else if typeNameEqCStr src n "rawptr" then .PTR_LIKE
    else if typeNameEqCStr src n "bool" then .BOOL
    else if ["f32", "f64"].any (typeNameEqCStr src n) then .FLOAT
    else if ["u8", "u16", "u32", "u64", "uint", "i8", "i16", "i32", "i64", "int"].any (typeNameEqCStr src n) then .INT
    else .INVALID

/-- `H2MirBuiltinTypeSize`, with 64-bit pointers. -/
def builtinTypeSize (typeNode : Int) : Option Nat :=
  if ¬ast.inTable typeNode then none
  else
    let type := ast.node typeNode
    match type.kind with
    | .TYPE_PTR | .TYPE_REF | .TYPE_MUTREF | .TYPE_FN => some 8
    | .TYPE_SLICE | .TYPE_MUTSLICE => some 16
    | .TYPE_NAME =>
      let named (names : List String) : Bool := names.any (typeNameEqCStr src type)
      if named ["u8", "i8", "bool"] then some 1
      else if named ["u16", "i16"] then some 2
      else if named ["u32", "i32", "f32", "rune"] then some 4
      else if named ["u64", "i64", "f64"] then some 8
      else if named ["int", "uint", "usize", "isize"] then some 8
      else if named ["rawptr"] then some 8
      else if named ["str"] then some 16
      else if named ["type"] then some 8
      else none
    | _ => none

/-- `H2MirInferExprSize`. -/
def inferExprSize (exprNode : Int) : Option Nat :=
  if ¬ast.inTable exprNode then none
  else
    let expr := ast.node exprNode
    match expr.kind with
    | .INT => some 8
    | .FLOAT => some 8
    | .BOOL => some 1
    | .STRING => some 16
    | .CAST =>
      let typeNode := (ast.node expr.firstChild).nextSibling
      if expr.firstChild < 0 ∨ typeNode < 0 ∨ 0 ≤ (ast.node typeNode).nextSibling then none
      else builtinTypeSize ast src typeNode
    | _ => none

end

def isAllowedUnaryToken (tok : TokenKind) : Bool := tok ∈ [.ADD, .SUB, .NOT]

def isAllowedBinaryToken (tok : TokenKind) : Bool :=
  tok ∈ [.ADD, .SUB, .MUL, .DIV, .MOD, .AND, .OR, .XOR, .LSHIFT, .RSHIFT, .EQ, .NEQ, .LT, .GT, .LTE, .GTE,
    .LOGICAL_AND, .LOGICAL_OR]

/-- `H2MirRawCallAuxPack`. -/
def rawCallAuxPack (nodeId flags : UInt32) : UInt32 := nodeId <<< 1 ||| flags &&& 1

def symbolFlagCallReceiverArg0 : UInt32 := 1

/-- The number an index of the node table has in an operand. -/
def nodeOperand (nodeId : Int) : UInt32 := UInt32.ofNat nodeId.toNat

def CastTarget.code (target : CastTarget) : UInt16 := UInt16.ofNat target.ctorIdx

def uint16Max : Nat := 65535

section

variable (ast : Ast) (src : List UInt8) (cap : Nat)

/-- `H2MirEmitInstEx`. -/
def emitInstEx (op : MirOp) (tok : UInt16) (aux : UInt32) (start stop : Nat) : Build Unit := fun b =>
  if !b.supported then .ok () b
  else if cap ≤ b.v.length then .error (.diag ⟨.ARENA_OOM, start, stop⟩) b
  else .ok () { b with v := b.v ++ [⟨op, tok, aux, UInt32.ofNat start, UInt32.ofNat stop⟩] }

/-- `H2MirEmitInst`. -/
def emitInst (op : MirOp) (tok : TokenKind) (start stop : Nat) : Build Unit :=
  emitInstEx cap op tok.code 0 start stop

-- `rec` stands for the call of `H2MirBuildExprNode` on an operand.
variable (rec : Int → Build Unit)

def buildSizeof (n : AstNode) : Build Unit :=
  if ¬ast.inTable n.firstChild then buildError .EXPECTED_EXPR n.start n.stop
  else
    match if n.flags = 1 then builtinTypeSize ast src n.firstChild else inferExprSize ast src n.firstChild with
    | none => setUnsupported
    | some size => emitInstEx cap .PUSH_INT TokenKind.INVALID.code (UInt32.ofNat size) n.start n.stop

/-- The elements of a tuple or an array, at most as many as `remaining` says and one more; the number of those
that are left over, or `none` when there are too many. -/
def buildElems : Nat → Int → Build (Option Nat)
  | remaining, child =>
    if child < 0 then pure (some remaining)
    else do
      rec child
      match remaining with
      | 0 => do
        setUnsupported
        pure none
      | remaining + 1 => buildElems remaining (ast.node child).nextSibling

def buildTuple (nodeId : Int) (n : AstNode) : Build Unit := do
  match ← buildElems ast rec uint16Max n.firstChild with
  | none => pure ()
  | some remaining =>
    let elemCount := uint16Max - remaining
    if n.kind = .TUPLE_EXPR ∧ elemCount = 0 then setUnsupported
    else emitInstEx cap .TUPLE_MAKE (UInt16.ofNat elemCount) (nodeOperand nodeId) n.start n.stop

/-- The expression of an argument and whether it is spread; `none` for an argument without expression. -/
def callArg (arg : Int) : Option (Int × Bool) :=
  let n := ast.node arg
  if n.kind ≠ .CALL_ARG then some (arg, false)
  else if n.firstChild < 0 then none
  else some (n.firstChild, n.has AstFlag.CALL_ARG_SPREAD)

/-- The arguments of a call; the number of those that could still follow and whether one was spread, or `none`
when the call is not supported. -/
def buildCallArgs : Nat → Int → Bool → Build (Option (Nat × Bool))
  | remaining, arg, spread =>
    if arg < 0 then pure (some (remaining, spread))
    else
      match callArg ast arg with
      | none => do
        setUnsupported
        pure none
      | some (exprNode, isSpread) =>
        let next := (ast.node arg).nextSibling
        if isSpread ∧ (0 ≤ next ∨ spread) then do
          setUnsupported
          pure none
        else do
          rec exprNode
          match remaining with
          | 0 => do
            setUnsupported
            pure none
          | remaining + 1 => buildCallArgs remaining next (spread || isSpread)

def callTok (argc : Nat) (spread : Bool) : UInt16 :=
  UInt16.ofNat argc ||| if spread then callArgFlagSpreadLast else 0

/-- The instruction of a call whose operands have been built. -/
def emitCall (nodeId : Int) (callee : AstNode) (receiver : Bool) (argc : Nat) (spread : Bool) : Build Unit :=
  let callStart := callee.dataStart
  let callEnd := callee.dataEnd
  let isBuiltinLen := callee.kind = .IDENT ∧ nameIs src callStart callEnd "len"
  let isBuiltinCStr := nameIs src callStart callEnd "cstr"
  if isBuiltinLen ∧ ¬receiver ∧ argc = 1 then emitInstEx cap .SEQ_LEN TokenKind.INVALID.code 0 callStart callEnd
  else if isBuiltinCStr ∧ argc = 1 then emitInstEx cap .STR_CSTR TokenKind.INVALID.code 0 callStart callEnd
  else
    emitInstEx cap .CALL (callTok argc spread)
      (rawCallAuxPack (nodeOperand nodeId) (if receiver then symbolFlagCallReceiverArg0 else 0)) callStart callEnd

/-- The receiver of a selector call comes before the arguments. -/
def buildReceiver (receiver : Bool) (callee : AstNode) : Build Unit :=
  if receiver then rec callee.firstChild else pure ()

def buildCall (nodeId : Int) (n : AstNode) : Build Unit :=
  let isLazyBuiltin := callUsesLazyBuiltinLowering ast src nodeId
  let callee := ast.node n.firstChild
  if ¬ast.inTable n.firstChild ∨ callee.kind ≠ .IDENT ∧ (callee.kind ≠ .FIELD_EXPR ∨ callee.firstChild < 0) then
    setUnsupported
  else if isLazyBuiltin then emitCall src cap nodeId callee false 0 false
  else do
    let receiver : Bool := callee.kind = .FIELD_EXPR
    buildReceiver rec receiver callee
    let room := if receiver then uint16Max - 1 else uint16Max
    match ← buildCallArgs ast rec room callee.nextSibling false with
    | none => pure ()
    | some (remaining, spread) => emitCall src cap nodeId callee receiver (uint16Max - remaining) spread

def buildUnary (n : AstNode) : Build Unit :=
  if !isAllowedUnaryToken n.op then setUnsupported
  else if n.firstChild < 0 then buildError .EXPECTED_EXPR n.start n.stop
  else do
    rec n.firstChild
    emitInst cap .UNARY n.op n.start n.stop

def buildBinary (n : AstNode) : Build Unit :=
  let rhs := if 0 ≤ n.firstChild then (ast.node n.firstChild).nextSibling else -1
  if !isAllowedBinaryToken n.op then setUnsupported
  else if n.firstChild < 0 ∨ rhs < 0 then buildError .EXPECTED_EXPR n.start n.stop
  else do
    rec n.firstChild
    rec rhs
    emitInst cap .BINARY n.op n.start n.stop

/-- One bound of a slice, when the node has it; the node that follows. -/
def buildBound (n : AstNode) (has : Bool) (idxNode : Int) : Build Int :=
  if !has then pure idxNode
  else if idxNode < 0 then buildError .EXPECTED_EXPR n.start n.stop
  else do
    rec idxNode
    pure (ast.node idxNode).nextSibling

def buildSlice (n : AstNode) : Build Unit :=
  if n.firstChild < 0 then buildError .EXPECTED_EXPR n.start n.stop
  else do
    rec n.firstChild
    let next ← buildBound ast rec n (n.has AstFlag.INDEX_HAS_START) (ast.node n.firstChild).nextSibling
    let next ← buildBound ast rec n (n.has AstFlag.INDEX_HAS_END) next
    if 0 ≤ next then buildError .EXPECTED_EXPR n.start n.stop
    else
      emitInstEx cap .SLICE_MAKE (n.flags &&& (AstFlag.INDEX_HAS_START ||| AstFlag.INDEX_HAS_END)).toUInt16 0
        n.start n.stop

def buildIndex (n : AstNode) : Build Unit :=
  if n.has AstFlag.INDEX_SLICE then buildSlice ast cap rec n
  else
    let idxNode := if 0 ≤ n.firstChild then (ast.node n.firstChild).nextSibling else -1
    if n.firstChild < 0 ∨ idxNode < 0 ∨ 0 ≤ (ast.node idxNode).nextSibling then
      buildError .EXPECTED_EXPR n.start n.stop
    else do
      rec n.firstChild
      rec idxNode
      emitInst cap .INDEX .INVALID n.start n.stop

def buildField (n : AstNode) : Build Unit :=
  if n.firstChild < 0 then buildError .EXPECTED_EXPR n.start n.stop
  else do
    rec n.firstChild
    emitInstEx cap .AGG_GET TokenKind.INVALID.code 0 n.dataStart n.dataEnd

def buildCast (n : AstNode) : Build Unit :=
  let typeNode := if 0 ≤ n.firstChild then (ast.node n.firstChild).nextSibling else -1
  if n.firstChild < 0 ∨ typeNode < 0 ∨ 0 ≤ (ast.node typeNode).nextSibling then
    buildError .EXPECTED_EXPR n.start n.stop
  else
    let target := classifyCastTarget ast src typeNode
    if target = .INVALID then setUnsupported
    else do
      rec n.firstChild
      emitInstEx cap .CAST target.code (nodeOperand typeNode) n.start n.stop

/-- `H2MirBuildExprNode` on a supported expression so far, given the call on its operands. -/
def buildShape (nodeId : Int) (n : AstNode) : Build Unit :=
  match n.kind with
  | .INT => emitInst cap .PUSH_INT .INT n.dataStart n.dataEnd
  | .RUNE => emitInst cap .PUSH_INT .RUNE n.dataStart n.dataEnd
  | .FLOAT => emitInst cap .PUSH_FLOAT .FLOAT n.dataStart n.dataEnd
  | .BOOL => emitInst cap .PUSH_BOOL .TRUE n.dataStart n.dataEnd
  | .STRING => emitInst cap .PUSH_STRING .STRING n.dataStart n.dataEnd
  | .NULL => emitInst cap .PUSH_NULL .NULL n.start n.stop
  | .IDENT => emitInstEx cap .LOAD_IDENT TokenKind.IDENT.code (nodeOperand nodeId) n.dataStart n.dataEnd
  | .SIZEOF => buildSizeof ast src cap n
  | .TUPLE_EXPR => buildTuple ast cap rec nodeId n
  | .ARRAY_LIT => buildTuple ast cap rec nodeId n
  | .CALL => buildCall ast src cap rec nodeId n
  | .UNARY => buildUnary cap rec n
  | .BINARY => buildBinary ast cap rec n
  | .INDEX => buildIndex ast cap rec n
  | .FIELD_EXPR => buildField cap rec n
  | .CAST => buildCast ast src cap rec n
  | _ => setUnsupported

end

section

variable (ast : Ast) (src : List UInt8) (cap : Nat)

/-- `H2MirBuildExprNode`, to a bounded depth of the tree. -/
def buildExprNode : Nat → Int → Build Unit
  | 0, _ => throw .outOfFuel
  | depth + 1, nodeId => do
    if !(← get).supported then pure ()
    else if ¬ast.inTable nodeId then buildError .EXPECTED_EXPR 0 0
    else buildShape ast src cap (buildExprNode depth) nodeId (ast.node nodeId)

/-- `H2MirBuildExpr`: the chunk, or `none` when the expression is not supported. -/
def buildExpr (arenaHasRoom : Bool) (depth : Nat) (nodeId : Int) : Except BuildStop (Option (List MirInst)) :=
  let cap := (UInt32.ofNat ast.len * 4 + 8).toNat
  if !arenaHasRoom then .error (.diag ⟨.ARENA_OOM, 0, 0⟩)
  else
    match buildExprNode ast src cap depth nodeId ⟨[], true⟩ with
    | .error stop _ => .error stop
    | .ok () b =>
      if !b.supported then .ok none
      else
        let n := ast.node nodeId
        match emitInst cap .RETURN .EOF n.start n.stop b with
        | .error stop _ => .error stop
        | .ok () b => .ok (some b.v)

end

end HopHop
