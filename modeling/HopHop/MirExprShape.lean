import HopHop.MirBuild
import HopHop.MirExec
import HopHop.PostfixCode

namespace HopHop

/-! What the expressions of the syntax tree mean, apart from how they are lowered: each node evaluates its operands
from left to right and combines their values. -/

/-- How a node combines the values of its operands. -/
inductive ExprAction
  | int | rune | float | bool | string | null | ident
  | size (bytes : Nat)
  | tuple | seqLen | cstr
  | call (receiver spread : Bool)
  | unary (op : TokenKind)
  | binary (op : TokenKind)
  | index
  | slice (flags : UInt16)
  | field
  | cast (target : CastTarget) (typeNode : UInt32)
  deriving DecidableEq, Repr

/-- An action with the node it belongs to and the range of the source it reads or reports. -/
structure Combine where
  action : ExprAction
  node : UInt32
  start : UInt32
  stop : UInt32
  deriving DecidableEq, Repr

section

variable (ast : Ast) (src : List UInt8)

/-- The nodes of a sibling chain, when there are at most so many. -/
def siblings : Nat → Int → Option (List Int)
  | room, child =>
    if child < 0 then some []
    else
      match room with
      | 0 => none
      | room + 1 => (siblings room (ast.node child).nextSibling).map (child :: ·)

/-- The expressions of the arguments of a call, and whether the last one is spread; only the last one can be. -/
def callOperands : Nat → Int → Bool → Option (List Int × Bool)
  | room, arg, spread =>
    if arg < 0 then some ([], spread)
    else
      match callArg ast arg, room with
      | some (exprNode, isSpread), room + 1 =>
        let next := (ast.node arg).nextSibling
        if isSpread ∧ (0 ≤ next ∨ spread) then none
        else (callOperands room next (spread || isSpread)).map fun (ns, s) => (exprNode :: ns, s)
      | _, _ => none

/-- The operand that a call takes before its arguments. -/
def receiverOperand (receiver : Bool) (callee : AstNode) : List Int :=
  if receiver then [callee.firstChild] else []

/-- How a call combines its operands: by one of the two builtins on a single operand, or by asking for the name. -/
def callAction (callee : AstNode) (receiver : Bool) (argc : Nat) (spread : Bool) : ExprAction :=
  if (callee.kind = .IDENT ∧ nameIs src callee.dataStart callee.dataEnd "len") ∧ ¬receiver ∧ argc = 1 then .seqLen
  else if nameIs src callee.dataStart callee.dataEnd "cstr" ∧ argc = 1 then .cstr
  else .call receiver spread

def callShape (nodeId : Int) (n : AstNode) : Option (Combine × List Int) :=
  let callee := ast.node n.firstChild
  let combine (receiver spread : Bool) (argc : Nat) : Combine :=
    ⟨callAction src callee receiver argc spread, nodeOperand nodeId, UInt32.ofNat callee.dataStart,
      UInt32.ofNat callee.dataEnd⟩
  if ¬ast.inTable n.firstChild ∨ callee.kind ≠ .IDENT ∧ (callee.kind ≠ .FIELD_EXPR ∨ callee.firstChild < 0) then none
  else if callUsesLazyBuiltinLowering ast src nodeId then some (combine false false 0, [])
  else
    let receiver : Bool := callee.kind = .FIELD_EXPR
    (callOperands ast (if receiver then uint16Max - 1 else uint16Max) callee.nextSibling false).map fun (args, spread) =>
      let operands := receiverOperand receiver callee ++ args
      (combine receiver spread operands.length, operands)

/-- A bound of a slice, when the node has it, and what follows it. -/
def sliceBound (has : Bool) (idxNode : Int) : Option (List Int × Int) :=
  if !has then some ([], idxNode)
  else if idxNode < 0 then none
  else some ([idxNode], (ast.node idxNode).nextSibling)

/-- The operands of a slice: its base and the bounds it has. -/
def sliceOperands (n : AstNode) : Option (List Int) := do
  let (start, next) ← sliceBound ast (n.has AstFlag.INDEX_HAS_START) (ast.node n.firstChild).nextSibling
  let (stop, next) ← sliceBound ast (n.has AstFlag.INDEX_HAS_END) next
  if n.firstChild < 0 ∨ 0 ≤ next then none else some (n.firstChild :: (start ++ stop))

/-- The two children of a node that has no more. -/
def twoChildren (n : AstNode) : Option (Int × Int) :=
  let second := (ast.node n.firstChild).nextSibling
  if n.firstChild < 0 ∨ second < 0 ∨ 0 ≤ (ast.node second).nextSibling then none else some (n.firstChild, second)

/-- The action and the operands of a node, when it is an expression that lowering supports. -/
def exprShape (nodeId : Int) : Option (Combine × List Int) :=
  let n := ast.node nodeId
  let whole (action : ExprAction) : Combine :=
    ⟨action, nodeOperand nodeId, UInt32.ofNat n.start, UInt32.ofNat n.stop⟩
  let named (action : ExprAction) : Combine :=
    ⟨action, nodeOperand nodeId, UInt32.ofNat n.dataStart, UInt32.ofNat n.dataEnd⟩
  if ¬ast.inTable nodeId then none
  else
    match n.kind with
    | .INT => some (named .int, [])
    | .RUNE => some (named .rune, [])
    | .FLOAT => some (named .float, [])
    | .BOOL => some (named .bool, [])
    | .STRING => some (named .string, [])
    | .NULL => some (whole .null, [])
    | .IDENT => some (named .ident, [])
    | .SIZEOF =>
      if ¬ast.inTable n.firstChild then none
      else
        (if n.flags = 1 then builtinTypeSize ast src n.firstChild else inferExprSize ast src n.firstChild).map
          fun size => (whole (.size size), [])
    | .TUPLE_EXPR => (siblings ast uint16Max n.firstChild).bind fun ns => if ns = [] then none else some (whole .tuple, ns)
    | .ARRAY_LIT => (siblings ast uint16Max n.firstChild).map fun ns => (whole .tuple, ns)
    | .CALL => callShape ast src nodeId n
    | .UNARY =>
      if !isAllowedUnaryToken n.op ∨ n.firstChild < 0 then none else some (whole (.unary n.op), [n.firstChild])
    | .BINARY =>
      let rhs := (ast.node n.firstChild).nextSibling
      if !isAllowedBinaryToken n.op ∨ n.firstChild < 0 ∨ rhs < 0 then none
      else some (whole (.binary n.op), [n.firstChild, rhs])
    | .INDEX =>
      if n.has AstFlag.INDEX_SLICE then
        (sliceOperands ast n).map fun ns =>
          (whole (.slice (n.flags &&& (AstFlag.INDEX_HAS_START ||| AstFlag.INDEX_HAS_END)).toUInt16), ns)
      else (twoChildren ast n).map fun (base, idx) => (whole .index, [base, idx])
    | .FIELD_EXPR => if n.firstChild < 0 then none else some (named .field, [n.firstChild])
    | .CAST =>
      (twoChildren ast n).bind fun (value, typeNode) =>
        let target := classifyCastTarget ast src typeNode
        if target = .INVALID then none else some (whole (.cast target (nodeOperand typeNode)), [value])
    | _ => none

end

/-- The instruction that combines so many operands. -/
def Combine.inst (c : Combine) (operands : Nat) : MirInst :=
  let ins (op : MirOp) (tok : UInt16) (aux : UInt32) : MirInst := ⟨op, tok, aux, c.start, c.stop⟩
  match c.action with
  | .int => ins .PUSH_INT TokenKind.INT.code 0
  | .rune => ins .PUSH_INT TokenKind.RUNE.code 0
  | .float => ins .PUSH_FLOAT TokenKind.FLOAT.code 0
  | .bool => ins .PUSH_BOOL TokenKind.TRUE.code 0
  | .string => ins .PUSH_STRING TokenKind.STRING.code 0
  | .null => ins .PUSH_NULL TokenKind.NULL.code 0
  | .ident => ins .LOAD_IDENT TokenKind.IDENT.code c.node
  | .size bytes => ins .PUSH_INT TokenKind.INVALID.code (UInt32.ofNat bytes)
  | .tuple => ins .TUPLE_MAKE (UInt16.ofNat operands) c.node
  | .seqLen => ins .SEQ_LEN TokenKind.INVALID.code 0
  | .cstr => ins .STR_CSTR TokenKind.INVALID.code 0
  | .call receiver spread =>
    ins .CALL (callTok operands spread) (rawCallAuxPack c.node (if receiver then symbolFlagCallReceiverArg0 else 0))
  | .unary op => ins .UNARY op.code 0
  | .binary op => ins .BINARY op.code 0
  | .index => ins .INDEX TokenKind.INVALID.code 0
  | .slice flags => ins .SLICE_MAKE flags 0
  | .field => ins .AGG_GET TokenKind.INVALID.code 0
  | .cast target typeNode => ins .CAST target.code typeNode

section

variable {σ : Type} (m : Machine σ) (env : ExecEnv σ)

/-- A literal that may fail to be a constant. -/
def literalValue (v : Option CTFEValue) : Exec σ CTFEValue := v.elim Exec.notConst pure

/-- A call by name: the callback that may answer without the arguments, then the one that takes them. -/
def callValue (site : CallSite) (nameStart nameEnd : UInt32) (args : List CTFEValue) : Exec σ CTFEValue := do
  match ← callPre env site nameStart nameEnd with
  | some v => pure v
  | none => callResolved m env site nameStart nameEnd args

def tupleValue (site : MirInst) (node : UInt32) (elems : List CTFEValue) : Exec σ CTFEValue :=
  match env.makeTuple with
  | none => Exec.notConst
  | some makeTuple => do
    allocArgs m site elems.length
    ask (makeTuple elems node)

def sliceValue (flags : UInt16) (base : CTFEValue) (start stop : Option CTFEValue) : Exec σ CTFEValue :=
  match env.sliceValue with
  | none => Exec.notConst
  | some slice => ask (slice base start stop flags)

/-- The instruction stands for the node where a callback or a reason wants to know the place. -/
def Combine.apply (depth : Nat) (c : Combine) (vs : List CTFEValue) : Exec σ CTFEValue :=
  let site := c.inst vs.length
  match c.action, vs with
  | .int, [] => literalValue ((parseIntLiteral env.src c.start.toNat c.stop.toNat).map .int)
  | .rune, [] => runeValue m env c.start c.stop
  | .float, [] => literalValue ((parseFloatLiteral env.src c.start.toNat c.stop.toNat).map .float)
  | .bool, [] => literalValue ((parseBoolLiteral env.src c.start.toNat c.stop.toNat).map .bool)
  | .string, [] => do return .string (← decodeStringLiteralArena m env.src c.start.toNat c.stop.toNat)
  | .null, [] => pure .null
  | .ident, [] => loadIdent env c.start c.stop
  | .size bytes, [] => pure (.int (Int64.ofNat bytes))
  | .tuple, elems => tupleValue m env site c.node elems
  | .seqLen, [base] => sequenceLen env base
  | .cstr, [base] => cstrValue m base
  | .call _ _, args => callValue m env ⟨none, none, site⟩ c.start c.stop args
  | .unary op, [input] => unaryValue op input
  | .binary _, [lhs, rhs] => binaryValue m env depth site lhs rhs
  | .index, [base, idx] => indexValue m env site base idx
  | .slice flags, base :: bounds =>
    sliceValue env flags base (if flags &&& 2 ≠ 0 then bounds.head? else none)
      (if flags &&& 4 ≠ 0 then bounds.getLast? else none)
  | .field, [base] => aggGet env base c.start c.stop
  | .cast target _, [input] => castValue target input
  | _, _ => Exec.notConst

variable (ast : Ast) (src : List UInt8)

/-- The direct evaluation of an expression node, to a bounded depth of the tree. `depth` also bounds how many
optional payloads deep a binary operator looks. -/
def evalExprNode (depth treeDepth : Nat) (nodeId : Int) : Exec σ CTFEValue :=
  PostfixCode.eval (exprShape ast src) (Combine.apply m env depth) .outOfFuel treeDepth nodeId

end

end HopHop
