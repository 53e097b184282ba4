import HopHop.CTFEValue

namespace HopHop

/-- Operations of the intermediate representation, in the order of the source enumeration. -/
inductive MirOp
  | INVALID | PUSH_CONST | PUSH_INT | PUSH_FLOAT | PUSH_BOOL | PUSH_STRING | PUSH_NULL
  | LOAD_IDENT | STORE_IDENT | CALL | UNARY | BINARY | INDEX | SEQ_LEN | STR_CSTR | ITER_INIT | ITER_NEXT
  | CAST | COERCE | LOCAL_ZERO | LOCAL_LOAD | LOCAL_STORE | LOCAL_ADDR | DROP | JUMP | JUMP_IF_FALSE | ASSERT
  | CALL_FN | CALL_HOST | CALL_INDIRECT | MAKE_CLOSURE | CAPTURE_LOAD | CAPTURE_STORE | CAPTURE_ADDR
  | DEREF_LOAD | DEREF_STORE | ADDR_OF | AGG_MAKE | AGG_ZERO | AGG_GET | AGG_SET | AGG_ADDR
  | ARRAY_ZERO | ARRAY_GET | ARRAY_SET | ARRAY_ADDR | TUPLE_MAKE | SLICE_MAKE | OPTIONAL_WRAP | OPTIONAL_UNWRAP
  | TAGGED_MAKE | TAGGED_TAG | TAGGED_PAYLOAD | ALLOC_NEW | CTX_GET | CTX_ADDR | CTX_SET | RETURN | RETURN_VOID
  deriving DecidableEq, Repr

structure MirInst where
  op : MirOp
  tok : UInt16
  aux : UInt32
  start : UInt32
  stop : UInt32
  deriving DecidableEq, Repr

/-- The number a token kind has in an operand. -/
def TokenKind.code (kind : TokenKind) : UInt16 := UInt16.ofNat kind.ctorIdx

/-- The token kind of an operand; a number beyond the enumeration behaves as none of them. -/
def TokenKind.ofCode (code : UInt16) : TokenKind :=
  (([.INVALID, .EOF, .IDENT, .INT, .FLOAT, .STRING, .RUNE,
    .IMPORT, .PUB, .STRUCT, .UNION, .ENUM, .FN, .VAR, .CONST, .TYPE, .MUT, .IF, .ELSE, .FOR, .SWITCH,
    .CASE, .DEFAULT, .BREAK, .CONTINUE, .RETURN, .DEFER, .ASSERT, .SIZEOF, .ALLOC, .DEALLOC,
    .TRUE, .FALSE, .IN, .AS, .CONTEXT, .ANYTYPE,
    .LPAREN, .RPAREN, .LBRACE, .RBRACE, .LBRACK, .RBRACK, .COMMA, .DOT, .ELLIPSIS, .SEMICOLON, .COLON, .AT,
    .SHORT_ASSIGN, .ASSIGN, .ADD, .SUB, .MUL, .DIV, .MOD, .AND, .OR, .XOR, .NOT, .LSHIFT, .RSHIFT,
    .EQ, .NEQ, .LT, .GT, .LTE, .GTE, .LOGICAL_AND, .LOGICAL_OR,
    .ADD_ASSIGN, .SUB_ASSIGN, .MUL_ASSIGN, .DIV_ASSIGN, .MOD_ASSIGN, .AND_ASSIGN, .OR_ASSIGN,
    .XOR_ASSIGN, .LSHIFT_ASSIGN, .RSHIFT_ASSIGN, .QUESTION, .NULL] : List TokenKind)[code.toNat]?).getD .INVALID

theorem TokenKind.ofCode_code (kind : TokenKind) : TokenKind.ofCode kind.code = kind := by
  cases kind <;> rfl

def callArgFlagReceiverArg0 : UInt16 := 0x8000
def callArgFlagSpreadLast : UInt16 := 0x4000
def callArgFlagMask : UInt16 := callArgFlagReceiverArg0 ||| callArgFlagSpreadLast

/-- The number of arguments a call instruction says it takes: its operand without the two flag bits. -/
def callArgCountFromTok (tok : UInt16) : Nat := (tok &&& ~~~callArgFlagMask).toNat

def callTokDropsReceiverArg0 (tok : UInt16) : Bool := tok &&& callArgFlagReceiverArg0 ≠ 0

def iterFlagHasKey : UInt16 := 1
def iterFlagValueDiscard : UInt16 := 8

inductive MirConstKind
  | INVALID | INT | FLOAT | BOOL | STRING | NULL | TYPE | FUNCTION | HOST
  deriving DecidableEq, Repr

structure MirConst where
  kind : MirConstKind
  aux : UInt32
  bits : UInt64
  bytes : CTFEString
  deriving DecidableEq, Repr

/-- A reference that names no type. -/
def noTypeRef : UInt32 := 0xFFFFFFFF

structure MirLocal where
  typeRef : UInt32
  flags : UInt32
  nameStart : UInt32
  nameEnd : UInt32
  deriving DecidableEq, Repr

def functionFlagVariadic : UInt32 := 1
def functionFlagFunctionValueEntry : UInt32 := 2

structure MirFunction where
  instStart : UInt32
  instLen : UInt32
  sourceRef : UInt32
  localStart : UInt32
  localCount : UInt32
  paramCount : UInt32
  typeRef : UInt32
  nameStart : UInt32
  nameEnd : UInt32
  flags : UInt32
  captureCount : UInt32
  deriving DecidableEq, Repr

def MirFunction.isVariadic (fn : MirFunction) : Bool := fn.flags &&& functionFlagVariadic ≠ 0

def MirFunction.isFunctionValueEntry (fn : MirFunction) : Bool := fn.flags &&& functionFlagFunctionValueEntry ≠ 0

structure MirField where
  nameStart : UInt32
  nameEnd : UInt32
  deriving DecidableEq, Repr

structure MirTypeRef where
  astNode : UInt32
  sourceRef : UInt32
  flags : UInt32
  aux : UInt32
  deriving DecidableEq, Repr

inductive MirSymbolKind
  | INVALID | IDENT | CALL | HOST
  deriving DecidableEq, Repr

structure MirSymbolRef where
  nameStart : UInt32
  nameEnd : UInt32
  kind : MirSymbolKind
  deriving DecidableEq, Repr

/-- The target of a host reference that names none. -/
def hostTargetInvalid : UInt32 := 0

/-- A program: the tables the instructions refer to by index. Their lengths are 32-bit numbers. -/
structure MirProgram where
  insts : List MirInst
  consts : List MirConst
  sources : List (List UInt8)
  funcs : List MirFunction
  locals : List MirLocal
  fields : List MirField
  types : List MirTypeRef
  /-- The targets of the host references. -/
  hosts : List UInt32
  symbols : List MirSymbolRef
  lengths : ∀ n ∈ [insts.length, consts.length, sources.length, funcs.length, locals.length, fields.length,
    types.length, hosts.length, symbols.length], n < UInt32.size

/-- Whether the operand of an instruction is one the validator lets through. -/
def validateInst (program : MirProgram) (fn : MirFunction) (ins : MirInst) : Bool :=
  match ins.op with
  | .PUSH_CONST => ins.aux.toNat < program.consts.length
  | .LOAD_IDENT | .STORE_IDENT | .CALL => ins.aux.toNat < program.symbols.length
  | .CAST | .COERCE => ins.aux.toNat < program.types.length
  | .CALL_HOST => ins.aux.toNat < program.hosts.length
  | .AGG_GET | .AGG_ADDR => ins.aux.toNat < program.fields.length
  | .LOCAL_ZERO | .LOCAL_LOAD | .LOCAL_STORE | .LOCAL_ADDR => ins.aux < fn.localCount
  | .JUMP | .JUMP_IF_FALSE => ins.aux < fn.instLen
  | .CALL_FN => ins.aux.toNat < program.funcs.length
  | .MAKE_CLOSURE => (program.consts[ins.aux.toNat]?).any fun c => c.kind = .FUNCTION
  | .CAPTURE_LOAD | .CAPTURE_STORE | .CAPTURE_ADDR => ins.aux < fn.captureCount
  | _ => true

/-- The instructions a function claims: those of its range. -/
def MirFunction.code (program : MirProgram) (fn : MirFunction) : List MirInst :=
  (program.insts.drop fn.instStart.toNat).take fn.instLen.toNat

def MirFunction.localMeta (program : MirProgram) (fn : MirFunction) : List MirLocal :=
  (program.locals.drop fn.localStart.toNat).take fn.localCount.toNat

def mirDiag (start stop : UInt32) : Diag := ⟨.UNEXPECTED_TOKEN, start.toNat, stop.toNat⟩

/-- The checks of one function: its ranges, its source, the types of its locals, then its instructions in
order. `none` accepts. -/
def validateFunction (program : MirProgram) (fn : MirFunction) : Option Diag :=
  if program.insts.length < fn.instStart.toNat ∨ program.insts.length - fn.instStart.toNat < fn.instLen.toNat then
    some (mirDiag fn.nameStart fn.nameEnd)
  else if program.locals.length < fn.localStart.toNat
      ∨ program.locals.length - fn.localStart.toNat < fn.localCount.toNat ∨ fn.localCount < fn.paramCount then
    some (mirDiag fn.nameStart fn.nameEnd)
  else if program.sources.length ≤ fn.sourceRef.toNat then
    some (mirDiag fn.nameStart fn.nameEnd)
  else if (fn.localMeta program).any fun l => l.typeRef ≠ noTypeRef ∧ program.types.length ≤ l.typeRef.toNat then
    some (mirDiag fn.nameStart fn.nameEnd)
  else
    ((fn.code program).find? fun ins => !validateInst program fn ins).map fun ins => mirDiag ins.start ins.stop

/-- `H2MirValidateProgram`: the diagnostic of the first function that fails, `none` when all pass. -/
def validateProgram (program : MirProgram) : Option Diag :=
  program.funcs.findSome? (validateFunction program)

end HopHop
