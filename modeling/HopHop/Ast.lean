import HopHop.Token

namespace HopHop

/-- Node kinds of the syntax tree, in the order of the source enumeration. -/
inductive AstKind
  | FILE | IMPORT | IMPORT_SYMBOL | DIRECTIVE | PUB | FN | ANON_FN | PARAM | TYPE_PARAM | CONTEXT_CLAUSE
  | TYPE_NAME | TYPE_PTR | TYPE_REF | TYPE_MUTREF | TYPE_ARRAY | TYPE_VARRAY | TYPE_SLICE | TYPE_MUTSLICE
  | TYPE_OPTIONAL | TYPE_FN | TYPE_ALIAS | TYPE_ANON_STRUCT | TYPE_ANON_UNION | TYPE_TUPLE | STRUCT | UNION
  | ENUM | FIELD | BLOCK | VAR | CONST | CONST_BLOCK | IF | FOR | SWITCH | CASE | CASE_PATTERN | DEFAULT
  | RETURN | BREAK | CONTINUE | DEFER | ASSERT | DEALLOC | EXPR_STMT | MULTI_ASSIGN | SHORT_ASSIGN | NAME_LIST
  | EXPR_LIST | TUPLE_EXPR | TYPE_VALUE | IDENT | INT | FLOAT | STRING | RUNE | BOOL | UNARY | BINARY | CALL
  | CALL_ARG | CALL_WITH_CONTEXT | CONTEXT_OVERLAY | CONTEXT_BIND | COMPOUND_LIT | COMPOUND_FIELD | ARRAY_LIT
  | INDEX | FIELD_EXPR | CAST | SIZEOF | ALLOC | NULL | UNWRAP
  deriving DecidableEq, Repr

/-- A node of the syntax tree. A link of `-1` leads nowhere. -/
structure AstNode where
  start : Nat
  stop : Nat
  firstChild : Int
  nextSibling : Int
  dataStart : Nat
  dataEnd : Nat
  op : TokenKind
  kind : AstKind
  flags : UInt32
  deriving DecidableEq, Repr

/-- What a fresh entry of the node table holds, its kind apart. -/
def AstNode.fresh (kind : AstKind) (start stop : Nat) : AstNode :=
  ⟨start, stop, -1, -1, 0, 0, .INVALID, kind, 0⟩

namespace AstFlag

def PUB : UInt32 := 0x8000
def INDEX_SLICE : UInt32 := 0x0001
def INDEX_HAS_START : UInt32 := 0x0002
def INDEX_HAS_END : UInt32 := 0x0004
def INDEX_RUNTIME_BOUNDS : UInt32 := 0x0008
def FIELD_EMBEDDED : UInt32 := 0x0010
def CALL_WITH_CONTEXT_PASSTHROUGH : UInt32 := 0x0020
def ALLOC_HAS_COUNT : UInt32 := 0x0040
def ALLOC_HAS_EXPLICIT_ALLOCATOR : UInt32 := 0x0080
def ALLOC_HAS_INIT : UInt32 := 0x0100
def PAREN : UInt32 := 0x0200
def COMPOUND_FIELD_SHORTHAND : UInt32 := 0x0400
def CONTEXT_BIND_SHORTHAND : UInt32 := 0x0800
def PARAM_VARIADIC : UInt32 := 0x1000
def CALL_ARG_SPREAD : UInt32 := 0x2000
def PARAM_CONST : UInt32 := 0x4000
def FOR_IN : UInt32 := 0x00010000
def FOR_IN_HAS_KEY : UInt32 := 0x00020000
def FOR_IN_KEY_REF : UInt32 := 0x00040000
def FOR_IN_VALUE_REF : UInt32 := 0x00080000
def FOR_IN_VALUE_DISCARD : UInt32 := 0x00200000
def DEALLOC_HAS_EXPLICIT_ALLOCATOR : UInt32 := 0x00400000
def ALLOC_HAS_ARRAY_LIT : UInt32 := 0x00800000
def COMPOUND_LIT_EXPLICIT_STRUCT : UInt32 := 0x01000000
def FN_LOCAL : UInt32 := 0x02000000

end AstFlag

def AstNode.has (n : AstNode) (flag : UInt32) : Bool := n.flags &&& flag ≠ 0

/-- A syntax tree: the table of its nodes and the index of its root. -/
structure Ast where
  nodes : List AstNode
  root : Int
  deriving DecidableEq, Repr

def Ast.len (ast : Ast) : Nat := ast.nodes.length

/-- `ast->nodes[id]`. -/
def Ast.node (ast : Ast) (id : Int) : AstNode := ast.nodes.getD id.toNat (.fresh .FILE 0 0)

/-- The index names an entry of the table. -/
def Ast.inTable (ast : Ast) (id : Int) : Prop := 0 ≤ id ∧ id.toNat < ast.len

instance (ast : Ast) (id : Int) : Decidable (ast.inTable id) :=
  inferInstanceAs (Decidable (0 ≤ id ∧ id.toNat < ast.len))

end HopHop
