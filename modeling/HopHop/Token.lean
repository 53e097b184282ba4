import HopHop.Bytes

namespace HopHop

/-- Token kinds, in the order of the source enumeration. -/
inductive TokenKind
  | INVALID | EOF | IDENT | INT | FLOAT | STRING | RUNE
  | IMPORT | PUB | STRUCT | UNION | ENUM | FN | VAR | CONST | TYPE | MUT | IF | ELSE | FOR | SWITCH
  | CASE | DEFAULT | BREAK | CONTINUE | RETURN | DEFER | ASSERT | SIZEOF | ALLOC | DEALLOC
  | TRUE | FALSE | IN | AS | CONTEXT | ANYTYPE
  | LPAREN | RPAREN | LBRACE | RBRACE | LBRACK | RBRACK | COMMA | DOT | ELLIPSIS | SEMICOLON | COLON | AT
  | SHORT_ASSIGN | ASSIGN | ADD | SUB | MUL | DIV | MOD | AND | OR | XOR | NOT | LSHIFT | RSHIFT
  | EQ | NEQ | LT | GT | LTE | GTE | LOGICAL_AND | LOGICAL_OR
  | ADD_ASSIGN | SUB_ASSIGN | MUL_ASSIGN | DIV_ASSIGN | MOD_ASSIGN | AND_ASSIGN | OR_ASSIGN
  | XOR_ASSIGN | LSHIFT_ASSIGN | RSHIFT_ASSIGN
  | QUESTION | NULL
  deriving DecidableEq, Repr

/-- A token covers the bytes `[start, stop)` of the source. -/
structure Token where
  kind : TokenKind
  start : Nat
  stop : Nat
  deriving DecidableEq, Repr

/-- Diagnostic codes raised by the scanner, the literal decoder and the parser. -/
inductive DiagCode
  | NONE | ARENA_OOM | UNEXPECTED_CHAR | INVALID_NUMBER | UNTERMINATED_BLOCK_COMMENT
  | UNTERMINATED_STRING | INVALID_STRING_ESCAPE | INVALID_STRING_CODEPOINT | INVALID_UTF8_STRING
  | UNTERMINATED_RUNE | EMPTY_RUNE | RUNE_CODEPOINT_COUNT | INVALID_RUNE_ESCAPE
  | INVALID_RUNE_CODEPOINT | INVALID_UTF8_RUNE
  | UNEXPECTED_TOKEN | EXPECTED_DECL | EXPECTED_EXPR | EXPECTED_TYPE | RESERVED_NAME
  | RESERVED_HOP_PREFIX | VARIADIC_PARAM_DUPLICATE | VARIADIC_PARAM_NOT_LAST
  | CONST_PARAM_GROUPED_NAME_INVALID | PARAM_MISSING_TYPE | INVALID_POSTFIX_OPERATOR
  | IMPORT_WILDCARD_NOT_SUPPORTED
  | DUPLICATE_SYMBOL | UNKNOWN_SYMBOL | UNKNOWN_TYPE | TYPE_MISMATCH | ARITY_MISMATCH
  | ANYTYPE_INVALID_POSITION | CONST_NUMERIC_INVALID_POSITION | CONST_NUMERIC_PARAM_REQUIRES_CONST
  | GENERIC_TYPE_ARITY_MISMATCH | GENERIC_TYPE_ARGS_REQUIRED | GENERIC_FN_TYPE_ARGS_FORBIDDEN
  | VAR_SIZE_BYVALUE_FORBIDDEN | ARRAY_LEN_CONST_REQUIRED | PARAM_ANON_AFTER_NAMED
  | CALL_FIRST_ARG_NAME_MISMATCH | CALL_ARG_NAME_REQUIRED | CALL_ARG_NAME_REQUIRED_AFTER_PARAM
  | CALL_ARG_DUPLICATE | CALL_ARG_UNKNOWN_NAME | CALL_ARG_MISSING | VARIADIC_SPREAD_NOT_LAST
  | VARIADIC_CALL_SHAPE_MISMATCH | VARIADIC_SPREAD_NON_SLICE | VARIADIC_ARG_TYPE_MISMATCH
  | CONST_PARAM_ARG_NOT_CONST | CONST_PARAM_SPREAD_NOT_CONST | CONST_BLOCK_EVAL_FAILED
  | ANYTYPE_SPREAD_REQUIRES_PACK | NOT_CALLABLE | COMPOUND_MUT_REF_TEMPORARY
  | NO_MATCHING_OVERLOAD | AMBIGUOUS_CALL | COMPOUND_INFER_AMBIGUOUS
  deriving DecidableEq, Repr

/-- A diagnostic and the source range it points at. -/
structure Diag where
  code : DiagCode
  start : Nat
  stop : Nat
  deriving DecidableEq, Repr

/-- Keyword lookup on the bytes of an identifier. -/
def keywordKind (s : List UInt8) : TokenKind :=
  if s = bytesOf "as" then .AS
  else if s = bytesOf "in" then .IN
  else if s = bytesOf "fn" then .FN
  else if s = bytesOf "if" then .IF
  else if s = bytesOf "for" then .FOR
  else if s = bytesOf "var" then .VAR
  else if s = bytesOf "mut" then .MUT
  else if s = bytesOf "pub" then .PUB
  else if s = bytesOf "enum" then .ENUM
  else if s = bytesOf "else" then .ELSE
  else if s = bytesOf "case" then .CASE
  else if s = bytesOf "true" then .TRUE
  else if s = bytesOf "null" then .NULL
  else if s = bytesOf "type" then .TYPE
  else if s = bytesOf "alloc" then .ALLOC
  else if s = bytesOf "break" then .BREAK
  else if s = bytesOf "const" then .CONST
  else if s = bytesOf "defer" then .DEFER
  else if s = bytesOf "false" then .FALSE
  else if s = bytesOf "union" then .UNION
  else if s = bytesOf "import" then .IMPORT
  else if s = bytesOf "sizeof" then .SIZEOF
  else if s = bytesOf "return" then .RETURN
  else if s = bytesOf "switch" then .SWITCH
  else if s = bytesOf "struct" then .STRUCT
  else if s = bytesOf "assert" then .ASSERT
  else if s = bytesOf "dealloc" then .DEALLOC
  else if s = bytesOf "anytype" then .ANYTYPE
  else if s = bytesOf "default" then .DEFAULT
  else if s = bytesOf "continue" then .CONTINUE
  else .IDENT

/-- Token kinds after which a newline or the end of input inserts a semicolon. -/
def tokenCanEndStmt : TokenKind → Bool
  | .IDENT | .INT | .FLOAT | .STRING | .RUNE | .TRUE | .FALSE | .BREAK | .CONTINUE | .RETURN
  | .RPAREN | .RBRACK | .RBRACE | .NOT | .NULL | .TYPE => true
  | _ => false

end HopHop
