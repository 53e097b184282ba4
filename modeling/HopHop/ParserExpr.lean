import HopHop.ParserType

namespace HopHop

namespace Parser

variable (p : Parser) (enter : Enter)

/-- The dotted path of a field of a compound literal. Tells whether it has more than one name. -/
def parseFieldPath (field : Nat) : Parse Bool :=
  .loop (fun hasDottedPath => do
    if ← p.matchTok .DOT then
      let seg ← p.expect .IDENT .UNEXPECTED_TOKEN
      p.setNode field fun n => { n with dataEnd := seg.stop }
      pure (.inl true)
    else pure (.inr hasDottedPath)) p.rounds false

/-- The separator of a literal's items was met, and another item may follow. -/
def moreItems (close : TokenKind) : Parse Bool := do
  let separated ← if ← p.matchTok .COMMA then pure true else p.matchTok .SEMICOLON
  if separated then
    let closed ← p.isAt close
    pure !closed
  else pure false

def parseCompoundField (lit : Nat) : Parse Unit := do
  let fieldName ← p.expect .IDENT .UNEXPECTED_TOKEN
  let field ← p.newNode .COMPOUND_FIELD fieldName.start fieldName.stop
  p.setData field fieldName
  let hasDottedPath ← p.parseFieldPath field
  if ← p.matchTok .COLON then
    let expr ← enter (.expr 1)
    p.addChild field expr
    let exprNode ← p.node expr
    p.setEnd field exprNode.stop
  else if hasDottedPath then p.failWith .UNEXPECTED_TOKEN
  else p.addFlags field AstFlag.COMPOUND_FIELD_SHORTHAND
  p.addChild lit field

def parseCompoundLiteralTail (typeNode : Option Nat) : Parse Nat := do
  let lb ← p.expect .LBRACE .EXPECTED_EXPR
  let start ← match typeNode with
    | some t => do
      let n ← p.node t
      pure n.start
    | none => pure lb.start
  let lit ← p.newNode .COMPOUND_LIT start lb.stop
  match typeNode with
  | some t => p.addChild lit t
  | none => pure ()
  .loop (fun _ : Unit => do
    if (← p.isAt .RBRACE) || (← p.isAt .EOF) then pure (.inr ())
    else
      p.parseCompoundField enter lit
      if ← p.moreItems .RBRACE then pure (.inl ()) else pure (.inr ())) p.rounds ()
  let rb ← p.expect .RBRACE .UNEXPECTED_TOKEN
  p.setEnd lit rb.stop
  pure lit

def parseArrayLiteral : Parse Nat := do
  let lb ← p.expect .LBRACK .EXPECTED_EXPR
  let lit ← p.newNode .ARRAY_LIT lb.start lb.stop
  .loop (fun _ : Unit => do
    if (← p.isAt .RBRACK) || (← p.isAt .EOF) then pure (.inr ())
    else
      let elem ← enter (.expr 1)
      p.addChild lit elem
      if ← p.moreItems .RBRACK then pure (.inl ()) else pure (.inr ())) p.rounds ()
  let rb ← p.expect .RBRACK .EXPECTED_EXPR
  p.setEnd lit rb.stop
  pure lit

def addOptionalChild (parent : Nat) : Option Nat → Parse Unit
  | some child => p.addChild parent child
  | none => pure ()

/-- `[T count]`, tried before an array literal. Gives the type, the count and the closing bracket. -/
def parseAllocCount : Parse (Nat × Nat × Token) := do
  let typeNode ← enter .type
  let countNode ← enter (.expr 1)
  let rb ← p.expect .RBRACK .EXPECTED_EXPR
  pure (typeNode, countNode, rb)

/-- What is allocated: the type, the count and the initial value, as far as they are written. -/
def parseAllocTarget (n : Nat) : Parse (Option Nat × Option Nat × Option Nat) := do
  let start ← .get
  if ← p.matchTok .LBRACK then
    let saved ← .get
    match ← .attempt (p.parseAllocCount enter) with
    | some (typeNode, countNode, rb) =>
      p.addFlags n AstFlag.ALLOC_HAS_COUNT
      p.setEnd n rb.stop
      pure (some typeNode, some countNode, none)
    | none =>
      p.rewind { saved with pos := start.pos } saved.diag
      let initNode ← p.parseArrayLiteral enter
      p.addFlags n AstFlag.ALLOC_HAS_ARRAY_LIT
      let init ← p.node initNode
      p.setEnd n init.stop
      pure (none, none, some initNode)
  else
    let typeNode ← enter .type
    let type ← p.node typeNode
    p.setEnd n type.stop
    if ← p.isAt .LBRACE then
      let initNode ← p.parseCompoundLiteralTail enter none
      p.addFlags n AstFlag.ALLOC_HAS_INIT
      let init ← p.node initNode
      p.setEnd n init.stop
      pure (some typeNode, none, some initNode)
    else pure (some typeNode, none, none)

def parseAllocExpr : Parse Nat := do
  let kw ← p.prev
  let n ← p.newNode .ALLOC kw.start kw.stop
  let (typeNode, countNode, initNode) ← p.parseAllocTarget enter n
  let allocNode ← if ← p.matchTok .IN then do
      let allocNode ← enter (.expr 1)
      p.addFlags n AstFlag.ALLOC_HAS_EXPLICIT_ALLOCATOR
      let alloc ← p.node allocNode
      p.setEnd n alloc.stop
      pure (some allocNode)
    else pure none
  p.addOptionalChild n typeNode
  p.addOptionalChild n countNode
  p.addOptionalChild n initNode
  p.addOptionalChild n allocNode
  pure n

/-- Some child of the function is a variadic parameter. -/
def anyVariadic (nodes : List AstNode) : Nat → Int → Option Bool
  | room, child =>
    if child < 0 then some false
    else
      let n := nodeAt nodes child.toNat
      if n.kind = .PARAM ∧ n.has AstFlag.PARAM_VARIADIC then some true
      else
        match room with
        | 0 => none
        | room + 1 => anyVariadic nodes room n.nextSibling

def fnHasVariadicParam (fnNode : Nat) : Parse Bool := fun s =>
  match anyVariadic s.nodes s.nodes.length (nodeAt s.nodes fnNode).firstChild with
  | none => .outOfFuel
  | some found => .ok found s

/-- The names of a group of parameters, each a node of its own, linked in their order. The last name goes with them. -/
def parseParamNames (isConstGroup : Bool) : Parse (List Nat × Token) :=
  .loop (fun params : List Nat => do
    let name ← p.expectDeclName true
    let param ← p.newNode .PARAM name.start name.stop
    p.setData param name
    match params.getLast? with
    | some lastParam => p.setNode lastParam fun n => { n with nextSibling := param }
    | none => pure ()
    if ← p.matchTok .COMMA then
      if isConstGroup then p.failWith .CONST_PARAM_GROUPED_NAME_INVALID
      else if ← p.isAt .IDENT then pure (.inl (params ++ [param]))
      else p.failWith .UNEXPECTED_TOKEN
    else pure (.inr (params ++ [param], name))) p.rounds []

/-- The `...` of a group of parameters, checked against the parameters before it. -/
def parseVariadicMark (single hasExistingVariadic : Bool) : Parse Bool := do
  if ← p.matchTok .ELLIPSIS then
    if !single then p.failWith .UNEXPECTED_TOKEN
    else if hasExistingVariadic then p.failWith .VARIADIC_PARAM_DUPLICATE
    else pure true
  else if hasExistingVariadic then p.failWith .VARIADIC_PARAM_NOT_LAST
  else pure false

/-- The flags of a parameter. -/
def paramFlags (isVariadic isConstGroup : Bool) : UInt32 :=
  (if isVariadic then AstFlag.PARAM_VARIADIC else 0) ||| (if isConstGroup then AstFlag.PARAM_CONST else 0)

/-- Gives a parameter its type, the first one of the group the type itself and the others a copy. -/
def setParamType (type : Nat) (isVariadic isConstGroup : Bool) (i param : Nat) : Parse Unit := do
  let typeNode ← if i = 0 then pure type else p.clone type
  p.addChild param typeNode
  p.addFlags param (paramFlags isVariadic isConstGroup)
  let t ← p.node typeNode
  p.setEnd param t.stop

def parseParamGroup (fnNode : Nat) (allowMissingType : Bool) : Parse Unit := do
  let isConstGroup ← p.matchTok .CONST
  let hasExistingVariadic ← fnHasVariadicParam fnNode
  let (params, lastName) ← p.parseParamNames isConstGroup
  let isVariadic ← p.parseVariadicMark (params.length = 1) hasExistingVariadic
  let t ← p.peek
  if !isTypeStart t.kind then
    if allowMissingType && !isVariadic then
      forEach (fun param => p.addFlags param (paramFlags false isConstGroup)) params
      p.addChild fnNode (params.headD 0)
    else
      .failing fun s =>
        s.setDiagWithArg .PARAM_MISSING_TYPE lastName.start lastName.stop lastName.start lastName.stop
  else
    let type ← enter .type
    forEach (fun (param, i) => p.setParamType type isVariadic isConstGroup i param) params.zipIdx
    p.addChild fnNode (params.headD 0)

/-- The parameters of a function, between its parentheses. -/
def parseParams (fnNode : Nat) (allowMissingType : Bool) : Parse Unit := do
  if !(← p.isAt .RPAREN) then
    p.commaLoop (fun _ => p.parseParamGroup enter fnNode allowMissingType) ()

/-- The result of a function: a clause in parentheses or a single type. -/
def parseFnResult (fnNode : Nat) : Parse Unit := do
  if ← p.isAt .LPAREN then p.parseFnResultClause enter fnNode
  else
    let retType ← enter .type
    p.setFlags retType 1
    p.addChild fnNode retType
    let ret ← p.node retType
    p.setEnd fnNode ret.stop

def parseBlock : Parse Nat := do
  let lb ← p.expect .LBRACE .UNEXPECTED_TOKEN
  let block ← p.newNode .BLOCK lb.start lb.stop
  .loop (fun _ : Unit => do
    if (← p.isAt .RBRACE) || (← p.isAt .EOF) then pure (.inr ())
    else if ← p.isAt .SEMICOLON then
      p.advance
      pure (.inl ())
    else
      let stmt ← enter .stmt
      p.addChild block stmt
      pure (.inl ())) p.rounds ()
  let rb ← p.expect .RBRACE .UNEXPECTED_TOKEN
  p.setEnd block rb.stop
  pure block

/-- The body of a function, its last child. -/
def parseFnBody (fn : Nat) : Parse Unit := do
  let body ← p.parseBlock enter
  p.addChild fn body
  let block ← p.node body
  p.setEnd fn block.stop

def parseAnonFnExpr : Parse Nat := do
  let kw ← p.expect .FN .EXPECTED_EXPR
  let fn ← p.newNode .ANON_FN kw.start kw.stop
  let _ ← p.expect .LPAREN .UNEXPECTED_TOKEN
  p.parseParams enter fn true
  let rp ← p.expect .RPAREN .UNEXPECTED_TOKEN
  p.setEnd fn rp.stop
  if !(← p.isAt .LBRACE) then p.parseFnResult enter fn
  p.parseFnBody enter fn
  pure fn

/-- A node for a single token, which is its text too. -/
def newLeaf (kind : AstKind) (t : Token) : Parse Nat := do
  let n ← p.newNode kind t.start t.stop
  p.setData n t
  pure n

/-- A compound literal with a type in front, when one starts here. -/
def parseTypedLiteral : Parse (Option Nat) := do
  let saved ← .get
  match ← .attempt (p.parseTypeName enter) with
  | some typeNode =>
    let s ← .get
    let t ← p.peek
    if t.kind = .LBRACE ∧ t.start = (nodeAt s.nodes typeNode).stop then
      let lit ← p.parseCompoundLiteralTail enter (some typeNode)
      pure (some lit)
    else
      p.restore saved
      pure none
  | none =>
    p.restore saved
    pure none

/-- What follows the `(` of a parenthesized expression or of a tuple. -/
def parseParen : Parse Nat := do
  let lp ← p.prev
  let first ← enter (.expr 1)
  if !(← p.matchTok .COMMA) then
    let _ ← p.expect .RPAREN .EXPECTED_EXPR
    p.addFlags first AstFlag.PAREN
    pure first
  else
    let items ← p.commaLoop (p.pushItem (enter (.expr 1))) [first]
    let rp ← p.expect .RPAREN .EXPECTED_EXPR
    let tupleExpr ← p.newNode .TUPLE_EXPR lp.start rp.stop
    p.addChildren tupleExpr items
    pure tupleExpr

/-- A type and the closing parenthesis behind it, without taking the parenthesis. -/
def parseSizeofType : Parse (Option Nat) := do
  match ← .attempt (enter .type) with
  | some inner => if ← p.isAt .RPAREN then pure (some inner) else pure none
  | none => pure none

def parseSizeof : Parse Nat := do
  let kw ← p.prev
  let lp ← p.expect .LPAREN .EXPECTED_EXPR
  let n ← p.newNode .SIZEOF kw.start lp.stop
  let saved ← .get
  match ← p.parseSizeofType enter with
  | some inner =>
    p.setFlags n 1
    p.addChild n inner
  | none =>
    p.rewind saved ⟨⟨.NONE, 0, 0⟩, 0, 0⟩
    let inner ← enter (.expr 1)
    p.setFlags n 0
    p.addChild n inner
  let rp ← p.expect .RPAREN .EXPECTED_EXPR
  p.setEnd n rp.stop
  pure n

/-- `type T` as a value. -/
def parseTypeValue : Parse Nat := do
  p.advance
  let t ← p.prev
  let n ← p.newNode .TYPE_VALUE t.start t.stop
  let typeNode ← enter .type
  let type ← p.node typeNode
  p.setEnd n type.stop
  p.addChild n typeNode
  pure n

/-- `struct { ... }` as a literal. -/
def parseStructLiteral : Parse Nat := do
  let kw ← p.prev
  let lit ← p.parseCompoundLiteralTail enter none
  p.setNode lit fun n => { n with start := kw.start }
  p.addFlags lit AstFlag.COMPOUND_LIT_EXPLICIT_STRUCT
  pure lit

/-- The kind of the node for a token that is a literal by itself. -/
def literalKind : TokenKind → Option AstKind
  | .INT => some .INT
  | .FLOAT => some .FLOAT
  | .STRING => some .STRING
  | .RUNE => some .RUNE
  | .TRUE | .FALSE => some .BOOL
  | _ => none

/-- The primary expressions that do not begin with a name. -/
def parsePrimaryToken : Parse Nat := do
  let t ← p.peek
  let s ← .get
  if t.kind = .LBRACE then p.parseCompoundLiteralTail enter none
  else if ← p.matchTok .STRUCT then p.parseStructLiteral enter
  else if t.kind = .TYPE ∧ s.pos + 1 < p.tokLen ∧ isTypeStart (p.tokAt (s.pos + 1)).kind then p.parseTypeValue enter
  else if t.kind = .IDENT ∨ t.kind = .TYPE then
    p.advance
    let t ← p.prev
    p.newLeaf .IDENT t
  else
    match literalKind t.kind with
    | some kind =>
      p.advance
      p.newLeaf kind t
    | none =>
      if ← p.matchTok .NULL then
        let t ← p.prev
        p.newNode .NULL t.start t.stop
      else if ← p.matchTok .LPAREN then p.parseParen enter
      else if ← p.isAt .LBRACK then p.parseArrayLiteral enter
      else if ← p.isAt .FN then p.parseAnonFnExpr enter
      else if ← p.matchTok .SIZEOF then p.parseSizeof enter
      else if ← p.matchTok .ALLOC then p.parseAllocExpr enter
      else p.failWith .EXPECTED_EXPR

def parsePrimary : Parse Nat := do
  if ← p.isAt .IDENT then
    match ← p.parseTypedLiteral enter with
    | some lit => pure lit
    | none => p.parsePrimaryToken enter
  else p.parsePrimaryToken enter

/-- One argument of a call, with its label and its spread. -/
def parseCallArg (n : Nat) : Parse Unit := do
  let s ← .get
  let first ← p.peek
  let labelled := first.kind = .IDENT ∧ s.pos + 1 < p.tokLen ∧ (p.tokAt (s.pos + 1)).kind = .COLON
  if labelled then
    p.advance
    p.advance
  let arg ← enter (.expr 1)
  let spread ← p.matchTok .ELLIPSIS
  let last ← p.prev
  let argExpr ← p.node arg
  let argNode ← p.newNode .CALL_ARG first.start (if spread then last.stop else argExpr.stop)
  if labelled then p.setData argNode first
  if spread then p.addFlags argNode AstFlag.CALL_ARG_SPREAD
  p.addChild argNode arg
  p.addChild n argNode

/-- A node for a postfix form, with its operand. -/
def newPostfix (kind : AstKind) (expr : Nat) : Parse Nat := do
  let operand ← p.node expr
  let t ← p.prev
  let n ← p.newNode kind operand.start t.stop
  p.addChild n expr
  pure n

def closePostfix (n : Nat) (close : TokenKind) : Parse Nat := do
  let t ← p.expect close .EXPECTED_EXPR
  p.setEnd n t.stop
  pure n

def parseCall (expr : Nat) : Parse Nat := do
  let n ← p.newPostfix .CALL expr
  if !(← p.isAt .RPAREN) then p.commaLoop (fun _ => p.parseCallArg enter n) ()
  p.closePostfix n .RPAREN

/-- The end of a slice, when it is written. -/
def parseSliceEnd (n : Nat) : Parse Unit := do
  if !(← p.isAt .RBRACK) then
    let endExpr ← enter (.expr 1)
    p.addFlags n AstFlag.INDEX_HAS_END
    p.addChild n endExpr

def parseIndex (expr : Nat) : Parse Nat := do
  let n ← p.newPostfix .INDEX expr
  if ← p.matchTok .COLON then
    p.addFlags n AstFlag.INDEX_SLICE
    p.parseSliceEnd enter n
  else
    let firstExpr ← enter (.expr 1)
    if ← p.matchTok .COLON then
      p.addFlags n (AstFlag.INDEX_SLICE ||| AstFlag.INDEX_HAS_START)
      p.addChild n firstExpr
      p.parseSliceEnd enter n
    else p.addChild n firstExpr
  p.closePostfix n .RBRACK

def parseFieldAccess (expr : Nat) : Parse Nat := do
  let n ← p.newPostfix .FIELD_EXPR expr
  let fieldTok ← p.expect .IDENT .EXPECTED_EXPR
  p.setData n fieldTok
  p.setEnd n fieldTok.stop
  pure n

def parseCast (expr : Nat) : Parse Nat := do
  let n ← p.newPostfix .CAST expr
  p.setNode n fun node => { node with op := .AS }
  let typeNode ← enter .type
  p.addChild n typeNode
  let type ← p.node typeNode
  p.setEnd n type.stop
  pure n

/-- One postfix form, when there is one. -/
def parsePostfixStep (expr : Nat) : Parse (Nat ⊕ Nat) := do
  if ← p.matchTok .LPAREN then
    let n ← p.parseCall enter expr
    pure (.inl n)
  else if ← p.matchTok .LBRACK then
    let n ← p.parseIndex enter expr
    pure (.inl n)
  else if ← p.matchTok .DOT then
    let n ← p.parseFieldAccess expr
    pure (.inl n)
  else if ← p.matchTok .AS then
    let n ← p.parseCast enter expr
    pure (.inl n)
  else if ← p.matchTok .NOT then
    let n ← p.newPostfix .UNWRAP expr
    pure (.inl n)
  else pure (.inr expr)

def parsePostfix (expr : Nat) : Parse Nat := .loop (p.parsePostfixStep enter) p.rounds expr

def isPrefixOp (kind : TokenKind) : Bool :=
  kind = .ADD || kind = .SUB || kind = .NOT || kind = .MUL || kind = .AND

def parsePrefix : Parse Nat := do
  let t ← p.peek
  if isPrefixOp t.kind then
    p.advance
    let rhs ← enter .prefixed
    let rhsNode ← p.node rhs
    let n ← p.newNode .UNARY t.start rhsNode.stop
    p.setNode n fun node => { node with op := t.kind }
    p.addChild n rhs
    pure n
  else
    let primary ← p.parsePrimary enter
    p.parsePostfix enter primary

def isPostfixOperatorBoundary : TokenKind → Bool
  | .LBRACE | .RBRACE | .RPAREN | .RBRACK | .COMMA | .SEMICOLON | .EOF => true
  | _ => false

/-- `++` or `--` stands here as if it were a postfix operator. -/
def invalidAdjacentPostfix (pos : Nat) (op : TokenKind) : Bool :=
  pos + 2 < p.tokLen && (p.tokAt pos).kind = op && (p.tokAt (pos + 1)).kind = op
    && (p.tokAt pos).stop = (p.tokAt (pos + 1)).start && isPostfixOperatorBoundary (p.tokAt (pos + 2)).kind

/-- One binary operator with its right operand, when one binds at least as tight as `minPrec`. -/
def parseBinaryStep (minPrec lhs : Nat) : Parse (Nat ⊕ Nat) := do
  let t ← p.peek
  let s ← .get
  let prec := binPrec t.kind
  if (t.kind = .ADD ∨ t.kind = .SUB) ∧ p.invalidAdjacentPostfix s.pos t.kind then
    let first := p.tokAt s.pos
    let second := p.tokAt (s.pos + 1)
    .failing fun s => s.setDiagWithArg .INVALID_POSTFIX_OPERATOR first.start second.stop first.start second.stop
  else if prec < minPrec ∨ prec = 0 then pure (.inr lhs)
  else
    p.advance
    let rhs ← enter (.expr (if isAssignmentOp t.kind then prec else prec + 1))
    let lhsNode ← p.node lhs
    let rhsNode ← p.node rhs
    let n ← p.newNode .BINARY lhsNode.start rhsNode.stop
    p.setNode n fun node => { node with op := t.kind }
    p.addChild n lhs
    p.addChild n rhs
    pure (.inl n)

def parseExpr (minPrec : Nat) : Parse Nat := do
  let lhs ← p.parsePrefix enter
  .loop (p.parseBinaryStep enter minPrec) p.rounds lhs

end Parser

end HopHop
