import HopHop.ParserExpr

namespace HopHop

namespace Parser

variable (p : Parser) (enter : Enter)

def buildListNode (kind : AstKind) (items : List Nat) : Parse Nat := do
  match items.head?, items.getLast? with
  | some first, some last =>
    let firstNode ← p.node first
    let lastNode ← p.node last
    let n ← p.newNode kind firstNode.start lastNode.stop
    p.addChildren n items
    pure n
  | _, _ => p.failWith .EXPECTED_EXPR

def parseExprList : Parse Nat := do
  let first ← enter (.expr 1)
  let items ← p.whileComma (p.pushItem (enter (.expr 1))) [first]
  p.buildListNode .EXPR_LIST items

/-- The first of the names that is `_`. -/
def firstHole (names : List Token) : Option Token := names.find? p.isHoleName

def parseDeclNameList (allowHole : Bool) : Parse (List Token) := do
  let first ← p.expectDeclName allowHole
  p.whileComma (fun names => do
    if itemCap ≤ names.length then p.failWith .ARENA_OOM
    else if ← p.isAt .IDENT then
      let name ← p.expectDeclName allowHole
      pure (names ++ [name])
    else p.failWith .UNEXPECTED_TOKEN) [first]

/-- A leaf for every name. -/
def newNameNodes : List Token → Parse (List Nat)
  | [] => pure []
  | name :: names => do
    let n ← p.newLeaf .IDENT name
    let rest ← newNameNodes names
    pure (n :: rest)

def buildNameListNode (names : List Token) : Parse Nat := do
  let items ← p.newNameNodes names
  p.buildListNode .NAME_LIST items

/-- The token that ends a statement: a semicolon, or none before a closing brace. -/
def consumeStmtTerminator : Parse (Option Token) := do
  if ← p.isAt .SEMICOLON then
    let semi ← p.peek
    p.advance
    pure (some semi)
  else if ← p.isAt .RBRACE then pure none
  else p.failWith .UNEXPECTED_TOKEN

/-- Ends a statement; the node covers its semicolon. -/
def finishStmt (n : Nat) : Parse Nat := do
  match ← p.consumeStmtTerminator with
  | some semi => p.setEnd n semi.stop
  | none => pure ()
  pure n

/-- One initializer, or as many as there are names. -/
def parseInit (nameCount : Nat) : Parse Nat :=
  if nameCount = 1 then enter (.expr 1) else p.parseExprList enter

/-- `var _ = init`, which is an expression statement. -/
def parseDiscard (stmtStart : Nat) (hole : Token) (requireSemi : Bool) : Parse Nat := do
  if ← p.matchTok .ASSIGN then
    let init ← enter (.expr 1)
    if !requireSemi then pure init
    else
      let semi ← p.consumeStmtTerminator
      let initNode ← p.node init
      let n ← p.newNode .EXPR_STMT stmtStart (semi.elim initNode.stop Token.stop)
      p.addChild n init
      pure n
  else p.failReservedName hole

/-- The type and the initializer of a declaration of names. -/
def parseTypeAndInit (names : List Token) : Parse (Option Nat × Option Nat) := do
  if ← p.matchTok .ASSIGN then
    let init ← p.parseInit enter names.length
    pure (none, some init)
  else
    match p.firstHole names with
    | some hole => p.failReservedName hole
    | none =>
      let type ← enter .type
      if ← p.matchTok .ASSIGN then
        let init ← p.parseInit enter names.length
        pure (some type, some init)
      else pure (some type, none)

def parseVarLikeStmt (kind : AstKind) (requireSemi allowHole : Bool) : Parse Nat := do
  let kw ← p.peek
  p.advance
  let names ← p.parseDeclNameList allowHole
  let first := names.headD kw
  if names.length = 1 ∧ p.isHoleName first then p.parseDiscard enter kw.start first requireSemi
  else
    let (type, init) ← p.parseTypeAndInit enter names
    let s ← .get
    let stop := match init, type with
      | some init, _ => (nodeAt s.nodes init).stop
      | none, some type => (nodeAt s.nodes type).stop
      | none, none => (names.getLastD kw).stop
    let n ← p.newNode kind kw.start stop
    p.setData n first
    if 1 < names.length then
      let nameList ← p.buildNameListNode names
      p.addChild n nameList
    p.addOptionalChild n type
    p.addOptionalChild n init
    if requireSemi then p.finishStmt n else pure n

/-- The place after a run of `, name`. -/
def skipNames : Nat → Nat → Nat
  | 0, i => i
  | room + 1, i =>
    if i + 1 < p.tokLen ∧ (p.tokAt i).kind = .COMMA ∧ (p.tokAt (i + 1)).kind = .IDENT then skipNames room (i + 2)
    else i

def isShortAssignStart : Parse Bool := do
  let s ← .get
  if ← p.isAt .IDENT then
    let i := p.skipNames p.tokLen (s.pos + 1)
    pure (i < p.tokLen && (p.tokAt i).kind = .SHORT_ASSIGN)
  else pure false

def parseShortAssignStmt (requireSemi : Bool) : Parse Nat := do
  let names ← p.parseDeclNameList true
  let _ ← p.expect .SHORT_ASSIGN .UNEXPECTED_TOKEN
  let rhsList ← p.parseExprList enter
  let nameList ← p.buildNameListNode names
  let nameListNode ← p.node nameList
  let rhsListNode ← p.node rhsList
  let n ← p.newNode .SHORT_ASSIGN nameListNode.start rhsListNode.stop
  p.addChild n nameList
  p.addChild n rhsList
  if requireSemi then p.finishStmt n else pure n

/-- Takes `else`, also behind a semicolon that a newline after the block has put there. -/
def matchElse : Parse Bool := do
  let saved ← .get
  if ← p.matchTok .SEMICOLON then
    if ← p.matchTok .ELSE then pure true
    else
      .modify fun s => { s with pos := saved.pos }
      pure false
  else p.matchTok .ELSE

def parseIfStmt : Parse Nat := do
  let kw ← p.peek
  p.advance
  let cond ← enter (.expr 1)
  let thenBlock ← p.parseBlock enter
  let thenNode ← p.node thenBlock
  let n ← p.newNode .IF kw.start thenNode.stop
  p.addChild n cond
  p.addChild n thenBlock
  if ← p.matchElse then
    let elseNode ← if ← p.isAt .IF then enter .ifStmt else p.parseBlock enter
    p.addChild n elseNode
    let els ← p.node elseNode
    p.setEnd n els.stop
  pure n

/-- `in` stands before the first brace or semicolon. -/
def headHasIn : Nat → Nat → Bool
  | 0, _ => false
  | room + 1, i =>
    if p.tokLen ≤ i then false
    else
      match (p.tokAt i).kind with
      | .IN => true
      | .LBRACE | .SEMICOLON | .EOF => false
      | _ => headHasIn room (i + 1)

def parseForInKeyBinding : Parse (Nat × UInt32) := do
  let keyRef ← p.matchTok .AND
  let name ← p.expectDeclName false
  let n ← p.newLeaf .IDENT name
  pure (n, if keyRef then AstFlag.FOR_IN_KEY_REF else 0)

def parseForInValueBinding : Parse (Nat × UInt32) := do
  let byRef ← p.matchTok .AND
  let name ← p.expectDeclName true
  if p.isHoleName name then
    if byRef then p.failWith .UNEXPECTED_TOKEN
    else
      let n ← p.newLeaf .IDENT name
      pure (n, AstFlag.FOR_IN_VALUE_DISCARD)
  else
    let n ← p.newLeaf .IDENT name
    pure (n, if byRef then AstFlag.FOR_IN_VALUE_REF else 0)

/-- The source and the body of a `for ... in` statement. -/
def parseForInTail : Parse (Nat × Nat) := do
  if ← p.matchTok .IN then
    let sourceExpr ← enter (.expr 1)
    let body ← p.parseBlock enter
    pure (sourceExpr, body)
  else p.failWith .UNEXPECTED_TOKEN

/-- `key ,` -/
def parseForInKey : Parse (Nat × UInt32) := do
  let (key, flags) ← p.parseForInKeyBinding
  if ← p.matchTok .COMMA then pure (key, flags) else .failing id

/-- The children of a `for ... in` statement in their order, and its flags. -/
def parseForInClause : Parse (List Nat × UInt32) := do
  let saved ← .get
  match ← .attempt p.parseForInKey with
  | some (keyBinding, keyFlags) =>
    let (valueBinding, valueFlags) ← p.parseForInValueBinding
    let (sourceExpr, body) ← p.parseForInTail enter
    pure ([keyBinding, valueBinding, sourceExpr, body],
      AstFlag.FOR_IN ||| AstFlag.FOR_IN_HAS_KEY ||| keyFlags ||| valueFlags)
  | none =>
    p.restore saved
    let (valueBinding, valueFlags) ← p.parseForInValueBinding
    let (sourceExpr, body) ← p.parseForInTail enter
    pure ([valueBinding, sourceExpr, body], AstFlag.FOR_IN ||| valueFlags)

/-- The first clause of a `for` header. A semicolon in its place is taken. -/
def parseForInit : Parse (Option Nat) := do
  if ← p.isAt .SEMICOLON then
    p.advance
    pure none
  else if ← p.isAt .VAR then
    let init ← p.parseVarLikeStmt enter .VAR false true
    pure (some init)
  else if ← p.isShortAssignStart then
    let init ← p.parseShortAssignStmt enter false
    pure (some init)
  else
    let init ← enter (.expr 1)
    pure (some init)

def parseOptionalExpr (stop : TokenKind) : Parse (Option Nat) := do
  if ← p.isAt stop then pure none
  else
    let expr ← enter (.expr 1)
    pure (some expr)

/-- The children of the other `for` statements in their order. -/
def parseForClauses : Parse (List Nat) := do
  let init ← p.parseForInit enter
  let clauses ← if ← p.matchTok .SEMICOLON then do
      let cond ← p.parseOptionalExpr enter .SEMICOLON
      if ← p.matchTok .SEMICOLON then
        let post ← p.parseOptionalExpr enter .LBRACE
        pure (init.toList ++ cond.toList ++ post.toList)
      else p.failWith .UNEXPECTED_TOKEN
    else pure init.toList
  let body ← p.parseBlock enter
  pure (clauses ++ [body])

def parseForStmt : Parse Nat := do
  let kw ← p.peek
  p.advance
  let n ← p.newNode .FOR kw.start kw.stop
  let s ← .get
  let children ← if ← p.isAt .LBRACE then do
      let body ← p.parseBlock enter
      pure [body]
    else if p.headHasIn p.tokLen s.pos then do
      let (children, forInFlags) ← p.parseForInClause enter
      p.addFlags n forInFlags
      pure children
    else p.parseForClauses enter
  p.addChildren n children
  let body ← p.node (children.getLastD n)
  p.setEnd n body.stop
  pure n

/-- A dotted name as an expression, and whether it has a dot. `none` where a dot has no name behind it. -/
def parseVariantPath : Parse (Option (Nat × Bool)) := do
  let firstSeg ← p.expect .IDENT .EXPECTED_EXPR
  let first ← p.newLeaf .IDENT firstSeg
  .loop (fun (patternExpr, sawDot) => do
    if ← p.matchTok .DOT then
      match ← .attempt (p.expect .IDENT .EXPECTED_EXPR) with
      | none => pure (.inr none)
      | some seg =>
        let base ← p.node patternExpr
        let fieldExpr ← p.newNode .FIELD_EXPR base.start seg.stop
        p.addChild fieldExpr patternExpr
        p.setData fieldExpr seg
        pure (.inl (fieldExpr, true))
    else pure (.inr (some (patternExpr, sawDot)))) p.rounds (first, false)

/-- `as alias`, when it is there; `none` where the alias is no name. -/
def parseCaseAlias : Parse (Option (Option Nat)) := do
  if ← p.matchTok .AS then
    match ← .attempt (p.expectDeclName false) with
    | none => pure none
    | some aliasTok =>
      let aliasNode ← p.newLeaf .IDENT aliasTok
      pure (some (some aliasNode))
  else pure (some none)

/-- A label `Type.Variant [as alias]` that ends the label. -/
def newCasePattern (patternExpr : Nat) (aliasNode : Option Nat) : Parse Nat := do
  let s ← .get
  let expr := nodeAt s.nodes patternExpr
  let stop := (aliasNode.map fun a => (nodeAt s.nodes a).stop).getD expr.stop
  let patternNode ← p.newNode .CASE_PATTERN expr.start stop
  p.addChild patternNode patternExpr
  p.addOptionalChild patternNode aliasNode
  pure patternNode

/-- A case label of the form `Type.Variant [as alias]`, when the label is that and no more. -/
def parseVariantPattern : Parse (Option Nat) := do
  if ← p.isAt .IDENT then
    match ← p.parseVariantPath with
    | some (patternExpr, true) =>
      match ← p.parseCaseAlias with
      | some aliasNode =>
        let t ← p.peek
        if t.kind = .COMMA ∨ t.kind = .LBRACE then
          let patternNode ← p.newCasePattern patternExpr aliasNode
          pure (some patternNode)
        else pure none
      | none => pure none
    | _ => pure none
  else pure none

def parseCaseLabel (caseNode : Nat) : Parse Unit := do
  let saved ← .get
  let patternNode ← match ← p.parseVariantPattern with
    | some patternNode => pure patternNode
    | none => do
      p.restore saved
      let patternExpr ← enter (.expr 1)
      p.newCasePattern patternExpr none
  p.addChild caseNode patternNode

/-- The body of a clause of a switch, and the clause's place in the switch. -/
def parseClauseBody (sw clause : Nat) : Parse Unit := do
  let body ← p.parseBlock enter
  p.addChild clause body
  let block ← p.node body
  p.setEnd clause block.stop
  p.addChild sw clause

/-- One clause of a switch. Tells whether a default clause was seen. -/
def parseSwitchClause (sw : Nat) (sawDefault : Bool) : Parse Bool := do
  if ← p.matchTok .CASE then
    let kw ← p.prev
    let caseNode ← p.newNode .CASE kw.start kw.stop
    p.commaLoop (fun _ => p.parseCaseLabel enter caseNode) ()
    p.parseClauseBody enter sw caseNode
    pure sawDefault
  else if ← p.matchTok .DEFAULT then
    if sawDefault then p.failWith .UNEXPECTED_TOKEN
    else
      let kw ← p.prev
      let defNode ← p.newNode .DEFAULT kw.start kw.stop
      p.parseClauseBody enter sw defNode
      pure true
  else p.failWith .UNEXPECTED_TOKEN

def parseSwitchStmt : Parse Nat := do
  let kw ← p.peek
  p.advance
  let sw ← p.newNode .SWITCH kw.start kw.stop
  if !(← p.isAt .LBRACE) then
    let subject ← enter (.expr 1)
    p.addChild sw subject
    p.setFlags sw 1
  let _ ← p.expect .LBRACE .UNEXPECTED_TOKEN
  .loop (fun sawDefault => do
    if (← p.isAt .RBRACE) || (← p.isAt .EOF) then pure (.inr ())
    else if ← p.matchTok .SEMICOLON then pure (.inl sawDefault)
    else
      let sawDefault ← p.parseSwitchClause enter sw sawDefault
      pure (.inl sawDefault)) p.rounds false
  let rb ← p.expect .RBRACE .UNEXPECTED_TOKEN
  p.setEnd sw rb.stop
  pure sw

def parseFunDecl (allowBody : Bool) : Parse Nat := do
  let kw ← p.peek
  p.advance
  let name ← p.expectFnName
  let fn ← p.newNode .FN kw.start name.stop
  p.setData fn name
  p.parseTypeParamList fn
  let _ ← p.expect .LPAREN .UNEXPECTED_TOKEN
  p.parseParams enter fn false
  let rp ← p.expect .RPAREN .UNEXPECTED_TOKEN
  p.setEnd fn rp.stop
  if !((← p.isAt .LBRACE) || (← p.isAt .SEMICOLON)) then p.parseFnResult enter fn
  if ← p.isAt .LBRACE then
    if !allowBody then p.failWith .UNEXPECTED_TOKEN
    else
      p.parseFnBody enter fn
      pure fn
  else
    let semi ← p.expect .SEMICOLON .UNEXPECTED_TOKEN
    p.setEnd fn semi.stop
    pure fn

/-- Some child of the function is its body. -/
def hasBlock (nodes : List AstNode) : Nat → Int → Option Bool
  | room, child =>
    if child < 0 then some false
    else if (nodeAt nodes child.toNat).kind = .BLOCK then some true
    else
      match room with
      | 0 => none
      | room + 1 => hasBlock nodes room (nodeAt nodes child.toNat).nextSibling

def fnHasBody (fnNode : Nat) : Parse Bool := fun s =>
  match hasBlock s.nodes s.nodes.length (nodeAt s.nodes fnNode).firstChild with
  | none => .outOfFuel
  | some found => .ok found s

/-- A function declared as a statement, which must have a body. -/
def parseLocalFn : Parse Nat := do
  let fn ← p.parseFunDecl enter true
  p.addFlags fn AstFlag.FN_LOCAL
  if ← fnHasBody fn then pure fn else p.failWith .UNEXPECTED_TOKEN

/-- `const { ... }` or a declaration of constants. -/
def parseConstStmt : Parse Nat := do
  let s ← .get
  let kw ← p.peek
  if (p.peekAt (s.pos + 1)).kind = .LBRACE then
    p.advance
    let n ← p.newNode .CONST_BLOCK kw.start kw.stop
    let block ← p.parseBlock enter
    p.addChild n block
    let body ← p.node block
    p.setEnd n body.stop
    pure n
  else p.parseVarLikeStmt enter .CONST true true

def parseReturnStmt : Parse Nat := do
  let kw ← p.peek
  p.advance
  let n ← p.newNode .RETURN kw.start kw.stop
  if !(← p.isAt .SEMICOLON) then
    let first ← enter (.expr 1)
    let expr ← if ← p.matchTok .COMMA then do
        let items ← p.commaLoop (p.pushItem (enter (.expr 1))) [first]
        p.buildListNode .EXPR_LIST items
      else pure first
    p.addChild n expr
    let exprNode ← p.node expr
    p.setEnd n exprNode.stop
  p.finishStmt n

/-- `break` or `continue`. -/
def parseJumpStmt (kind : AstKind) : Parse Nat := do
  let kw ← p.peek
  p.advance
  let n ← p.newNode kind kw.start kw.stop
  p.finishStmt n

def parseDeferStmt : Parse Nat := do
  let kw ← p.peek
  p.advance
  let n ← p.newNode .DEFER kw.start kw.stop
  let block ← if ← p.isAt .LBRACE then p.parseBlock enter else enter .stmt
  p.addChild n block
  let body ← p.node block
  p.setEnd n body.stop
  pure n

def parseAssertStmt : Parse Nat := do
  let kw ← p.peek
  p.advance
  let n ← p.newNode .ASSERT kw.start kw.stop
  let expr ← enter (.expr 1)
  p.addChild n expr
  p.whileComma (fun _ => do
    let arg ← enter (.expr 1)
    p.addChild n arg) ()
  p.finishStmt n

def parseDeallocStmt : Parse Nat := do
  let kw ← p.peek
  p.advance
  let n ← p.newNode .DEALLOC kw.start kw.stop
  let operand : Parse Unit := do
    let expr ← enter (.expr 1)
    p.addChild n expr
    let exprNode ← p.node expr
    p.setEnd n exprNode.stop
  p.commaLoop (fun _ => operand) ()
  if ← p.matchTok .IN then
    operand
    p.addFlags n AstFlag.DEALLOC_HAS_EXPLICIT_ALLOCATOR
  p.finishStmt n

/-- The sides of an assignment to several places, after its first one and a comma. -/
def parseMultiAssign (first : Nat) : Parse Nat := do
  let second ← enter (.expr 2)
  let lhsExprs ← p.whileComma (p.pushItem (enter (.expr 2))) [first, second]
  if ← p.matchTok .ASSIGN then
    let rhs ← enter (.expr 1)
    let rhsExprs ← p.whileComma (p.pushItem (enter (.expr 1))) [rhs]
    let lhsList ← p.buildListNode .EXPR_LIST lhsExprs
    let rhsList ← p.buildListNode .EXPR_LIST rhsExprs
    let lhsNode ← p.node lhsList
    let rhsNode ← p.node rhsList
    let n ← p.newNode .MULTI_ASSIGN lhsNode.start rhsNode.stop
    p.addChild n lhsList
    p.addChild n rhsList
    p.finishStmt n
  else p.failWith .UNEXPECTED_TOKEN

def parseExprStmt : Parse Nat := do
  if ← p.isShortAssignStart then p.parseShortAssignStmt enter true
  else
    let expr ← p.parseExpr enter 1
    if ← p.matchTok .COMMA then p.parseMultiAssign enter expr
    else
      let semi ← p.consumeStmtTerminator
      let exprNode ← p.node expr
      let n ← p.newNode .EXPR_STMT exprNode.start (semi.elim exprNode.stop Token.stop)
      p.addChild n expr
      pure n

def parseStmt : Parse Nat := do
  let t ← p.peek
  match t.kind with
  | .VAR => p.parseVarLikeStmt enter .VAR true true
  | .FN => p.parseLocalFn enter
  | .CONST => p.parseConstStmt enter
  | .IF => p.parseIfStmt enter
  | .FOR => p.parseForStmt enter
  | .SWITCH => p.parseSwitchStmt enter
  | .RETURN => p.parseReturnStmt enter
  | .BREAK => p.parseJumpStmt .BREAK
  | .CONTINUE => p.parseJumpStmt .CONTINUE
  | .DEFER => p.parseDeferStmt enter
  | .ASSERT => p.parseAssertStmt enter
  | .DEALLOC => p.parseDeallocStmt enter
  | .LBRACE => p.parseBlock enter
  | _ => p.parseExprStmt enter

end Parser

end HopHop
