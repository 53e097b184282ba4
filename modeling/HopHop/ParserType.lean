import HopHop.Parser

namespace HopHop

namespace Parser

variable (p : Parser)

def tokenGapHasNewline (before after : Token) : Bool :=
  before.stop ≤ after.start && after.start ≤ p.src.length &&
    ((p.src.drop before.stop).take (after.start - before.stop)).contains Byte.newline

def enumPayloadTypeStart (kind : TokenKind) : Bool := kind ≠ .LBRACE && isTypeStart kind

/-- The copy of a node without its links. -/
def copyFields (src clone : AstNode) : AstNode :=
  { clone with dataStart := src.dataStart, dataEnd := src.dataEnd, op := src.op, flags := src.flags }

def cloneSubtree : Nat → Nat → Parse Nat
  | 0, _ => fun _ => .outOfFuel
  | room + 1, nodeId => do
    let s ← .get
    if s.nodes.length ≤ nodeId then .failing id
    else
      let src := nodeAt s.nodes nodeId
      let clone ← p.newNode src.kind src.start src.stop
      p.setNode clone (copyFields src)
      .loop (fun child : Int => do
        if child < 0 then pure (.inr ())
        else
          let childClone ← cloneSubtree room child.toNat
          p.addChild clone childClone
          let n ← p.node child.toNat
          pure (.inl n.nextSibling)) (s.nodes.length + 1) src.firstChild
      pure clone

/-- A clone with room for every subtree of the table. -/
def clone (nodeId : Nat) : Parse Nat := do
  let s ← .get
  p.cloneSubtree (s.nodes.length + 1) nodeId

/-- A dot and an identifier at a place of the stream that stand right after a token. -/
def dottedAt (pos : Nat) (last : Token) : Bool :=
  pos + 1 < p.tokLen && (p.tokAt pos).kind = .DOT && (p.tokAt (pos + 1)).kind = .IDENT
    && (p.tokAt pos).start = last.stop && (p.tokAt (pos + 1)).start = (p.tokAt pos).stop

/-- The rest of a dotted name, up to its last identifier. -/
def dottedName (first : Token) : Parse Token :=
  .loop (fun last => do
    let s ← .get
    if p.dottedAt s.pos last then
      p.advance
      p.advance
      pure (.inl (p.tokAt (s.pos + 1)))
    else pure (.inr last)) p.rounds first

variable (enter : Enter)

def parseTypeName : Parse Nat := do
  let t ← p.peek
  if t.kind = .IDENT ∨ t.kind = .TYPE ∨ t.kind = .ANYTYPE then
    p.advance
    let first ← p.prev
    let last ← p.dottedName first
    let n ← p.newNode .TYPE_NAME first.start last.stop
    p.setNode n fun node => { node with dataStart := first.start, dataEnd := last.stop }
    if ← p.matchTok .LBRACK then
      let lb ← p.prev
      p.setEnd n lb.stop
      p.commaLoop (fun _ => do
        let argType ← enter .type
        p.addChild n argType) ()
      let rb ← p.expect .RBRACK .EXPECTED_TYPE
      p.setEnd n rb.stop
    pure n
  else p.failWith .EXPECTED_TYPE

/-- The end of the sibling chain of a node's children, as it is before a type parameter list. -/
def lastChild (ownerNode : Nat) : Parse (Option Nat) := fun s =>
  let first := (nodeAt s.nodes ownerNode).firstChild
  if first < 0 then .ok none s
  else
    match lastSibling s.nodes s.nodes.length first.toNat with
    | none => .outOfFuel
    | some n => .ok (some n) s

/-- Takes back the type parameters that were added to the owner. -/
def dropTypeParams (ownerNode : Nat) (last : Option Nat) (saved : ParseState) : Parse Unit := do
  let s ← .get
  p.rewind saved s.diag
  match last with
  | some n => p.setNode n fun node => { node with nextSibling := -1 }
  | none => p.setNode ownerNode fun node => { node with firstChild := -1 }

def parseTypeParamList (ownerNode : Nat) : Parse Unit := do
  let saved ← .get
  let last ← lastChild ownerNode
  if ← p.matchTok .LBRACK then
    let parsed ← .loop (fun _ : Unit => do
      if ← p.isAt .IDENT then
        let name ← p.expectDeclName false
        let paramNode ← p.newNode .TYPE_PARAM name.start name.stop
        p.setData paramNode name
        p.addChild ownerNode paramNode
        if ← p.matchTok .COMMA then pure (.inl ()) else pure (.inr true)
      else pure (.inr false)) p.rounds ()
    if parsed then
      match ← .attempt (p.expect .RBRACK .UNEXPECTED_TOKEN) with
      | some rb => p.setEnd ownerNode rb.stop
      | none => p.dropTypeParams ownerNode last saved
    else p.dropTypeParams ownerNode last saved

/-- The names of a group of parameters or results, and how many there are. `none` where they are no group. -/
def groupNames : Parse (Option Nat) :=
  .loop (fun nameCount : Nat => do
    match ← .attempt (p.expectDeclName false) with
    | none => pure (.inr none)
    | some _ =>
      if ← p.matchTok .COMMA then
        if ← p.isAt .IDENT then pure (.inl (nameCount + 1)) else pure (.inr none)
      else pure (.inr (some (nameCount + 1)))) p.rounds 0

/-- The type of the group of names that starts here, and how many names it has. -/
def parseNamedGroup : Parse (Option (Nat × Nat)) := do
  match ← p.groupNames with
  | none => pure none
  | some nameCount =>
    let t ← p.peek
    if isTypeStart t.kind then
      match ← .attempt (enter .type) with
      | none => pure none
      | some typeNode => pure (some (nameCount, typeNode))
    else pure none

/-- Adds the type once for every name of its group. -/
def addGroupTypes (fnTypeNode typeNode nameCount : Nat) : Parse Unit :=
  forEach (fun i => do
    let paramType ← if i = 0 then pure typeNode else p.clone typeNode
    p.addChild fnTypeNode paramType) (List.range nameCount)

def tryParseFnTypeNamedParamGroup (fnTypeNode : Nat) : Parse Bool := do
  let saved ← .get
  if ← p.isAt .IDENT then
    match ← p.parseNamedGroup enter with
    | some (nameCount, typeNode) =>
      p.addGroupTypes fnTypeNode typeNode nameCount
      pure true
    | none =>
      p.restore saved
      pure false
  else pure false

/-- The type of a parameter of a function type that follows `const`, and whether it is variadic. -/
def parseConstParamType (sawVariadic : Bool) : Parse (Nat × Bool) := do
  let saved ← .get
  let variadic : Parse (Nat × Bool) := do
    if sawVariadic then p.failWith .VARIADIC_PARAM_DUPLICATE
    else
      let paramType ← enter .type
      pure (paramType, true)
  let plain : Parse (Nat × Bool) := do
    let paramType ← enter .type
    pure (paramType, false)
  if ← p.matchTok .ELLIPSIS then variadic
  else if ← p.isAt .IDENT then
    let _ ← p.expectDeclName false
    if ← p.isAt .COMMA then p.restore saved
    if ← p.matchTok .ELLIPSIS then variadic
    else
      let t ← p.peek
      if isTypeStart t.kind then plain
      else
        p.restore saved
        plain
  else plain

/-- One parameter or group of parameters of a function type. The result tells whether a variadic one was seen. -/
def parseFnTypeParam (fnTypeNode : Nat) (sawVariadic : Bool) : Parse Bool := do
  if ← p.matchTok .CONST then
    let (paramType, isVariadicParam) ← p.parseConstParamType enter sawVariadic
    if isVariadicParam then p.addFlags paramType AstFlag.PARAM_VARIADIC
    p.addFlags paramType AstFlag.PARAM_CONST
    p.addChild fnTypeNode paramType
    pure (sawVariadic || isVariadicParam)
  else if ← p.matchTok .ELLIPSIS then
    if sawVariadic then p.failWith .VARIADIC_PARAM_DUPLICATE
    else
      let paramType ← enter .type
      p.addFlags paramType AstFlag.PARAM_VARIADIC
      p.addChild fnTypeNode paramType
      -- the source goes on to the type of a parameter without a group, also here
      let paramType ← enter .type
      p.addChild fnTypeNode paramType
      pure true
  else
    let consumedGroup ← p.tryParseFnTypeNamedParamGroup enter fnTypeNode
    if !consumedGroup then
      let paramType ← enter .type
      p.addChild fnTypeNode paramType
    pure sawVariadic

def parseFnType : Parse Nat := do
  let fnTok ← p.expect .FN .EXPECTED_TYPE
  let lp ← p.expect .LPAREN .EXPECTED_TYPE
  let fnTypeNode ← p.newNode .TYPE_FN fnTok.start lp.stop
  if !(← p.isAt .RPAREN) then
    .loop (fun sawVariadic => do
      let sawVariadic ← p.parseFnTypeParam enter fnTypeNode sawVariadic
      if ← p.matchTok .COMMA then
        if sawVariadic then p.failWith .VARIADIC_PARAM_NOT_LAST else pure (.inl sawVariadic)
      else pure (.inr ())) p.rounds false
  let rp ← p.expect .RPAREN .EXPECTED_TYPE
  p.setEnd fnTypeNode rp.stop
  let t ← p.peek
  if isTypeStart t.kind then
    let resultType ← enter .type
    p.setFlags resultType 1
    p.addChild fnTypeNode resultType
    let result ← p.node resultType
    p.setEnd fnTypeNode result.stop
  pure fnTypeNode

/-- The room of the arrays that collect the items of a list. -/
def itemCap : Nat := 256

/-- One more item of a list, when its array has room. -/
def pushItem (item : Parse Nat) (items : List Nat) : Parse (List Nat) := do
  if itemCap ≤ items.length then p.failWith .ARENA_OOM
  else
    let n ← item
    pure (items ++ [n])

def addChildren (parent : Nat) (items : List Nat) : Parse Unit := forEach (p.addChild parent) items

def parseTupleType : Parse Nat := do
  let lp ← p.expect .LPAREN .EXPECTED_TYPE
  let first ← enter .type
  if !(← p.matchTok .COMMA) then p.failWith .EXPECTED_TYPE
  else
    let items ← p.commaLoop (p.pushItem (enter .type)) [first]
    let rp ← p.expect .RPAREN .EXPECTED_TYPE
    let tupleNode ← p.newNode .TYPE_TUPLE lp.start rp.stop
    p.addChildren tupleNode items
    pure tupleNode

/-- The names a group of results may start with. It stops at the first token that is no name. -/
def resultNames : Parse Nat :=
  .loop (fun nameCount : Nat => do
    match ← .attempt (p.expectDeclName false) with
    | none => pure (.inr nameCount)
    | some _ =>
      if ← p.matchTok .COMMA then
        if ← p.isAt .IDENT then pure (.inl (nameCount + 1)) else pure (.inr (nameCount + 1))
      else pure (.inr (nameCount + 1))) p.rounds 0

/-- The type of a group of named results and the number of its names, when a group starts here. -/
def parseResultGroup : Parse (Option (Nat × Nat)) := do
  if ← p.isAt .IDENT then
    let saved ← .get
    let nameCount ← p.resultNames
    let t ← p.peek
    if 0 < nameCount ∧ isTypeStart t.kind then
      match ← .attempt (enter .type) with
      | some groupType => pure (some (nameCount, groupType))
      | none =>
        p.restore saved
        pure none
    else
      p.restore saved
      pure none
  else pure none

/-- The type of a group once for every name. -/
def pushGroupTypes (groupType nameCount : Nat) (resultTypes : List Nat) : Parse (List Nat) :=
  .loop (fun (i, resultTypes) => do
    if i = nameCount then pure (.inr resultTypes)
    else
      let resultTypes ← p.pushItem (if i = 0 then pure groupType else p.clone groupType) resultTypes
      pure (.inl (i + 1, resultTypes))) (nameCount + 1) (0, resultTypes)

def parseFnResultClause (fnNode : Nat) : Parse Unit := do
  let lp ← p.expect .LPAREN .EXPECTED_TYPE
  if ← p.isAt .RPAREN then p.failWith .EXPECTED_TYPE
  else
    let resultTypes ← p.commaLoop (fun resultTypes => do
      match ← p.parseResultGroup enter with
      | some (nameCount, groupType) => p.pushGroupTypes groupType nameCount resultTypes
      | none => p.pushItem (enter .type) resultTypes) []
    let rp ← p.expect .RPAREN .EXPECTED_TYPE
    let resultTypeNode ← match resultTypes with
      | [] => p.failWith .EXPECTED_TYPE
      | [resultType] => pure resultType
      | _ => do
        let n ← p.newNode .TYPE_TUPLE lp.start rp.stop
        p.addChildren n resultTypes
        pure n
    p.setFlags resultTypeNode 1
    p.addChild fnNode resultTypeNode
    let result ← p.node resultTypeNode
    p.setEnd fnNode result.stop

/-- The names of a group of fields, with the code a token other than a name is refused with. -/
def fieldNames (code : DiagCode) : Parse (List Token) := do
  let first ← p.expectDeclName false
  p.whileComma (fun names => do
    if ← p.isAt .IDENT then
      if itemCap ≤ names.length then p.failWith .ARENA_OOM
      else
        let name ← p.expectDeclName false
        pure (names ++ [name])
    else p.failWith code) [first]

/-- `= default`, which only a single field may have. -/
def parseFieldDefault (single : Bool) : Parse (Option Nat) := do
  if ← p.matchTok .ASSIGN then
    if single then
      let defaultExpr ← enter (.expr 1)
      pure (some defaultExpr)
    else
      let eq ← p.prev
      p.failAt .UNEXPECTED_TOKEN eq.start eq.stop
  else pure none

/-- Adds one field with its type and its default to an aggregate. -/
def addField (agg fieldTypeNode : Nat) (name : Token) (defaultExpr : Option Nat) : Parse Unit := do
  let fieldType ← p.node fieldTypeNode
  let fieldNode ← p.newNode .FIELD name.start fieldType.stop
  p.setData fieldNode name
  p.addChild fieldNode fieldTypeNode
  match defaultExpr with
  | some expr =>
    let default ← p.node expr
    p.setEnd fieldNode default.stop
    p.addChild fieldNode expr
  | none => pure ()
  p.addChild agg fieldNode

/-- Adds a field for every name; all but the first get a copy of the type. -/
def addFields (agg typeNode : Nat) (defaultExpr : Option Nat) : List Token → Parse Unit
  | [] => pure ()
  | first :: names => do
    p.addField agg typeNode first defaultExpr
    forEach (fun name => do
      let fieldTypeNode ← p.clone typeNode
      p.addField agg fieldTypeNode name none) names

def parseAnonymousAggregateFieldDeclList (aggTypeNode : Nat) : Parse Unit :=
  .loop (fun _ : Unit => do
    if (← p.isAt .RBRACE) || (← p.isAt .EOF) then pure (.inr ())
    else if ← p.matchTok .SEMICOLON then pure (.inl ())
    else
      let names ← p.fieldNames .EXPECTED_TYPE
      let typeNode ← enter .type
      let defaultExpr ← p.parseFieldDefault enter (names.length ≤ 1)
      p.addFields aggTypeNode typeNode defaultExpr names
      if ← p.matchTok .SEMICOLON then pure (.inl ())
      else if (← p.isAt .RBRACE) || (← p.isAt .EOF) then pure (.inl ())
      else p.failWith .UNEXPECTED_TOKEN) p.rounds ()

def parseAnonymousAggregateType : Parse Nat := do
  let t ← p.peek
  let kw ← if t.kind = .STRUCT ∨ t.kind = .UNION then do
      p.advance
      let kw ← p.prev
      pure (some kw)
    else pure none
  let kind : AstKind := if kw.map Token.kind = some .UNION then .TYPE_ANON_UNION else .TYPE_ANON_STRUCT
  let lb ← p.expect .LBRACE .EXPECTED_TYPE
  let typeNode ← p.newNode kind (kw.getD lb).start lb.stop
  p.parseAnonymousAggregateFieldDeclList enter typeNode
  let rb ← p.expect .RBRACE .EXPECTED_TYPE
  p.setEnd typeNode rb.stop
  pure typeNode

/-- A type that a prefix token makes of the type after it. -/
def parsePrefixType (kind : AstKind) : Parse Nat := do
  let t ← p.prev
  let typeNode ← p.newNode kind t.start t.stop
  let child ← enter .type
  let childNode ← p.node child
  p.setEnd typeNode childNode.stop
  p.addChild typeNode child
  pure typeNode

/-- The length of an array type, after its element type: a name of a field or an expression. -/
def parseArrayLength : Parse (Token ⊕ Nat) := do
  if ← p.matchTok .DOT then
    let nTok ← p.expect .IDENT .EXPECTED_TYPE
    pure (.inl nTok)
  else
    let lenExpr ← enter (.expr 1)
    pure (.inr lenExpr)

/-- What follows the `[` of an array or slice type. -/
def parseBracketType : Parse Nat := do
  let lb ← p.prev
  let child ← enter .type
  if ← p.matchTok .RBRACK then
    let rb ← p.prev
    let typeNode ← p.newNode .TYPE_SLICE lb.start rb.stop
    p.addChild typeNode child
    pure typeNode
  else
    let length ← p.parseArrayLength enter
    let kind : AstKind := match length with
      | .inl _ => .TYPE_VARRAY
      | .inr _ => .TYPE_ARRAY
    let typeNode ← p.newNode kind lb.start lb.stop
    match length with
    | .inl nTok => p.setData typeNode nTok
    | .inr _ => pure ()
    let rb ← p.expect .RBRACK .EXPECTED_TYPE
    p.setEnd typeNode rb.stop
    p.addChild typeNode child
    match length with
    | .inl _ => pure ()
    | .inr lenExpr =>
      let lenNode ← p.node lenExpr
      if (lenNode.kind = .INT ∧ lenNode.dataStart < lenNode.dataEnd) ∧ ¬lenNode.has AstFlag.PAREN then
        p.setNode typeNode fun node => { node with dataStart := lenNode.dataStart, dataEnd := lenNode.dataEnd }
      else
        p.setNode typeNode fun node => { node with dataStart := lenNode.start, dataEnd := lenNode.stop }
        p.addChild typeNode lenExpr
    pure typeNode

def parseType : Parse Nat := do
  if ← p.matchTok .QUESTION then p.parsePrefixType enter .TYPE_OPTIONAL
  else if ← p.matchTok .MUL then p.parsePrefixType enter .TYPE_PTR
  else if ← p.matchTok .AND then p.parsePrefixType enter .TYPE_REF
  else if ← p.matchTok .MUT then p.failWith .EXPECTED_TYPE
  else if ← p.isAt .LPAREN then p.parseTupleType enter
  else if ← p.matchTok .LBRACK then p.parseBracketType enter
  else if ← p.isAt .FN then p.parseFnType enter
  else if (← p.isAt .LBRACE) || (← p.isAt .STRUCT) || (← p.isAt .UNION) then p.parseAnonymousAggregateType enter
  else p.parseTypeName enter

end Parser

end HopHop
