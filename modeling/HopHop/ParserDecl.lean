import HopHop.ParserStmt
import HopHop.StringLit
import HopHop.Lexer

namespace HopHop

namespace Parser

variable (p : Parser) (enter : Enter)

def parseTypeAliasDecl : Parse Nat := do
  let kw ← p.peek
  p.advance
  let name ← p.expectDeclName false
  let n ← p.newNode .TYPE_ALIAS kw.start name.stop
  p.setData n name
  p.parseTypeParamList n
  let targetType ← enter .type
  let target ← p.node targetType
  p.setEnd n target.stop
  p.addChild n targetType
  let semi ← p.expect .SEMICOLON .UNEXPECTED_TOKEN
  p.setEnd n semi.stop
  pure n

def isFieldSeparator : TokenKind → Bool
  | .SEMICOLON | .COMMA | .RBRACE | .ASSIGN | .EOF => true
  | _ => false

/-- The place after a dotted name and its last identifier. -/
def skipDotted : Nat → Nat → Token → Nat × Token
  | 0, i, last => (i, last)
  | room + 1, i, last => if p.dottedAt i last then skipDotted room (i + 2) (p.tokAt (i + 1)) else (i, last)

/-- The last identifier of the name of an embedded field, when one starts here. -/
def anonymousFieldLookahead (pos : Nat) : Option Token :=
  if p.tokLen ≤ pos ∨ (p.tokAt pos).kind ≠ .IDENT then none
  else
    let (i, last) := p.skipDotted p.tokLen (pos + 1) (p.tokAt pos)
    if i < p.tokLen ∧ isFieldSeparator (p.tokAt i).kind then some last else none

/-- The tokens are those of a group of field names. -/
def startsFieldGroup (pos : Nat) : Bool :=
  pos + 2 < p.tokLen && (p.tokAt pos).kind = .IDENT && (p.tokAt (pos + 1)).kind = .COMMA
    && (p.tokAt (pos + 2)).kind = .IDENT

/-- A field that is only the name of its type. -/
def parseEmbeddedField (agg : Nat) (embeddedTypeName : Token) : Parse Unit := do
  let type ← p.parseTypeName enter
  let defaultExpr ← p.parseFieldDefault enter true
  let fieldType ← p.node type
  let field ← p.newNode .FIELD fieldType.start fieldType.stop
  p.setData field embeddedTypeName
  p.addFlags field AstFlag.FIELD_EMBEDDED
  p.addChild field type
  match defaultExpr with
  | some expr =>
    let default ← p.node expr
    p.setEnd field default.stop
    p.addChild field expr
  | none => pure ()
  p.addChild agg field

def parseNamedFields (agg : Nat) : Parse Unit := do
  let names ← p.fieldNames .UNEXPECTED_TOKEN
  let type ← enter .type
  let defaultExpr ← p.parseFieldDefault enter (names.length ≤ 1)
  p.addFields agg type defaultExpr names

/-- Takes the separator behind a member, or stays before the closing brace. -/
def endMember : Parse Unit := do
  let separated ← if ← p.matchTok .SEMICOLON then pure true else p.matchTok .COMMA
  if !separated then
    if !((← p.isAt .RBRACE) || (← p.isAt .EOF)) then p.failWith .UNEXPECTED_TOKEN

/-- One member of a struct or union. -/
def parseAggregateMember (agg : Nat) : Parse Unit := do
  let t ← p.peek
  let s ← .get
  if t.kind = .TYPE then
    let declNode ← p.parseTypeAliasDecl enter
    p.addChild agg declNode
    p.endMember
  else if t.kind = .STRUCT ∨ t.kind = .UNION ∨ t.kind = .ENUM then
    let declNode ← enter .aggregateDecl
    p.addChild agg declNode
    p.endMember
  else if t.kind = .FN ∨ t.kind = .CONST ∨ t.kind = .VAR ∨ t.kind = .PUB then p.failWith .UNEXPECTED_TOKEN
  else
    match p.anonymousFieldLookahead s.pos with
    | some embeddedTypeName =>
      if p.startsFieldGroup s.pos then p.parseNamedFields enter agg
      else p.parseEmbeddedField enter agg embeddedTypeName
    | none => p.parseNamedFields enter agg
    p.endMember

def parseAggregateMemberList (agg : Nat) : Parse Unit :=
  .loop (fun _ : Unit => do
    let t ← p.peek
    if t.kind = .RBRACE ∨ t.kind = .EOF then pure (.inr ())
    else if t.kind = .SEMICOLON ∨ t.kind = .COMMA then
      p.advance
      pure (.inl ())
    else
      p.parseAggregateMember enter agg
      pure (.inl ())) p.rounds ()

/-- A child expression or type that the node then reaches to. -/
def addLastChild (n child : Nat) : Parse Unit := do
  p.addChild n child
  let node ← p.node child
  p.setEnd n node.stop

def parseEnumItem (n : Nat) : Parse Unit := do
  let itemName ← p.expectDeclName false
  let item ← p.newNode .FIELD itemName.start itemName.stop
  p.setData item itemName
  let t ← p.peek
  if !p.tokenGapHasNewline itemName t && enumPayloadTypeStart t.kind then
    let payloadType ← enter .type
    p.addLastChild item payloadType
  if ← p.matchTok .ASSIGN then
    let vexpr ← enter (.expr 1)
    p.addLastChild item vexpr
  p.addChild n item
  let _ ← if ← p.matchTok .COMMA then pure true else p.matchTok .SEMICOLON

def parseEnumItems (n : Nat) : Parse Unit :=
  .loop (fun _ : Unit => do
    let t ← p.peek
    if t.kind = .RBRACE ∨ t.kind = .EOF then pure (.inr ())
    else if t.kind = .COMMA ∨ t.kind = .SEMICOLON then
      p.advance
      pure (.inl ())
    else
      p.parseEnumItem enter n
      pure (.inl ())) p.rounds ()

def aggregateKind : TokenKind → AstKind
  | .UNION => .UNION
  | .ENUM => .ENUM
  | _ => .STRUCT

def parseAggregateDecl : Parse Nat := do
  let kw ← p.peek
  p.advance
  let name ← p.expectDeclName false
  let n ← p.newNode (aggregateKind kw.kind) kw.start name.stop
  p.setData n name
  p.parseTypeParamList n
  if kw.kind = .ENUM then
    let underType ← enter .type
    p.addChild n underType
  let _ ← p.expect .LBRACE .UNEXPECTED_TOKEN
  if kw.kind = .ENUM then p.parseEnumItems enter n else p.parseAggregateMemberList enter n
  let rb ← p.expect .RBRACE .UNEXPECTED_TOKEN
  p.setEnd n rb.stop
  pure n

/-- `as name` in an import, as a child of the node it renames. -/
def parseImportAlias (n : Nat) : Parse (Option Token) := do
  if ← p.matchTok .AS then
    let aliasTok ← p.expect .IDENT .UNEXPECTED_TOKEN
    if p.reservedName aliasTok then p.failAt .RESERVED_HOP_PREFIX aliasTok.start aliasTok.stop
    else
      let aliasNode ← p.newLeaf .IDENT aliasTok
      p.addChild n aliasNode
      pure (some aliasTok)
  else pure none

/-- Takes a run of separators and tells whether there was one. -/
def skipSeparators : Parse Bool :=
  .loop (fun any => do
    let separated ← if ← p.matchTok .COMMA then pure true else p.matchTok .SEMICOLON
    if separated then pure (.inl true) else pure (.inr any)) p.rounds false

def parseImportSymbol (n : Nat) : Parse Unit := do
  let t ← p.peek
  if t.kind = .MUL then p.failAt .IMPORT_WILDCARD_NOT_SUPPORTED t.start t.stop
  else
    let symName ← p.expect .IDENT .UNEXPECTED_TOKEN
    let symNode ← p.newNode .IMPORT_SYMBOL symName.start symName.stop
    p.setData symNode symName
    match ← p.parseImportAlias symNode with
    | some symAlias => p.setEnd symNode symAlias.stop
    | none => pure ()
    p.addChild n symNode

def parseImportSymbols (n : Nat) : Parse Unit := do
  if ← p.matchTok .LBRACE then
    if !(← p.isAt .RBRACE) then
      .loop (fun _ : Unit => do
        p.parseImportSymbol n
        if ← p.skipSeparators then
          if ← p.isAt .RBRACE then pure (.inr ()) else pure (.inl ())
        else pure (.inr ())) p.rounds ()
    let rb ← p.expect .RBRACE .UNEXPECTED_TOKEN
    p.setEnd n rb.stop

/-- The feature an import path names. -/
def featureName (decoded : List UInt8) : Option (List UInt8) :=
  if 15 < decoded.length ∧ decoded.take 15 = bytesOf "hophop/feature/" then some (decoded.drop 15)
  else if 8 < decoded.length ∧ decoded.take 8 = bytesOf "feature/" then some (decoded.drop 8)
  else none

def featureOptional : UInt32 := 1

def noteFeature (path : Token) : Parse Unit := do
  match decodeStringLiteral p.src path.start path.stop with
  | .error err => p.failAt (stringLitErrDiagCode err.kind) err.start err.stop
  | .ok decoded =>
    if featureName decoded = some (bytesOf "optional") then
      .modify fun s => { s with features := s.features ||| featureOptional }
    else pure ()

def parseImport : Parse Nat := do
  let kw ← p.peek
  p.advance
  let path ← p.expect .STRING .UNEXPECTED_TOKEN
  let n ← p.newNode .IMPORT kw.start path.stop
  p.setData n path
  let _ ← p.parseImportAlias n
  p.parseImportSymbols n
  p.noteFeature path
  let semi ← p.expect .SEMICOLON .UNEXPECTED_TOKEN
  p.setEnd n semi.stop
  pure n

def parseDirectiveLiteral : Parse Nat := do
  let t ← p.peek
  match literalKind t.kind with
  | some kind =>
    p.advance
    p.newLeaf kind t
  | none =>
    if t.kind = .NULL then
      p.advance
      p.newNode .NULL t.start t.stop
    else p.failWith .UNEXPECTED_TOKEN

def parseDirectiveArgs (directive : Nat) : Parse Unit := do
  if !(← p.isAt .RPAREN) then
    .loop (fun _ : Unit => do
      let argNode ← p.parseDirectiveLiteral
      p.addChild directive argNode
      if ← p.matchTok .COMMA then
        if ← p.isAt .RPAREN then pure (.inr ()) else pure (.inl ())
      else pure (.inr ())) p.rounds ()
  let rp ← p.expect .RPAREN .UNEXPECTED_TOKEN
  p.setEnd directive rp.stop

def parseDirective : Parse Nat := do
  let atTok ← p.expect .AT .UNEXPECTED_TOKEN
  let nameTok ← p.expect .IDENT .UNEXPECTED_TOKEN
  let directive ← p.newNode .DIRECTIVE atTok.start nameTok.stop
  p.setData directive nameTok
  if ← p.matchTok .LPAREN then p.parseDirectiveArgs directive
  pure directive

def parseDeclInner (allowBody : Bool) : Parse Nat := do
  let t ← p.peek
  match t.kind with
  | .FN => p.parseFunDecl enter allowBody
  | .TYPE => p.parseTypeAliasDecl enter
  | .STRUCT | .UNION | .ENUM => do
    let n ← p.parseAggregateDecl enter
    if ← p.matchTok .SEMICOLON then
      let semi ← p.prev
      p.setEnd n semi.stop
    pure n
  | .VAR => p.parseVarLikeStmt enter .VAR true false
  | .CONST => p.parseVarLikeStmt enter .CONST true false
  | _ => p.failWith .EXPECTED_DECL

def parseDecl (allowBody : Bool) : Parse Nat := do
  let first ← p.peek
  let isPub ← p.matchTok .PUB
  let n ← p.parseDeclInner enter allowBody
  if isPub then
    p.setNode n fun node => { node with start := first.start, flags := node.flags ||| AstFlag.PUB }
  pure n

/-- One production, with the productions it enters further right given. -/
def production : Production → Parse Nat
  | .type => p.parseType enter
  | .expr minPrec => p.parseExpr enter minPrec
  | .prefixed => p.parsePrefix enter
  | .stmt => p.parseStmt enter
  | .ifStmt => p.parseIfStmt enter
  | .aggregateDecl => p.parseAggregateDecl enter

/-- A production with room for so many productions inside one another. -/
def enterFor : Nat → Enter
  | 0 => fun _ _ => .outOfFuel
  | room + 1 => fun production => p.production (enterFor room) production

/-- Productions nest no deeper than there are tokens. -/
def enterAny : Enter := p.enterFor (p.tokLen + 1)

def parseImports (root : Nat) : Parse Unit :=
  .loop (fun _ : Unit => do
    if ← p.isAt .IMPORT then
      let imp ← p.parseImport
      p.addChild root imp
      pure (.inl ())
    else pure (.inr ())) p.rounds ()

/-- The semicolons and directives before a declaration. -/
def parseDirectives (root : Nat) : Parse Unit :=
  .loop (fun _ : Unit => do
    if ← p.isAt .SEMICOLON then
      p.advance
      pure (.inl ())
    else if ← p.isAt .AT then
      let directive ← p.parseDirective
      p.addChild root directive
      pure (.inl ())
    else pure (.inr ())) p.rounds ()

def parseDecls (root : Nat) : Parse Unit :=
  .loop (fun _ : Unit => do
    if ← p.isAt .EOF then pure (.inr ())
    else if ← p.isAt .SEMICOLON then
      p.advance
      pure (.inl ())
    else
      p.parseDirectives root
      let decl ← p.parseDecl p.enterAny true
      p.addChild root decl
      pure (.inl ())) p.rounds ()

def parseFile : Parse Nat := do
  let root ← p.newNode .FILE 0 p.src.length
  p.parseImports root
  p.parseDecls root
  pure root

end Parser

/-- The state the parser starts in. -/
def ParseState.start : ParseState := ⟨0, [], ⟨⟨.NONE, 0, 0⟩, 0, 0⟩, 0⟩

def nodeCapFor (toks : List Token) : Nat := toks.length * 4 + 16

/-- The syntax tree of a source, or the diagnostic it is refused with. -/
def parse (src : List UInt8) : Except Diag (Ast × UInt32) := do
  let toks ← lex src
  let p : Parser := ⟨src, toks, nodeCapFor toks⟩
  match p.parseFile .start with
  | .ok root s => .ok (⟨s.nodes, root⟩, s.features)
  | .fail s => .error s.diag.toDiag
  | .outOfFuel => .error ⟨.NONE, 0, 0⟩

end HopHop
