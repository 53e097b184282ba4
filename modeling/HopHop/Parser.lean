import HopHop.Ast
import HopHop.Outcome

namespace HopHop

/-- What the parser reads and never changes: the source, its tokens and the room for nodes. -/
structure Parser where
  src : List UInt8
  tok : List Token
  nodeCap : Nat

/-- A diagnostic of the parser: a code and a range, and the range of the text it quotes. -/
structure ParseDiag extends Diag where
  argStart : Nat
  argEnd : Nat
  deriving DecidableEq, Repr

/-- What the parser changes: its place in the tokens, the nodes made so far, the diagnostic and the features asked for. -/
structure ParseState where
  pos : Nat
  nodes : List AstNode
  diag : ParseDiag
  features : UInt32
  deriving DecidableEq, Repr

abbrev Parse := Prog ParseState

def ParseState.setDiag (s : ParseState) (code : DiagCode) (start stop : Nat) : ParseState :=
  { s with diag := ⟨⟨code, start, stop⟩, 0, 0⟩ }

def ParseState.setDiagWithArg (s : ParseState) (code : DiagCode) (start stop argStart argEnd : Nat) : ParseState :=
  { s with diag := ⟨⟨code, start, stop⟩, argStart, argEnd⟩ }

namespace Parser

def tokLen (p : Parser) : Nat := p.tok.length

/-- `p->tok[i]` -/
def tokAt (p : Parser) (i : Nat) : Token := p.tok.getD i ⟨.INVALID, 0, 0⟩

/-- The token at a place of the stream; past its end, the last one. -/
def peekAt (p : Parser) (pos : Nat) : Token := if p.tokLen ≤ pos then p.tokAt (p.tokLen - 1) else p.tokAt pos

def peek (p : Parser) : Parse Token := do
  let s ← .get
  pure (p.peekAt s.pos)

def prev (p : Parser) : Parse Token := do
  let s ← .get
  pure (p.tokAt (s.pos - 1))

def isAt (p : Parser) (kind : TokenKind) : Parse Bool := do
  let t ← p.peek
  pure (t.kind == kind)

/-- `p->pos++` -/
def advance (_ : Parser) : Parse Unit := .modify fun s => { s with pos := s.pos + 1 }

def matchTok (p : Parser) (kind : TokenKind) : Parse Bool := do
  if ← p.isAt kind then
    p.advance
    pure true
  else pure false

def failAt (_ : Parser) {α : Type} (code : DiagCode) (start stop : Nat) : Parse α :=
  .failing fun s => s.setDiag code start stop

def failWith (p : Parser) {α : Type} (code : DiagCode) : Parse α := do
  let t ← p.peek
  p.failAt code t.start t.stop

def expect (p : Parser) (kind : TokenKind) (code : DiagCode) : Parse Token := do
  if ← p.isAt kind then
    let t ← p.peek
    p.advance
    pure t
  else p.failWith code

def reservedName (p : Parser) (tok : Token) : Bool :=
  6 ≤ tok.stop - tok.start && (p.src.drop tok.start).take 6 = bytesOf "__hop_"

def isHoleName (p : Parser) (tok : Token) : Bool :=
  tok.kind = .IDENT && tok.stop = tok.start + 1 && p.src[tok.start]? = some Byte.underscore

def failReservedName (_ : Parser) {α : Type} (tok : Token) : Parse α :=
  .failing fun s => s.setDiagWithArg .RESERVED_NAME tok.start tok.stop tok.start tok.stop

def expectDeclName (p : Parser) (allowHole : Bool) : Parse Token := do
  let tok ← p.expect .IDENT .UNEXPECTED_TOKEN
  if !allowHole && p.isHoleName tok then p.failReservedName tok
  else if p.reservedName tok then p.failAt .RESERVED_HOP_PREFIX tok.start tok.stop
  else pure tok

def expectFnName (p : Parser) : Parse Token := do
  let tok ← p.peek
  if tok.kind = .SIZEOF then
    p.advance
    pure tok
  else p.expectDeclName false

def newNode (p : Parser) (kind : AstKind) (start stop : Nat) : Parse Nat := do
  let s ← .get
  if p.nodeCap ≤ s.nodes.length then p.failAt .ARENA_OOM start stop
  else
    .modify fun s => { s with nodes := s.nodes ++ [AstNode.fresh kind start stop] }
    pure s.nodes.length

/-- `p->nodes[id]` -/
def nodeAt (nodes : List AstNode) (id : Nat) : AstNode := nodes.getD id (.fresh .FILE 0 0)

def node (_ : Parser) (id : Nat) : Parse AstNode := do
  let s ← .get
  pure (nodeAt s.nodes id)

/-- A change of the fields of one node. -/
def setNode (_ : Parser) (id : Nat) (f : AstNode → AstNode) : Parse Unit :=
  .modify fun s => { s with nodes := s.nodes.modify id f }

def setData (p : Parser) (id : Nat) (tok : Token) : Parse Unit :=
  p.setNode id fun n => { n with dataStart := tok.start, dataEnd := tok.stop }

def setEnd (p : Parser) (id : Nat) (stop : Nat) : Parse Unit := p.setNode id fun n => { n with stop := stop }

def addFlags (p : Parser) (id : Nat) (flags : UInt32) : Parse Unit :=
  p.setNode id fun n => { n with flags := n.flags ||| flags }

def setFlags (p : Parser) (id : Nat) (flags : UInt32) : Parse Unit := p.setNode id fun n => { n with flags := flags }

/-- The last node of the sibling chain of `n`, when there are at most so many after it. -/
def lastSibling (nodes : List AstNode) : Nat → Nat → Option Nat
  | room, n =>
    if (nodeAt nodes n).nextSibling < 0 then some n
    else
      match room with
      | 0 => none
      | room + 1 => lastSibling nodes room (nodeAt nodes n).nextSibling.toNat

def addChild (_ : Parser) (parent child : Nat) : Parse Unit := fun s =>
  let first := (nodeAt s.nodes parent).firstChild
  if first < 0 then .ok () { s with nodes := s.nodes.modify parent fun n => { n with firstChild := child } }
  else
    match lastSibling s.nodes s.nodes.length first.toNat with
    | none => .outOfFuel
    | some n => .ok () { s with nodes := s.nodes.modify n fun m => { m with nextSibling := child } }

/-- The place and the number of nodes a speculative parse goes back to. -/
def rewind (_ : Parser) (saved : ParseState) (diag : ParseDiag) : Parse Unit :=
  .modify fun s => { s with pos := saved.pos, nodes := s.nodes.take saved.nodes.length, diag := diag }

/-- `p->pos = savedPos; p->nodeLen = savedNodeLen; *p->diag = savedDiag` -/
def restore (p : Parser) (saved : ParseState) : Parse Unit := p.rewind saved saved.diag

/-- As many rounds as any loop can take that consumes a token in each. -/
def rounds (p : Parser) : Nat := p.tokLen + 1

/-- `for (;;) { item; if (!match(COMMA)) break; }` -/
def commaLoop (p : Parser) {α : Type} (item : α → Parse α) (a : α) : Parse α :=
  .loop (fun a => do
    let a ← item a
    if ← p.matchTok .COMMA then pure (.inl a) else pure (.inr a)) p.rounds a

/-- `while (match(COMMA)) item;` -/
def whileComma (p : Parser) {α : Type} (item : α → Parse α) (a : α) : Parse α :=
  .loop (fun a => do
    if ← p.matchTok .COMMA then
      let a ← item a
      pure (.inl a)
    else pure (.inr a)) p.rounds a

/-- `for (i = 0; i < count; i++) body` over the items of an array. -/
def forEach {α : Type} (body : α → Parse Unit) : List α → Parse Unit
  | [] => pure ()
  | a :: rest => do
    body a
    forEach body rest

end Parser

def isAssignmentOp : TokenKind → Bool
  | .ASSIGN | .ADD_ASSIGN | .SUB_ASSIGN | .MUL_ASSIGN | .DIV_ASSIGN | .MOD_ASSIGN | .AND_ASSIGN | .OR_ASSIGN
  | .XOR_ASSIGN | .LSHIFT_ASSIGN | .RSHIFT_ASSIGN => true
  | _ => false

def binPrec (kind : TokenKind) : Nat :=
  if isAssignmentOp kind then 1
  else
    match kind with
    | .LOGICAL_OR => 2
    | .LOGICAL_AND => 3
    | .EQ | .NEQ | .LT | .GT | .LTE | .GTE => 4
    | .OR | .XOR | .ADD | .SUB => 5
    | .AND | .LSHIFT | .RSHIFT | .MUL | .DIV | .MOD => 6
    | _ => 0

def isTypeStart : TokenKind → Bool
  | .IDENT | .ANYTYPE | .TYPE | .STRUCT | .UNION | .MUL | .AND | .MUT | .LBRACE | .LBRACK | .LPAREN | .QUESTION
  | .FN => true
  | _ => false

/-- The productions that the grammar enters recursively. -/
inductive Production
  | type
  | expr (minPrec : Nat)
  | prefixed
  | stmt
  | ifStmt
  | aggregateDecl
  deriving DecidableEq, Repr

/-- How a production enters another one that stands further right in the source. -/
abbrev Enter := Production → Parse Nat

end HopHop
