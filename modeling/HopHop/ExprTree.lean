import HopHop.NodeChain
import HopHop.ParserExpr

namespace HopHop

/-! Expression trees, the tokens they are written with, and the nodes they are drawn as. -/

abbrev PrefixOp := { kind : TokenKind // Parser.isPrefixOp kind = true }

/-- A binary or an assignment operator. -/
abbrev BinaryOp := { kind : TokenKind // 0 < binPrec kind }

/-- A token that is a literal by itself. -/
abbrev LiteralToken := { kind : TokenKind // (Parser.literalKind kind).isSome = true }

/-- The name of a type: a dotted path with its type arguments. -/
inductive TypeName
  | mk (first : List UInt8) (path : List (List UInt8)) (args : List TypeName)

inductive ExprTree
  | ident (name : List UInt8)
  | literal (kind : LiteralToken) (text : List UInt8)
  | null
  | unary (op : PrefixOp) (operand : ExprTree)
  | binary (op : BinaryOp) (lhs rhs : ExprTree)
  | call (callee : ExprTree) (args : List ExprTree)
  | index (base sub : ExprTree)
  | field (base : ExprTree) (name : List UInt8)
  | cast (operand : ExprTree) (type : TypeName)
  | unwrap (operand : ExprTree)

/-- A token to be written: its kind, its text where that matters, and whether it follows the token before it without
a gap. -/
structure Lexeme where
  kind : TokenKind
  text : Option (List UInt8)
  glued : Bool

namespace Lexeme

def sign (kind : TokenKind) : Lexeme := ⟨kind, none, false⟩

def word (kind : TokenKind) (text : List UInt8) : Lexeme := ⟨kind, some text, false⟩

end Lexeme

namespace TypeName

/-- A name with no type arguments. -/
def bare : TypeName → Bool
  | mk _ _ args => args.isEmpty

def pathTokens : List (List UInt8) → List Lexeme
  | [] => []
  | name :: path => ⟨.DOT, some [Byte.dot], true⟩ :: ⟨.IDENT, some name, true⟩ :: pathTokens path

def pathText : List (List UInt8) → List UInt8
  | [] => []
  | name :: path => Byte.dot :: name ++ pathText path

mutual

def tokens : TypeName → List Lexeme
  | mk first path [] => .word .IDENT first :: pathTokens path
  | mk first path (arg :: rest) =>
    .word .IDENT first :: pathTokens path ++ .sign .LBRACK :: arg.tokens ++ restTokens rest

/-- The type arguments behind the first one. -/
def restTokens : List TypeName → List Lexeme
  | [] => [.sign .RBRACK]
  | arg :: rest => .sign .COMMA :: arg.tokens ++ restTokens rest

end

end TypeName

namespace ExprTree

/-- How tight the outermost form of a tree binds. -/
def level : ExprTree → Nat
  | binary op _ _ => binPrec op
  | unary .. => 7
  | _ => 8

/-- The levels of the operands: assignments associate to the right, the other operators to the left. -/
def leftLevel (op : BinaryOp) : Nat := if isAssignmentOp op then binPrec op + 1 else binPrec op

def rightLevel (op : BinaryOp) : Nat := if isAssignmentOp op then binPrec op else binPrec op + 1

/-- A cast whose type, as it is written, goes on at a `[` or a `.` behind it. -/
def openCast : ExprTree → Bool
  | cast _ type => type.bare
  | _ => false

def inParens (xs : List Lexeme) : List Lexeme := .sign .LPAREN :: xs ++ [.sign .RPAREN]

/-- The tokens of an operand, in parentheses where the level or something else demands them. -/
def operand (parens : Bool) (xs : List Lexeme) : List Lexeme := if parens then inParens xs else xs

mutual

/-- The tokens of a tree with no parentheses but those that the levels demand; where `guarded`, those around an open
cast with an index or a field behind it too. -/
def tokens (guarded : Bool) : ExprTree → List Lexeme
  | ident name => [.word .IDENT name]
  | literal kind text => [.word kind text]
  | null => [.sign .NULL]
  | unary op x => .sign op :: operand (x.level < 7) (x.tokens guarded)
  | binary op l r =>
    operand (l.level < leftLevel op) (l.tokens guarded) ++
      .sign op :: operand (r.level < rightLevel op) (r.tokens guarded)
  | call f args => operand (f.level < 8) (f.tokens guarded) ++ .sign .LPAREN :: argTokens guarded args
  | index b i =>
    operand (b.level < 8 || guarded && b.openCast) (b.tokens guarded) ++
      .sign .LBRACK :: i.tokens guarded ++ [.sign .RBRACK]
  | field b name =>
    operand (b.level < 8 || guarded && b.openCast) (b.tokens guarded) ++ [.sign .DOT, .word .IDENT name]
  | cast x type => operand (x.level < 8) (x.tokens guarded) ++ .sign .AS :: type.tokens
  | unwrap x => operand (x.level < 8) (x.tokens guarded) ++ [.sign .NOT]

def argTokens (guarded : Bool) : List ExprTree → List Lexeme
  | [] => [.sign .RPAREN]
  | arg :: rest => arg.tokens guarded ++ restTokens guarded rest

/-- The arguments behind the first one. -/
def restTokens (guarded : Bool) : List ExprTree → List Lexeme
  | [] => [.sign .RPAREN]
  | arg :: rest => .sign .COMMA :: arg.tokens guarded ++ restTokens guarded rest

end

end ExprTree

/-- What a node says apart from its range and its links. -/
structure Label where
  kind : AstKind
  op : TokenKind
  flags : UInt32
  text : List UInt8
  deriving DecidableEq, Repr

/-- The chain without the places of its nodes. -/
def Chain.anonymous {α : Type} : Chain α → Chain α
  | .nil => .nil
  | .cons _ a b kids rest => .cons 0 a b kids.anonymous rest.anonymous

/-- A node with its children and the siblings behind it, in no place. -/
def Chain.drawn {α : Type} (a : α) (kids rest : Chain α) : Chain α := .cons 0 a a kids rest

namespace TypeName

def label : TypeName → Label
  | mk first path _ => ⟨.TYPE_NAME, .INVALID, 0, first ++ pathText path⟩

mutual

def kids : TypeName → Chain Label
  | mk _ _ args => argKids args

def argKids : List TypeName → Chain Label
  | [] => .nil
  | arg :: rest => .drawn arg.label arg.kids (argKids rest)

end

end TypeName

namespace ExprTree

def label : ExprTree → Label
  | ident name => ⟨.IDENT, .INVALID, 0, name⟩
  | literal kind text => ⟨(Parser.literalKind kind).get kind.2, .INVALID, 0, text⟩
  | null => ⟨.NULL, .INVALID, 0, []⟩
  | unary op _ => ⟨.UNARY, op, 0, []⟩
  | binary op _ _ => ⟨.BINARY, op, 0, []⟩
  | call .. => ⟨.CALL, .INVALID, 0, []⟩
  | index .. => ⟨.INDEX, .INVALID, 0, []⟩
  | field _ name => ⟨.FIELD_EXPR, .INVALID, 0, name⟩
  | cast .. => ⟨.CAST, .AS, 0, []⟩
  | unwrap _ => ⟨.UNWRAP, .INVALID, 0, []⟩

def argLabel : Label := ⟨.CALL_ARG, .INVALID, 0, []⟩

mutual

/-- The nodes below that of a tree. -/
def kids : ExprTree → Chain Label
  | ident _ | literal .. | null => .nil
  | unary _ x | unwrap x | field x _ => .drawn x.label x.kids .nil
  | binary _ l r | index l r => .drawn l.label l.kids (.drawn r.label r.kids .nil)
  | call f args => .drawn f.label f.kids (argKids args)
  | cast x type => .drawn x.label x.kids (.drawn type.label type.kids .nil)

def argKids : List ExprTree → Chain Label
  | [] => .nil
  | arg :: rest => .drawn argLabel (.drawn arg.label arg.kids .nil) (argKids rest)

end

end ExprTree

section

/-- The tokens that can begin an expression, a literal in braces apart. -/
def opensExpr (kind : TokenKind) : Bool :=
  kind = .IDENT || kind = .NULL || kind = .LPAREN || Parser.isPrefixOp kind || (Parser.literalKind kind).isSome

/-- The tokens that expressions are written without. -/
def foreign : TokenKind → Bool
  | .EOF | .LBRACE | .COLON | .ELLIPSIS => true
  | _ => false

/-- No token is foreign, and every `+` and `-` has the start of an operand behind it. -/
def Calm : List Lexeme → Prop
  | [] => True
  | x :: rest =>
    (foreign x.kind = false ∧ (x.kind = .ADD ∨ x.kind = .SUB → ∃ y ∈ rest.head?, opensExpr y.kind = true)) ∧ Calm rest

/-- A list begins with a token of some kind. -/
def Begins (among : TokenKind → Bool) (xs : List Lexeme) : Prop := ∃ x ∈ xs.head?, among x.kind = true

theorem calm_nil : Calm [] := trivial

theorem Calm.append {xs ys : List Lexeme} (left : Calm xs) (right : Calm ys) : Calm (xs ++ ys) := by
  induction xs with
  | nil => exact right
  | cons x rest ih =>
    obtain ⟨⟨own, sign⟩, later⟩ := left
    refine ⟨⟨own, fun isSign => ?_⟩, ih later⟩
    obtain ⟨y, first, opens⟩ := sign isSign
    have some : (rest ++ ys).head? = rest.head? := by
      cases rest with
      | nil => simp at first
      | cons => rfl
    exact ⟨y, some ▸ first, opens⟩

/-- Neither foreign nor a sign. -/
def plain : TokenKind → Bool
  | .ADD | .SUB => false
  | kind => !foreign kind

theorem Calm.plain {x : Lexeme} {rest : List Lexeme} (calm : Calm rest) (own : plain x.kind = true) :
    Calm (x :: rest) := by
  refine ⟨⟨?_, fun sign => ?_⟩, calm⟩
  · cases kind : x.kind <;> simp_all [HopHop.plain, foreign]
  · rcases sign with same | same <;> simp [same, HopHop.plain] at own

theorem Calm.before {x : Lexeme} {rest : List Lexeme} (calm : Calm rest) (own : foreign x.kind = false)
    (opens : Begins opensExpr rest) : Calm (x :: rest) :=
  ⟨⟨own, fun _ => opens⟩, calm⟩

theorem Begins.append {among : TokenKind → Bool} {xs : List Lexeme} (ys : List Lexeme) (begins : Begins among xs) :
    Begins among (xs ++ ys) := by
  obtain ⟨x, first, kind⟩ := begins
  cases xs with
  | nil => simp at first
  | cons y rest => exact ⟨x, first, kind⟩

theorem Begins.some {among : TokenKind → Bool} {xs : List Lexeme} (begins : Begins among xs) : xs ≠ [] := by
  obtain ⟨x, first, _⟩ := begins
  intro none
  rw [none] at first
  cases first

end

namespace TypeName

theorem pathTokens_calm (path : List (List UInt8)) : Calm (pathTokens path) := by
  induction path with
  | nil => trivial
  | cons name path ih =>
    exact (ih.plain rfl).plain rfl

mutual

theorem tokens_calm : ∀ t : TypeName, Calm t.tokens
  | mk first path [] => (pathTokens_calm path).plain rfl
  | mk first path (arg :: rest) => by
    have args := (arg.tokens_calm.append (restTokens_calm rest)).plain (x := .sign .LBRACK) rfl
    have name := (pathTokens_calm path).plain (x := .word .IDENT first) rfl
    rw [tokens, List.append_assoc]
    exact name.append args

theorem restTokens_calm : ∀ args : List TypeName, Calm (restTokens args)
  | [] => calm_nil.plain rfl
  | arg :: rest => (arg.tokens_calm.append (restTokens_calm rest)).plain rfl

end

end TypeName

namespace ExprTree

theorem binPrec_le (kind : TokenKind) : binPrec kind ≤ 6 := by cases kind <;> decide

theorem prefixOp_own (op : PrefixOp) : foreign op.val = false := by
  obtain ⟨kind, isOp⟩ := op
  cases kind <;> first | rfl | simp [Parser.isPrefixOp] at isOp

theorem binaryOp_own (op : BinaryOp) : foreign op.val = false := by
  obtain ⟨kind, isOp⟩ := op
  cases kind <;> first | rfl | simp [binPrec, isAssignmentOp] at isOp

theorem literal_plain (kind : LiteralToken) : plain kind.val = true := by
  obtain ⟨kind, isLiteral⟩ := kind
  cases kind <;> first | rfl | simp [Parser.literalKind] at isLiteral

theorem operand_calm {parens : Bool} {xs : List Lexeme} (calm : Calm xs) : Calm (operand parens xs) := by
  unfold operand inParens
  split
  · exact (calm.append (calm_nil.plain rfl)).plain rfl
  · exact calm

theorem operand_begins {among : TokenKind → Bool} {parens : Bool} {xs : List Lexeme} (paren : among .LPAREN = true)
    (begins : parens = false → Begins among xs) : Begins among (operand parens xs) := by
  cases parens with
  | true => exact ⟨.sign .LPAREN, rfl, paren⟩
  | false => exact begins rfl

theorem operand_opens {parens : Bool} {xs : List Lexeme} (opens : Begins opensExpr xs) :
    Begins opensExpr (operand parens xs) :=
  operand_begins rfl fun _ => opens

theorem tokens_opens (guarded : Bool) (t : ExprTree) : Begins opensExpr (t.tokens guarded) := by
  induction t using ExprTree.rec (motive_2 := fun _ => True) with
  | ident name => exact ⟨_, rfl, rfl⟩
  | literal kind text =>
    exact ⟨_, rfl, by simp [opensExpr, Lexeme.word, kind.2]⟩
  | null => exact ⟨_, rfl, rfl⟩
  | unary op x _ => exact ⟨_, rfl, by simp [opensExpr, Lexeme.sign, op.2]⟩
  | binary op l r ihL _ => exact (operand_opens ihL).append _
  | call f args ihF _ => exact (operand_opens ihF).append _
  | index b i ihB _ => rw [tokens, List.append_assoc]; exact (operand_opens ihB).append _
  | field b name ihB => exact (operand_opens ihB).append _
  | cast x type ihX => exact (operand_opens ihX).append _
  | unwrap x ihX => exact (operand_opens ihX).append _
  | nil => trivial
  | cons => trivial

theorem literal_primary (kind : LiteralToken) : Parser.isPrefixOp kind = false := by
  obtain ⟨kind, isLiteral⟩ := kind
  cases kind <;> first | rfl | simp [Parser.literalKind] at isLiteral

theorem level_le (t : ExprTree) : t.level ≤ 8 := by
  cases t with
  | binary op l r => exact Nat.le_trans (binPrec_le op) (by decide)
  | unary op x => exact Nat.le_succ 7
  | _ => exact Nat.le_refl 8

theorem one_le_level (t : ExprTree) : 1 ≤ t.level := by
  cases t with
  | binary op l r => exact op.2
  | unary op x => exact Nat.succ_pos 6
  | _ => exact Nat.succ_pos 7

/-- An operand of a postfix form in its parentheses, or whole. -/
theorem operand_primary {among : TokenKind → Bool} {x : ExprTree} {more : Bool} {xs : List Lexeme}
    (paren : among .LPAREN = true) (begins : x.level = 8 → Begins among xs) :
    Begins among (operand (x.level < 8 || more) xs) := by
  refine operand_begins paren fun bare => begins ?_
  have most := x.level_le
  simp only [Bool.or_eq_false_iff, decide_eq_false_iff_not] at bare
  omega

theorem operand_whole {among : TokenKind → Bool} {x : ExprTree} {xs : List Lexeme} (paren : among .LPAREN = true)
    (begins : x.level = 8 → Begins among xs) : Begins among (operand (x.level < 8) xs) := by
  have first : Begins among (operand (x.level < 8 || false) xs) := operand_primary paren begins
  rwa [Bool.or_false] at first

/-- What a postfix form may follow begins with no prefix operator. -/
theorem tokens_primary (guarded : Bool) (t : ExprTree) :
    t.level = 8 → Begins (fun kind => !Parser.isPrefixOp kind) (t.tokens guarded) := by
  induction t using ExprTree.rec (motive_2 := fun _ => True) with
  | ident name => exact fun _ => ⟨_, rfl, rfl⟩
  | literal kind text => exact fun _ => ⟨_, rfl, by simp [Lexeme.word, literal_primary]⟩
  | null => exact fun _ => ⟨_, rfl, rfl⟩
  | unary op x _ => exact fun level => absurd level (by simp [ExprTree.level])
  | binary op l r _ _ =>
    have most := binPrec_le op
    exact fun level => absurd level (by simp only [ExprTree.level]; omega)
  | call f args ihF _ =>
    exact fun _ => (operand_whole rfl ihF).append _
  | index b i ihB _ =>
    rw [tokens, List.append_assoc]
    exact fun _ => (operand_primary rfl ihB).append _
  | field b name ihB => exact fun _ => (operand_primary rfl ihB).append _
  | cast x type ihX =>
    exact fun _ => (operand_whole rfl ihX).append _
  | unwrap x ihX =>
    exact fun _ => (operand_whole rfl ihX).append _
  | nil => trivial
  | cons => trivial

mutual

theorem tokens_calm (guarded : Bool) : ∀ t : ExprTree, Calm (t.tokens guarded)
  | ident name => calm_nil.plain rfl
  | literal kind text => calm_nil.plain (literal_plain kind)
  | null => calm_nil.plain rfl
  | unary op x => (operand_calm (tokens_calm guarded x)).before (prefixOp_own op) (operand_opens (tokens_opens guarded x))
  | binary op l r =>
    (operand_calm (tokens_calm guarded l)).append
      ((operand_calm (tokens_calm guarded r)).before (binaryOp_own op) (operand_opens (tokens_opens guarded r)))
  | call f args =>
    (operand_calm (tokens_calm guarded f)).append
      ((argTokens_calm guarded args).plain rfl)
  | index b i => by
    have closed : Calm [.sign .RBRACK] := calm_nil.plain rfl
    rw [tokens, List.append_assoc]
    exact (operand_calm (tokens_calm guarded b)).append
      (((tokens_calm guarded i).append closed).plain rfl)
  | field b name =>
    (operand_calm (tokens_calm guarded b)).append
      ((calm_nil.plain rfl).plain rfl)
  | cast x type =>
    (operand_calm (tokens_calm guarded x)).append (type.tokens_calm.plain rfl)
  | unwrap x =>
    (operand_calm (tokens_calm guarded x)).append (calm_nil.plain rfl)

theorem argTokens_calm (guarded : Bool) : ∀ args : List ExprTree, Calm (argTokens guarded args)
  | [] => calm_nil.plain rfl
  | arg :: rest => (tokens_calm guarded arg).append (restTokens_calm guarded rest)

theorem restTokens_calm (guarded : Bool) : ∀ args : List ExprTree, Calm (restTokens guarded args)
  | [] => calm_nil.plain rfl
  | arg :: rest => ((tokens_calm guarded arg).append (restTokens_calm guarded rest)).plain rfl

end

end ExprTree

namespace Parser

variable (p : Parser)

/-- The text of the source between two places. -/
def textAt (start stop : Nat) : List UInt8 := (p.src.drop start).take (stop - start)

/-- What a node says, the mark for parentheses apart. -/
def label (n : AstNode) : Label := ⟨n.kind, n.op, n.flags &&& ~~~AstFlag.PAREN, p.textAt n.dataStart n.dataEnd⟩

def Labelled (a _ : Label) (n : AstNode) : Prop := p.label n = a

/-- The node `n` of the table is the root of a tree of nodes that are drawn as the expression. -/
def Shows (N : List AstNode) (n : Nat) (t : ExprTree) : Prop :=
  ∃ kids, Holds p.Labelled N (.cons n t.label t.label kids .nil) ∧ kids.anonymous = t.kids

/-- The tokens from a place on are those to be written. -/
def Spells : Nat → List Lexeme → Prop
  | _, [] => True
  | pos, x :: rest =>
    ((p.tokAt pos).kind = x.kind ∧ (p.tokAt pos).start ≤ (p.tokAt pos).stop ∧
      (∀ text ∈ x.text, p.textAt (p.tokAt pos).start (p.tokAt pos).stop = text) ∧
      (x.glued = true → (p.tokAt pos).start = (p.tokAt (pos - 1)).stop)) ∧ Spells (pos + 1) rest

instance decidableSpells : ∀ (pos : Nat) (xs : List Lexeme), Decidable (p.Spells pos xs)
  | _, [] => isTrue trivial
  | pos, _ :: rest =>
    have := decidableSpells (pos + 1) rest
    inferInstanceAs (Decidable (_ ∧ _))

end Parser

end HopHop
