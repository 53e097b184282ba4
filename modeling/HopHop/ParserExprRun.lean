import HopHop.ParserTypeRun

namespace HopHop

open Prog

namespace Parser

section

variable {p : Parser} {pos spare room : Nat} {N₀ : List AstNode} {s : ParseState} {F : List (Chain Label)}
  {β : Type} {Q : β → ParseState → Prop} {E : ParseState → Prop}

/-- Nothing is left of a try for a literal with a type in front where there are no braces. -/
theorem parseTypedLiteral_none (ofExpr : p.OfExpr) (inside : s.pos < p.tokLen) (enough : p.tokLen ≤ s.pos + room + 1) :
    Runs (p.parseTypedLiteral (p.enterFor room)) s fun r s' => r = none ∧ s'.pos = s.pos ∧ s'.nodes = s.nodes := by
  have closed := parseTypeName_closed ofExpr.ends inside (enterFor_good ofExpr.ends room enough)
  unfold parseTypedLiteral
  refine wp_get_bind (wp_try closed ?_ ?_)
  · rintro n s₁ ⟨pos₁, a, b, kids, mid, _⟩
    refine wp_get_bind (mid.peek (wp_ite (fun brace => absurd brace.1 (ofExpr.own pos₁).1) fun _ => ?_))
    exact ⟨rfl, rfl, Kept.take mid.keeps⟩
  · exact fun s₁ kept => ⟨rfl, rfl, Kept.take kept⟩

/-- What is ahead of a state: tokens that spell something, and one more token behind them. -/
structure Ahead (p : Parser) (xs : List Lexeme) (pos stop : Nat) : Prop where
  spells : p.Spells pos xs
  length : stop = pos + xs.length
  inside : stop < p.tokLen

theorem Ahead.left {xs ys : List Lexeme} {stop : Nat} (ahead : p.Ahead (xs ++ ys) pos stop) :
    p.Ahead xs pos (pos + xs.length) := by
  have length := ahead.length
  have inside := ahead.inside
  rw [List.length_append] at length
  exact ⟨(spells_append.mp ahead.spells).1, rfl, by omega⟩

theorem Ahead.right {xs ys : List Lexeme} {stop : Nat} (ahead : p.Ahead (xs ++ ys) pos stop) :
    p.Ahead ys (pos + xs.length) stop := by
  have length := ahead.length
  rw [List.length_append] at length
  exact ⟨(spells_append.mp ahead.spells).2, by omega, ahead.inside⟩

/-- The first of the tokens ahead. -/
theorem Ahead.first {x : Lexeme} {rest : List Lexeme} {stop : Nat} (ahead : p.Ahead (x :: rest) pos stop) :
    (p.tokAt pos).kind = x.kind := ahead.spells.1.1

theorem Ahead.next {x : Lexeme} {rest : List Lexeme} {stop : Nat} (ahead : p.Ahead (x :: rest) pos stop) :
    p.Ahead rest (pos + 1) stop := by
  have length := ahead.length
  rw [List.length_cons] at length
  exact ⟨ahead.spells.2, by omega, ahead.inside⟩

theorem Ahead.opens {xs : List Lexeme} {stop : Nat} (ahead : p.Ahead xs pos stop) (opens : Begins opensExpr xs) :
    opensExpr (p.tokAt pos).kind = true := by
  obtain ⟨x, first, opens⟩ := opens
  cases xs with
  | nil => cases first
  | cons y rest =>
    obtain rfl : y = x := by simpa using first
    exact ahead.first ▸ opens

theorem Ahead.le {xs : List Lexeme} {stop : Nat} (ahead : p.Ahead xs pos stop) : pos ≤ stop := by
  have length := ahead.length
  omega

/-- A name alone. -/
theorem parsePrimary_ident {name : List UInt8} {stop : Nat} (ofExpr : p.OfExpr) (enough : p.tokLen ≤ s.pos + room + 1)
    (ahead : p.Ahead [.word .IDENT name] s.pos stop) :
    Yields p (p.parsePrimary (p.enterFor room)) s stop (ExprTree.ident name).label .nil := by
  obtain ⟨⟨⟨ident, _, text, _⟩, _⟩, rfl, inside⟩ := ahead
  change (p.tokAt s.pos).kind = .IDENT at ident
  change s.pos + 1 < p.tokLen at inside
  intro spare spareRoom
  have start := Drawn.start (p := p) (by omega) spareRoom
  unfold parsePrimary
  refine start.isAt ?_
  rw [ident, if_pos (by rfl)]
  refine wp_seq (parseTypedLiteral_none ofExpr (by omega) enough) ?_
  rintro _ s₁ ⟨rfl, here, nodes⟩
  have start₁ := start.congr here nodes
  unfold parsePrimaryToken
  refine start₁.peek (wp_get_bind ?_)
  rw [if_neg (by simp [ident])]
  refine start₁.pass (by simp [ident]) ?_
  rw [if_neg (by decide), if_neg (by simp [ident]), if_pos (.inl ident)]
  refine start₁.advance inside fun s₂ drawn₂ => drawn₂.prev ?_
  refine wp_bind_pure.mp (drawn₂.newLeaf ofExpr (ExprTree.ident name).label ?_ fun n s₃ drawn₃ => ?_)
  · rw [text name rfl]
    rfl
  · exact (drawn₃.less (by omega)).give rfl

/-- At a token that begins neither a name nor a type. -/
theorem parsePrimary_other {enter : Enter} {Q : Nat → ParseState → Prop} (drawn : Drawn p N₀ s pos spare F)
    (kind : (p.tokAt pos).kind ≠ .IDENT ∧ (p.tokAt pos).kind ≠ .TYPE ∧ (p.tokAt pos).kind ≠ .LBRACE ∧
      (p.tokAt pos).kind ≠ .STRUCT)
    (next : wp (match literalKind (p.tokAt pos).kind with
    | some kind => do
      p.advance
      p.newLeaf kind (p.tokAt pos)
    | none => do
      if ← p.matchTok .NULL then
        let t ← p.prev
        p.newNode .NULL t.start t.stop
      else if ← p.matchTok .LPAREN then p.parseParen enter
      else if ← p.isAt .LBRACK then p.parseArrayLiteral enter
      else if ← p.isAt .FN then p.parseAnonFnExpr enter
      else if ← p.matchTok .SIZEOF then p.parseSizeof enter
      else if ← p.matchTok .ALLOC then p.parseAllocExpr enter
      else p.failWith .EXPECTED_EXPR) s Q E) : wp (p.parsePrimary enter) s Q E := by
  obtain ⟨notIdent, notType, notBrace, notStruct⟩ := kind
  unfold parsePrimary
  refine drawn.isAt ?_
  rw [beq_false_of_ne notIdent, if_neg (by decide)]
  unfold parsePrimaryToken
  refine drawn.peek (wp_get_bind ?_)
  rw [if_neg notBrace]
  refine drawn.pass notStruct ?_
  rw [if_neg (by decide), if_neg (fun typed => notType typed.1), if_neg (by simp [notIdent, notType])]
  exact next

theorem parsePrimary_literal {kind : LiteralToken} {text : List UInt8} {stop : Nat} {enter : Enter} (ofExpr : p.OfExpr)
    (ahead : p.Ahead [.word kind text] s.pos stop) :
    Yields p (p.parsePrimary enter) s stop (ExprTree.literal kind text).label .nil := by
  obtain ⟨⟨⟨same, _, textual, _⟩, _⟩, rfl, inside⟩ := ahead
  change (p.tokAt s.pos).kind = kind.val at same
  change s.pos + 1 < p.tokLen at inside
  intro spare spareRoom
  have start := Drawn.start (p := p) (by omega) spareRoom
  obtain ⟨kind, isLiteral⟩ := kind
  obtain ⟨leaf, isLeaf⟩ := Option.isSome_iff_exists.mp isLiteral
  refine parsePrimary_other start ?_ ?_
  · simp only at same
    rw [same]
    cases kind <;> simp_all [literalKind]
  simp only at same
  simp only [same, isLeaf]
  refine start.advance inside fun s₁ drawn₁ => ?_
  refine wp_bind_pure.mp (drawn₁.newLeaf ofExpr (ExprTree.literal ⟨kind, isLiteral⟩ text).label ?_ fun n s₂ drawn₂ => ?_)
  · rw [textual text rfl]
    simp [ExprTree.label, isLeaf]
  · exact (drawn₂.less (by omega)).give rfl

theorem parsePrimary_null {stop : Nat} {enter : Enter} (ofExpr : p.OfExpr)
    (ahead : p.Ahead [.sign .NULL] s.pos stop) :
    Yields p (p.parsePrimary enter) s stop ExprTree.null.label .nil := by
  obtain ⟨⟨⟨same, _⟩, _⟩, rfl, inside⟩ := ahead
  change (p.tokAt s.pos).kind = .NULL at same
  change s.pos + 1 < p.tokLen at inside
  intro spare spareRoom
  have start := Drawn.start (p := p) (by omega) spareRoom
  refine parsePrimary_other start (by simp [same]) ?_
  simp only [same, literalKind]
  refine start.take same inside fun s₁ drawn₁ => drawn₁.prev ?_
  refine wp_bind_pure.mp (drawn₁.newNode ofExpr fun n s₂ drawn₂ => ?_)
  exact (drawn₂.less (by omega)).give rfl

/-- The tokens a postfix form goes on with. -/
def goesOn : TokenKind → Bool
  | .LPAREN | .LBRACK | .DOT | .AS | .NOT => true
  | _ => false

/-- A loop over postfix forms ends before any other token. -/
theorem parsePostfixStep_ends {enter : Enter} {n : Nat} (drawn : Drawn p N₀ s pos spare F)
    (ends : goesOn (p.tokAt pos).kind = false) :
    Runs (p.parsePostfixStep enter n) s fun r s' => r = .inr n ∧ s' = s := by
  have differs {kind : TokenKind} (does : goesOn kind = true) : (p.tokAt pos).kind ≠ kind := by
    intro same
    rw [same, does] at ends
    cases ends
  unfold parsePostfixStep
  refine drawn.pass (differs rfl) (drawn.pass (differs rfl) (drawn.pass (differs rfl) (drawn.pass (differs rfl)
    (drawn.pass (differs rfl) ?_))))
  exact ⟨rfl, rfl⟩

theorem opensExpr_inside {kind : TokenKind} (opens : opensExpr kind = true) : isPostfixOperatorBoundary kind = false := by
  cases kind <;> first | rfl | cases opens

theorem invalidAdjacent_none (ofExpr : p.OfExpr) (drawn : Drawn p N₀ s pos spare F) :
    ¬(((p.tokAt pos).kind = .ADD ∨ (p.tokAt pos).kind = .SUB) ∧
      p.invalidAdjacentPostfix s.pos (p.tokAt pos).kind = true) := by
  rintro ⟨sign, adjacent⟩
  rw [drawn.here] at adjacent
  simp only [invalidAdjacentPostfix, Bool.and_eq_true, decide_eq_true_eq] at adjacent
  obtain ⟨⟨⟨_, again⟩, _⟩, boundary⟩ := adjacent
  have opens := ofExpr.calm (pos + 1) (again.symm ▸ sign)
  rw [opensExpr_inside opens] at boundary
  cases boundary

/-- A loop over binary operators ends before a token that binds less tight. -/
theorem parseBinaryStep_ends {enter : Enter} {n minPrec : Nat} (ofExpr : p.OfExpr) (drawn : Drawn p N₀ s pos spare F)
    (ends : binPrec (p.tokAt pos).kind < minPrec ∨ binPrec (p.tokAt pos).kind = 0) :
    Runs (p.parseBinaryStep enter minPrec n) s fun r s' => r = .inr n ∧ s' = s := by
  unfold parseBinaryStep
  refine drawn.peek (wp_get_bind ?_)
  rw [if_neg (invalidAdjacent_none ofExpr drawn), if_pos ends]
  exact ⟨rfl, rfl⟩

theorem paren_label (n : AstNode) : p.label { n with flags := n.flags ||| AstFlag.PAREN } = p.label n := by
  have same : (n.flags ||| AstFlag.PAREN) &&& ~~~AstFlag.PAREN = n.flags &&& ~~~AstFlag.PAREN := by
    apply UInt32.toBitVec_inj.mp
    ext i inside
    simp
    grind
  simp only [label, same]

/-- The tokens are read as the tree: as what a postfix form may follow. Where they are open at their end, neither a `[`
nor a `.` may. -/
def PostYields (p : Parser) (t : ExprTree) (xs : List Lexeme) (openEnd : Bool) : Prop :=
  ∀ room s stop, p.tokLen ≤ s.pos + room + 1 → p.Ahead xs s.pos stop →
    (openEnd = true → (p.tokAt stop).kind ≠ .DOT ∧ (p.tokAt stop).kind ≠ .LBRACK) →
    Leads p (p.parsePrimary (p.enterFor room)) (p.parsePostfixStep (p.enterFor room)) s stop t.label t.kids

/-- The tokens are read as the tree by the production for prefix operators. -/
def PrefixYields (p : Parser) (t : ExprTree) (xs : List Lexeme) : Prop :=
  ∀ room s stop, p.tokLen ≤ s.pos + room + 1 → p.Ahead xs s.pos stop → goesOn (p.tokAt stop).kind = false →
    Yields p (p.parsePrefix (p.enterFor room)) s stop t.label t.kids

/-- The tokens are read as the tree: as what a binary operator may follow, one that binds no tighter than `reach`. -/
def BinYields (p : Parser) (t : ExprTree) (xs : List Lexeme) (minPrec reach : Nat) : Prop :=
  ∀ room s stop, p.tokLen ≤ s.pos + room + 1 → p.Ahead xs s.pos stop → goesOn (p.tokAt stop).kind = false →
    binPrec (p.tokAt stop).kind ≤ reach →
    Leads p (p.parsePrefix (p.enterFor room)) (p.parseBinaryStep (p.enterFor room) minPrec) s stop t.label t.kids

/-- The tokens are read as the tree by the production for expressions. -/
def ExprYields (p : Parser) (t : ExprTree) (xs : List Lexeme) (minPrec : Nat) : Prop :=
  ∀ room s stop, p.tokLen ≤ s.pos + room → p.Ahead xs s.pos stop → goesOn (p.tokAt stop).kind = false →
    binPrec (p.tokAt stop).kind < minPrec ∨ binPrec (p.tokAt stop).kind = 0 →
    Yields p (p.enterFor room (.expr minPrec)) s stop t.label t.kids

section

variable {t : ExprTree} {xs : List Lexeme} {openEnd : Bool} {minPrec reach : Nat}

theorem PostYields.prefixed (post : PostYields p t xs openEnd) (primary : Begins (fun kind => !isPrefixOp kind) xs) :
    PrefixYields p t xs := by
  intro room s stop enough ahead ends spare spareRoom
  obtain ⟨x, rest, rfl⟩ : ∃ x rest, xs = x :: rest := List.exists_cons_of_ne_nil primary.some
  have plain : isPrefixOp x.kind = false := by
    obtain ⟨y, first, plain⟩ := primary
    obtain rfl : x = y := by simpa using first
    simpa using plain
  have kind : (p.tokAt s.pos).kind = x.kind := ahead.spells.1.1
  have inside := ahead.inside
  have length := ahead.length
  have start := Drawn.start (p := p) (by omega) spareRoom
  unfold parsePrefix
  refine start.peek ?_
  rw [kind, if_neg (by simp [plain])]
  have leads := post room s stop enough ahead fun _ => ⟨?_, ?_⟩
  · exact leads.close (fun n s' spare kids drawn => parsePostfixStep_ends drawn ends) spare spareRoom
  · intro dot
    rw [dot] at ends
    cases ends
  · intro bracket
    rw [bracket] at ends
    cases ends

theorem PrefixYields.bin (prefixed : PrefixYields p t xs) (some : xs ≠ []) (minPrec reach : Nat) :
    BinYields p t xs minPrec reach := by
  intro room s stop enough ahead ends _
  have inside := ahead.inside
  have length := ahead.length
  have more := List.length_pos_of_ne_nil some
  exact (prefixed room s stop enough ahead ends).leads (by omega)

theorem BinYields.expr (bin : BinYields p t xs minPrec reach) (ofExpr : p.OfExpr)
    (within : ∀ prec, prec ≤ 6 → prec < minPrec ∨ prec = 0 → prec ≤ reach) : ExprYields p t xs minPrec := by
  intro room s stop enough ahead ends binds
  have inside := ahead.inside
  have length := ahead.length
  obtain ⟨left, rfl⟩ : ∃ left, room = left + 1 := ⟨room - 1, by omega⟩
  refine Leads.close (bin left s stop enough ahead ends (within _ (ExprTree.binPrec_le _) binds)) ?_
  intro n s' spare kids drawn
  exact parseBinaryStep_ends ofExpr drawn binds

end

end

end Parser

end HopHop
