import HopHop.ParserExprRun

namespace HopHop

open Prog

namespace Parser

section

variable {p : Parser} {pos spare room stop : Nat} {N₀ : List AstNode} {s : ParseState} {F : List (Chain Label)}
  {β : Type} {Q : β → ParseState → Prop} {E : ParseState → Prop} {n : Nat} {a : Label} {kids below : Chain Label}
  {enter : Enter}

theorem newPostfix_drawn {kind : AstKind} {f : Nat → Parse β}
    (drawn : Drawn p N₀ s (pos + 1) (spare + 1) (.cons n a a kids .nil :: F)) (ofExpr : p.OfExpr)
    (next : ∀ n' s', Drawn p N₀ s' (pos + 1) spare
      (.cons n' ⟨kind, .INVALID, 0, []⟩ ⟨kind, .INVALID, 0, []⟩ (.cons n a a kids .nil) .nil :: F) →
      wp (f n') s' Q E) : wp (p.newPostfix kind n >>= f) s Q E := by
  rw [wp_bind]
  refine drawn.node fun _ => drawn.prev (drawn.newNode ofExpr fun n' s₁ drawn₁ => ?_)
  exact drawn₁.swap.addChild fun s₂ drawn₂ => next n' s₂ drawn₂

theorem closePostfix_run {close : TokenKind} (drawn : Drawn p N₀ s pos spare [.cons n a a kids .nil])
    (same : kids.anonymous = below) (kind : (p.tokAt pos).kind = close) (inside : pos + 1 < p.tokLen) :
    Runs (p.closePostfix n close) s (Rooted p N₀ (pos + 1) spare a below) := by
  refine drawn.expect kind inside fun s₁ drawn₁ => drawn₁.setEnd fun s₂ drawn₂ => ?_
  exact (drawn₂.less (by omega)).give same

theorem parseFieldAccess_run {name : List UInt8} (ofExpr : p.OfExpr)
    (drawn : Drawn p N₀ s (pos + 1) (spare + 1) [.cons n a a kids .nil]) (same : kids.anonymous = below)
    (ahead : p.Ahead [.word .IDENT name] (pos + 1) stop) :
    Runs (p.parseFieldAccess n) s (Rooted p N₀ stop spare ⟨.FIELD_EXPR, .INVALID, 0, name⟩ (.drawn a below .nil)) := by
  have ident : (p.tokAt (pos + 1)).kind = .IDENT := ahead.first
  have text := ahead.spells.1.2.2.1 name rfl
  have inside := ahead.inside
  obtain rfl : stop = pos + 1 + 1 := ahead.length
  refine newPostfix_drawn drawn ofExpr fun n' s₁ drawn₁ => drawn₁.expect ident inside fun s₂ drawn₂ => ?_
  refine drawn₂.setNode ⟨.FIELD_EXPR, .INVALID, 0, name⟩ (fun _ => ⟨rfl, rfl⟩) (fun node tells => ?_) fun s₃ drawn₃ => ?_
  · rw [label_data, tells, text]
  · exact drawn₃.setEnd fun s₄ drawn₄ => (drawn₄.less (by omega)).give (by rw [Chain.anonymous, same]; rfl)

theorem parseCast_run {type : TypeName} (ofExpr : p.OfExpr)
    (drawn : Drawn p N₀ s (pos + 1) (spare + 1) [.cons n a a kids .nil]) (same : kids.anonymous = below)
    (enough : p.tokLen ≤ pos + room + 1) (ahead : p.Ahead type.tokens (pos + 1) stop)
    (follow : type.bare = true → (p.tokAt stop).kind ≠ .DOT ∧ (p.tokAt stop).kind ≠ .LBRACK) :
    Runs (p.parseCast (p.enterFor room) n) s
      (Rooted p N₀ stop spare ⟨.CAST, .AS, 0, []⟩ (.drawn a below (.drawn type.label type.kids .nil))) := by
  refine newPostfix_drawn drawn ofExpr fun n' s₁ drawn₁ => ?_
  refine drawn₁.setNode ⟨.CAST, .AS, 0, []⟩ (fun _ => ⟨rfl, rfl⟩) (fun node tells => ?_) fun s₂ drawn₂ => ?_
  · rw [label_op, tells]
  have here := drawn₂.here
  have yields := typeYields ofExpr type room s₂ stop (by omega) (here.symm ▸ ahead.spells) (here.symm ▸ ahead.length)
    ahead.inside follow
  refine drawn₂.yields yields fun type' s₃ kids₃ drawn₃ same₃ => ?_
  refine drawn₃.addChild fun s₄ drawn₄ => drawn₄.node fun _ => drawn₄.setEnd fun s₅ drawn₅ => drawn₅.give ?_
  simp only [Chain.anonymous, Chain.append, same, same₃, Chain.drawn]

theorem parseIndex_run {sub : ExprTree} {xs : List Lexeme} (ofExpr : p.OfExpr)
    (drawn : Drawn p N₀ s (pos + 1) (spare + 1) [.cons n a a kids .nil]) (same : kids.anonymous = below)
    (enough : p.tokLen ≤ pos + room + 1) (inner : ExprYields p sub xs 1)
    (ahead : p.Ahead (xs ++ [.sign .RBRACK]) (pos + 1) stop) :
    Runs (p.parseIndex (p.enterFor room) n) s
      (Rooted p N₀ stop spare ⟨.INDEX, .INVALID, 0, []⟩ (.drawn a below (.drawn sub.label sub.kids .nil))) := by
  have close := ahead.right.first
  have inside := ahead.inside
  obtain rfl : stop = pos + 1 + xs.length + 1 := ahead.right.length
  refine newPostfix_drawn drawn ofExpr fun n' s₁ drawn₁ => drawn₁.pass (ofExpr.own _).2.1 ?_
  have here := drawn₁.here
  have yields := inner room s₁ (pos + 1 + xs.length) (by omega) (here.symm ▸ ahead.left) (by rw [close]; rfl)
    (by rw [close]; exact .inr rfl)
  refine drawn₁.yields yields fun sub' s₂ kids₂ drawn₂ same₂ => drawn₂.pass (ofExpr.own _).2.1 ?_
  refine drawn₂.addChild fun s₃ drawn₃ => closePostfix_run drawn₃ ?_ close inside
  simp only [Chain.anonymous, Chain.append, same, same₂, Chain.drawn]

/-- An argument adds a node of its own to the call. -/
theorem parseCallArg_run {arg : ExprTree} {xs : List Lexeme} (ofExpr : p.OfExpr)
    (drawn : Drawn p N₀ s pos (spare + 1) (.cons n a a kids .nil :: F)) (enough : p.tokLen ≤ pos + room)
    (inner : ExprYields p arg xs 1) (ahead : p.Ahead xs pos stop)
    (follow : (p.tokAt stop).kind = .COMMA ∨ (p.tokAt stop).kind = .RPAREN) :
    Runs (p.parseCallArg (p.enterFor room) n) s fun _ s' => ∃ kids',
      Drawn p N₀ s' stop spare (.cons n a a kids' .nil :: F) ∧ kids'.anonymous =
        kids.anonymous.append (.drawn ExprTree.argLabel (.drawn arg.label arg.kids .nil) .nil) := by
  refine wp_get_bind (drawn.peek ?_)
  have plain : ¬((p.tokAt pos).kind = .IDENT ∧ s.pos + 1 < p.tokLen ∧ (p.tokAt (s.pos + 1)).kind = .COLON) :=
    fun labelled => (ofExpr.own _).2.1 labelled.2.2
  simp only [if_neg plain]
  have here := drawn.here
  have ends : goesOn (p.tokAt stop).kind = false := by rcases follow with same | same <;> rw [same] <;> rfl
  have binds : binPrec (p.tokAt stop).kind = 0 := by rcases follow with same | same <;> rw [same] <;> rfl
  have yields := inner room s stop (by omega) (here.symm ▸ ahead) ends (.inr binds)
  refine drawn.yields yields fun arg' s₁ kids₁ drawn₁ same₁ => drawn₁.pass (ofExpr.own _).2.2 ?_
  refine wp_prev fun _ => drawn₁.node fun _ => drawn₁.newNode ofExpr fun argNode s₂ drawn₂ => ?_
  rw [if_neg (by decide)]
  refine drawn₂.swap.addChild fun s₃ drawn₃ => ?_
  refine wp_bind_pure.mp (drawn₃.addChild fun s₄ drawn₄ => ?_)
  refine ⟨_, drawn₄, ?_⟩
  simp only [anonymous_append, Chain.anonymous, Chain.append, same₁, Chain.drawn, ExprTree.argLabel]

theorem parseCall_run {args : List ExprTree} (ofExpr : p.OfExpr)
    (drawn : Drawn p N₀ s (pos + 1) (spare + 2) [.cons n a a kids .nil]) (same : kids.anonymous = below)
    (enough : p.tokLen ≤ pos + room + 1) (inner : ∀ arg ∈ args, ExprYields p arg (arg.tokens true) 1)
    (ahead : p.Ahead (ExprTree.argTokens true args) (pos + 1) stop) :
    Runs (p.parseCall (p.enterFor room) n) s
      (Rooted p N₀ stop spare ⟨.CALL, .INVALID, 0, []⟩ (.drawn a below (ExprTree.argKids args))) := by
  have inside := ahead.inside
  refine newPostfix_drawn drawn ofExpr fun n' s₁ drawn₁ => drawn₁.isAt ?_
  cases args with
  | nil =>
    have close : (p.tokAt (pos + 1)).kind = .RPAREN := ahead.first
    obtain rfl : stop = pos + 1 + 1 := ahead.length
    rw [close]
    refine closePostfix_run (drawn₁.less (Nat.le_succ spare)) ?_ close inside
    rw [Chain.anonymous, same]
    rfl
  | cons arg rest =>
    rw [ExprTree.argTokens, argRest_eq] at ahead
    have length := ahead.length
    simp only [List.length_append] at length
    have opens : (p.tokAt (pos + 1)).kind ≠ .RPAREN := by
      intro close
      have opens := ahead.left.opens (arg.tokens_opens true)
      rw [close] at opens
      cases opens
    rw [beq_false_of_ne opens]
    refine wp_seq (Drawn.commaLoop (ExprTree.tokens true) (fun _ => ExprTree.argLabel)
      (fun arg => .drawn arg.label arg.kids .nil) (pos + 1) (by decide) rest ?_ (Nat.le_refl _) drawn₁
      ahead.spells (by simp only [List.length_append]; omega) (by simp only [rounds]; omega)) ?_
    · intro y member pos' s' kids' after drawn' spells' inside' follow
      exact parseCallArg_run ofExpr drawn' (by omega) (inner y member) ⟨spells', rfl, inside'⟩ follow
    · rintro _ s₂ ⟨last, kids₂, place, close, drawn₂, same₂⟩
      simp only [List.length_append] at place
      obtain rfl : stop = last + 1 := by omega
      refine closePostfix_run drawn₂ ?_ close inside
      rw [same₂, argKids_eq, Chain.anonymous, same]
      rfl

/-- A tree in parentheses is what a postfix form may follow. -/
theorem parseParen_post {t : ExprTree} {xs : List Lexeme} (inner : ExprYields p t xs 1) :
    PostYields p t (ExprTree.inParens xs) false := by
  intro room s stop enough ahead _
  have inside := ahead.inside
  have kind : (p.tokAt s.pos).kind = .LPAREN := ahead.left.first
  have within : p.Ahead xs (s.pos + 1) (s.pos + 1 + xs.length) := ahead.next.left
  have close : (p.tokAt (s.pos + 1 + xs.length)).kind = .RPAREN := ahead.next.right.first
  obtain rfl : stop = s.pos + 1 + xs.length + 1 := ahead.next.right.length
  refine Yields.leads (fun spare spareRoom => ?_) (by omega)
  have start := Drawn.start (p := p) (by omega) spareRoom
  refine parsePrimary_other start (by simp [kind]) ?_
  simp only [kind, literalKind]
  refine start.pass (by simp [kind]) (start.take kind (by omega) fun s₁ drawn₁ => wp_prev fun _ => ?_)
  have here := drawn₁.here
  have yields := inner room s₁ (s.pos + 1 + xs.length) (by omega) (here.symm ▸ within) (by rw [close]; rfl)
    (by rw [close]; exact .inr rfl)
  refine drawn₁.yields yields fun n s₂ kids drawn₂ same => drawn₂.pass (by simp [close]) ?_
  refine drawn₂.expect close inside fun s₃ drawn₃ => ?_
  refine drawn₃.touch (fun _ => ⟨rfl, rfl⟩) paren_label fun s₄ drawn₄ => ?_
  exact (drawn₄.less (by omega)).give same

theorem parseUnary_prefix {op : PrefixOp} {x : ExprTree} {xs : List Lexeme} (ofExpr : p.OfExpr)
    (inner : PrefixYields p x xs) : PrefixYields p (.unary op x) (.sign op :: xs) := by
  intro room s stop enough ahead ends spare spareRoom
  have kind : (p.tokAt s.pos).kind = op.val := ahead.first
  have inside := ahead.inside
  have further := ahead.next.le
  obtain ⟨left, rfl⟩ : ∃ left, room = left + 1 := ⟨room - 1, by omega⟩
  have start := Drawn.start (p := p) (by omega) spareRoom
  refine start.peek ?_
  rw [kind, if_pos op.2]
  refine start.advance (by omega) fun s₁ drawn₁ => ?_
  have here := drawn₁.here
  refine drawn₁.yields (inner left s₁ stop (by omega) (here.symm ▸ ahead.next) ends) fun rhs s₂ kids drawn₂ same => ?_
  refine drawn₂.node fun _ => drawn₂.newNode ofExpr fun n s₃ drawn₃ => ?_
  refine drawn₃.setNode ⟨.UNARY, op, 0, []⟩ (fun _ => ⟨rfl, rfl⟩) (fun node tells => ?_) fun s₄ drawn₄ => ?_
  · rw [label_op, tells]
  refine drawn₄.swap.addChild fun s₅ drawn₅ => (drawn₅.less (by omega)).give ?_
  rw [Chain.append, Chain.anonymous, same]
  rfl

/-- A binary operator with its right operand, behind its left one. -/
theorem parseBinaryStep_goes {op : BinaryOp} {r : ExprTree} {xs : List Lexeme} {minPrec : Nat} (ofExpr : p.OfExpr)
    (drawn : Drawn p N₀ s pos spare [.cons n a a kids .nil]) (same : kids.anonymous = below)
    (enough : p.tokLen ≤ pos + room + 1) (tight : minPrec ≤ binPrec op)
    (inner : ExprYields p r xs (ExprTree.rightLevel op)) (ahead : p.Ahead (.sign op :: xs) pos stop)
    (ends : goesOn (p.tokAt stop).kind = false)
    (binds : binPrec (p.tokAt stop).kind < ExprTree.rightLevel op ∨ binPrec (p.tokAt stop).kind = 0) :
    Runs (p.parseBinaryStep (p.enterFor room) minPrec n) s
      (Goes p N₀ stop spare ⟨.BINARY, op, 0, []⟩ (.drawn a below (.drawn r.label r.kids .nil))) := by
  have kind : (p.tokAt pos).kind = op.val := ahead.first
  have inside := ahead.inside
  have further := ahead.next.le
  have some := op.2
  refine drawn.peek (wp_get_bind ?_)
  rw [if_neg (invalidAdjacent_none ofExpr drawn), kind, if_neg (by omega)]
  refine drawn.advance (by omega) fun s₁ drawn₁ => ?_
  have here := drawn₁.here
  refine drawn₁.yields (inner room s₁ stop (by omega) (here.symm ▸ ahead.next) ends binds) fun rhs s₂ kids₂ drawn₂ same₂ => ?_
  refine drawn₂.node fun _ => drawn₂.node fun _ => drawn₂.newNode ofExpr fun n₂ s₃ drawn₃ => ?_
  refine drawn₃.setNode ⟨.BINARY, op, 0, []⟩ (fun _ => ⟨rfl, rfl⟩) (fun node tells => ?_) fun s₄ drawn₄ => ?_
  · rw [label_op, tells]
  have rotated := drawn₄.perm (perm_front [.cons n₂ _ _ .nil .nil, .cons rhs _ _ kids₂ .nil] (c := .cons n a a kids .nil))
  refine rotated.addChild fun s₅ drawn₅ => drawn₅.swap.addChild fun s₆ drawn₆ => ?_
  refine ⟨n₂, rfl, _, drawn₆.less (by omega), ?_⟩
  simp only [Chain.append, Chain.anonymous, same, same₂, Chain.drawn]

end

end Parser

namespace ExprTree

/-- How tight an operator behind a tree may bind and leave the tree whole. -/
def reach : ExprTree → Nat
  | binary op _ _ => if isAssignmentOp op then 0 else binPrec op
  | _ => 6

theorem binPrec_assignment {kind : TokenKind} (assigns : isAssignmentOp kind = true) : binPrec kind = 1 := by
  unfold binPrec
  exact if_pos assigns

theorem binPrec_plain {kind : TokenKind} (some : 0 < binPrec kind) (plain : ¬isAssignmentOp kind = true) :
    2 ≤ binPrec kind := by
  cases kind <;> first | exact absurd rfl plain | simp [binPrec, isAssignmentOp] at some ⊢

theorem reach_within (t : ExprTree) {minPrec prec : Nat} (level : minPrec ≤ t.level) (small : prec ≤ 6)
    (binds : prec < minPrec ∨ prec = 0) : prec ≤ t.reach := by
  cases t with
  | binary op l r =>
    simp only [reach, ExprTree.level] at level ⊢
    split
    case isTrue assigns =>
      rw [binPrec_assignment assigns] at level
      omega
    case isFalse => omega
  | _ => exact small

theorem reach_left (t : ExprTree) {op : BinaryOp} (level : leftLevel op ≤ t.level) : binPrec op ≤ t.reach := by
  cases t with
  | binary op' l r =>
    have some := op.2
    simp only [reach, ExprTree.level, leftLevel] at level ⊢
    by_cases assigns' : isAssignmentOp op' = true
    · rw [binPrec_assignment assigns'] at level
      split at level
      · omega
      case isFalse plain =>
        have tight := binPrec_plain some plain
        omega
    · rw [if_neg assigns']
      split at level <;> omega
  | _ => exact binPrec_le op

end ExprTree

namespace Parser

section

variable {p : Parser} {t : ExprTree}

/-- The tokens of a tree are read as the tree, by every production that it may be written for. -/
structure TreeYields (p : Parser) (t : ExprTree) : Prop where
  post : t.level = 8 → PostYields p t (t.tokens true) t.openCast
  prefixed : t.level = 7 → PrefixYields p t (t.tokens true)
  bin : t.level < 7 → ∀ minPrec, minPrec ≤ t.level → BinYields p t (t.tokens true) minPrec t.reach

theorem TreeYields.prefixWhole (yields : TreeYields p t) (level : 7 ≤ t.level) : PrefixYields p t (t.tokens true) := by
  have most := t.level_le
  rcases Nat.eq_or_lt_of_le level with seven | eight
  · exact yields.prefixed seven.symm
  · have level : t.level = 8 := by omega
    exact (yields.post level).prefixed (t.tokens_primary true level)

theorem TreeYields.binWhole (yields : TreeYields p t) {minPrec : Nat} (level : minPrec ≤ t.level) :
    BinYields p t (t.tokens true) minPrec t.reach := by
  rcases Nat.lt_or_ge t.level 7 with low | high
  · exact yields.bin low minPrec level
  · exact (yields.prefixWhole high).bin (t.tokens_opens true).some minPrec t.reach

theorem TreeYields.exprWhole (yields : TreeYields p t) (ofExpr : p.OfExpr) {minPrec : Nat} (level : minPrec ≤ t.level) :
    ExprYields p t (t.tokens true) minPrec :=
  (yields.binWhole level).expr ofExpr fun _ small binds => t.reach_within level small binds

theorem TreeYields.parens (yields : TreeYields p t) (ofExpr : p.OfExpr) :
    PostYields p t (ExprTree.inParens (t.tokens true)) false :=
  parseParen_post (yields.exprWhole ofExpr t.one_le_level)

theorem TreeYields.postOperand (yields : TreeYields p t) (ofExpr : p.OfExpr) (parens : Bool)
    (whole : parens = false → t.level = 8) :
    PostYields p t (ExprTree.operand parens (t.tokens true)) (!parens && t.openCast) := by
  cases parens with
  | true => exact yields.parens ofExpr
  | false => exact yields.post (whole rfl)

theorem parens_prefixed (yields : TreeYields p t) (ofExpr : p.OfExpr) :
    PrefixYields p t (ExprTree.inParens (t.tokens true)) :=
  (yields.parens ofExpr).prefixed ⟨.sign .LPAREN, rfl, rfl⟩

theorem TreeYields.prefixOperand (yields : TreeYields p t) (ofExpr : p.OfExpr) :
    PrefixYields p t (ExprTree.operand (t.level < 7) (t.tokens true)) := by
  rcases Nat.lt_or_ge t.level 7 with low | high
  · rw [decide_eq_true low]
    exact parens_prefixed yields ofExpr
  · rw [decide_eq_false (Nat.not_lt.mpr high)]
    exact yields.prefixWhole high

theorem TreeYields.binOperand (yields : TreeYields p t) (ofExpr : p.OfExpr) {level minPrec reach : Nat}
    (tight : minPrec ≤ level) (reaches : level ≤ t.level → reach ≤ t.reach) :
    BinYields p t (ExprTree.operand (t.level < level) (t.tokens true)) minPrec reach := by
  rcases Nat.lt_or_ge t.level level with low | high
  · rw [decide_eq_true low]
    exact (parens_prefixed yields ofExpr).bin (by simp [ExprTree.inParens]) minPrec reach
  · rw [decide_eq_false (Nat.not_lt.mpr high)]
    intro room s stop enough ahead ends binds
    exact yields.binWhole (Nat.le_trans tight high) room s stop enough ahead ends (Nat.le_trans binds (reaches high))

theorem TreeYields.exprOperand (yields : TreeYields p t) (ofExpr : p.OfExpr) (level : Nat) :
    ExprYields p t (ExprTree.operand (t.level < level) (t.tokens true)) level := by
  rcases Nat.lt_or_ge t.level level with low | high
  · rw [decide_eq_true low]
    have some : ExprTree.inParens (t.tokens true) ≠ [] := by simp [ExprTree.inParens]
    exact ((parens_prefixed yields ofExpr).bin some level 6).expr ofExpr fun _ small _ => small
  · rw [decide_eq_false (Nat.not_lt.mpr high)]
    exact yields.exprWhole ofExpr high

/-- A tree that is no operator is read as soon as a postfix form may follow it. -/
theorem TreeYields.of_post (level : t.level = 8) (post : PostYields p t (t.tokens true) t.openCast) : TreeYields p t where
  post _ := post
  prefixed seven := absurd (level.symm.trans seven) (by decide)
  bin low := absurd (level ▸ low) (by decide)

theorem ident_yields (ofExpr : p.OfExpr) (name : List UInt8) : TreeYields p (.ident name) := by
  refine .of_post rfl fun room s stop enough ahead _ => ?_
  have length := ahead.length
  have further : s.pos < stop := by
    rw [length]
    exact Nat.lt_succ_self s.pos
  exact (parsePrimary_ident ofExpr enough ahead).leads (by omega)

theorem literal_yields (ofExpr : p.OfExpr) (kind : LiteralToken) (text : List UInt8) :
    TreeYields p (.literal kind text) := by
  refine .of_post rfl fun room s stop enough ahead _ => ?_
  obtain rfl : stop = s.pos + 1 := ahead.length
  exact (parsePrimary_literal ofExpr ahead).leads (Nat.succ_pos _)

theorem null_yields (ofExpr : p.OfExpr) : TreeYields p .null := by
  refine .of_post rfl fun room s stop enough ahead _ => ?_
  obtain rfl : stop = s.pos + 1 := ahead.length
  exact (parsePrimary_null ofExpr ahead).leads (Nat.succ_pos _)

/-- A postfix form is read behind its operand. -/
theorem TreeYields.postfix {u : ExprTree} {parens : Bool} {x : Lexeme} {rest : List Lexeme} (yields : TreeYields p t)
    (ofExpr : p.OfExpr) (whole : parens = false → t.level = 8) (level : u.level = 8)
    (tokens : u.tokens true = ExprTree.operand parens (t.tokens true) ++ x :: rest)
    (apart : parens = false → t.openCast = true → x.kind ≠ .DOT ∧ x.kind ≠ .LBRACK)
    (round : ∀ room N₀ s pos stop n kids spare, p.tokLen ≤ pos + room + 1 →
      Drawn p N₀ s pos spare [.cons n t.label t.label kids .nil] → kids.anonymous = t.kids →
      p.Ahead (x :: rest) pos stop →
      (u.openCast = true → (p.tokAt stop).kind ≠ .DOT ∧ (p.tokAt stop).kind ≠ .LBRACK) →
      Runs (p.parsePostfixStep (p.enterFor room) n) s (Goes p N₀ stop spare u.label u.kids)) :
    TreeYields p u := by
  refine .of_post level fun room s stop enough ahead follow => ?_
  rw [tokens] at ahead
  have next := ahead.right
  have further := next.next.le
  have leads := yields.postOperand ofExpr parens whole room s _ enough ahead.left fun openEnd => ?_
  · refine leads.step (by omega) fun n s' spare kids drawn same => ?_
    exact round room s.nodes s' _ stop n kids spare (by omega) drawn same next follow
  · rw [next.first]
    simp only [Bool.and_eq_true, Bool.not_eq_true'] at openEnd
    exact apart openEnd.1 openEnd.2

theorem level_of_whole {t : ExprTree} (whole : decide (t.level < 8) = false) : t.level = 8 := by
  have most := t.level_le
  simp only [decide_eq_false_iff_not] at whole
  omega

theorem unwrap_yields (ofExpr : p.OfExpr) (yields : TreeYields p t) : TreeYields p (.unwrap t) := by
  refine yields.postfix ofExpr level_of_whole rfl rfl (fun _ _ => ⟨by decide, by decide⟩) ?_
  intro room N₀ s pos stop n kids spare _ drawn same ahead _
  have kind : (p.tokAt pos).kind = .NOT := ahead.first
  have inside := ahead.inside
  obtain rfl : stop = pos + 1 := ahead.length
  unfold parsePostfixStep
  refine drawn.pass (by simp [kind]) (drawn.pass (by simp [kind]) (drawn.pass (by simp [kind])
    (drawn.pass (by simp [kind]) (drawn.take kind inside fun s₁ drawn₁ => ?_))))
  refine newPostfix_drawn drawn₁ ofExpr fun n' s₂ drawn₂ => ?_
  exact ⟨n', rfl, _, drawn₂.less (by omega), by rw [Chain.anonymous, same]; rfl⟩

theorem cast_yields (ofExpr : p.OfExpr) (yields : TreeYields p t) (type : TypeName) : TreeYields p (.cast t type) := by
  refine yields.postfix ofExpr level_of_whole rfl rfl (fun _ _ => ⟨by decide, by decide⟩) ?_
  intro room N₀ s pos stop n kids spare enough drawn same ahead follow
  have kind : (p.tokAt pos).kind = .AS := ahead.first
  have inside := ahead.inside
  have further := ahead.next.le
  unfold parsePostfixStep
  refine drawn.pass (by simp [kind]) (drawn.pass (by simp [kind]) (drawn.pass (by simp [kind])
    (drawn.take kind (by omega) fun s₁ drawn₁ => Goes.of_rooted ?_)))
  exact parseCast_run ofExpr (drawn₁.less (Nat.le_succ _)) same enough ahead.next follow

theorem field_yields (ofExpr : p.OfExpr) (yields : TreeYields p t) (name : List UInt8) : TreeYields p (.field t name) := by
  refine yields.postfix ofExpr (fun whole => level_of_whole (Bool.or_eq_false_iff.mp whole).1) rfl rfl ?_ ?_
  · intro whole openEnd
    have guarded := (Bool.or_eq_false_iff.mp whole).2
    rw [openEnd] at guarded
    cases guarded
  intro room N₀ s pos stop n kids spare enough drawn same ahead _
  have kind : (p.tokAt pos).kind = .DOT := ahead.first
  have inside := ahead.inside
  have further := ahead.next.le
  unfold parsePostfixStep
  refine drawn.pass (by simp [kind]) (drawn.pass (by simp [kind])
    (drawn.take kind (by omega) fun s₁ drawn₁ => Goes.of_rooted ?_))
  exact parseFieldAccess_run ofExpr (drawn₁.less (Nat.le_succ _)) same ahead.next

theorem index_yields {sub : ExprTree} (ofExpr : p.OfExpr) (yields : TreeYields p t) (inner : TreeYields p sub) :
    TreeYields p (.index t sub) := by
  have tokens : (ExprTree.index t sub).tokens true =
      ExprTree.operand (t.level < 8 || t.openCast) (t.tokens true) ++
        .sign .LBRACK :: (sub.tokens true ++ [.sign .RBRACK]) := by
    rw [ExprTree.tokens, List.append_assoc]
    rfl
  refine yields.postfix ofExpr (fun whole => level_of_whole (Bool.or_eq_false_iff.mp whole).1) rfl tokens ?_ ?_
  · intro whole openEnd
    have guarded := (Bool.or_eq_false_iff.mp whole).2
    rw [openEnd] at guarded
    cases guarded
  intro room N₀ s pos stop n kids spare enough drawn same ahead _
  have kind : (p.tokAt pos).kind = .LBRACK := ahead.first
  have inside := ahead.inside
  have further := ahead.next.le
  unfold parsePostfixStep
  refine drawn.pass (by simp [kind]) (drawn.take kind (by omega) fun s₁ drawn₁ => Goes.of_rooted ?_)
  exact parseIndex_run ofExpr (drawn₁.less (Nat.le_succ _)) same enough (inner.exprWhole ofExpr sub.one_le_level) ahead.next

theorem call_yields {args : List ExprTree} (ofExpr : p.OfExpr) (yields : TreeYields p t)
    (inner : ∀ arg ∈ args, TreeYields p arg) : TreeYields p (.call t args) := by
  refine yields.postfix ofExpr level_of_whole rfl rfl (fun _ _ => ⟨by decide, by decide⟩) ?_
  intro room N₀ s pos stop n kids spare enough drawn same ahead _
  have kind : (p.tokAt pos).kind = .LPAREN := ahead.first
  have inside := ahead.inside
  have further := ahead.next.le
  unfold parsePostfixStep
  refine drawn.take kind (by omega) fun s₁ drawn₁ => Goes.of_rooted ?_
  exact parseCall_run ofExpr drawn₁ same enough (fun arg member => (inner arg member).exprWhole ofExpr arg.one_le_level)
    ahead.next

theorem unary_yields (ofExpr : p.OfExpr) (op : PrefixOp) (yields : TreeYields p t) : TreeYields p (.unary op t) where
  post level := absurd level (by simp [ExprTree.level])
  prefixed _ := parseUnary_prefix ofExpr (yields.prefixOperand ofExpr)
  bin low := absurd low (by simp [ExprTree.level])

theorem binaryOp_ends (op : BinaryOp) : goesOn op = false := by
  obtain ⟨kind, isOp⟩ := op
  cases kind <;> first | rfl | simp [binPrec, isAssignmentOp] at isOp

theorem le_leftLevel (op : BinaryOp) : binPrec op ≤ ExprTree.leftLevel op := by
  unfold ExprTree.leftLevel
  split <;> omega

/-- An operator that leaves a tree whole ends its right operand. -/
theorem binds_rightLevel {op : BinaryOp} {l r : ExprTree} {prec : Nat} (binds : prec ≤ (ExprTree.binary op l r).reach) :
    prec < ExprTree.rightLevel op ∨ prec = 0 := by
  simp only [ExprTree.reach] at binds
  unfold ExprTree.rightLevel
  split at binds
  case isTrue => exact .inr (by omega)
  case isFalse plain =>
    rw [if_neg plain]
    exact .inl (by omega)

theorem binary_yields {r : ExprTree} (ofExpr : p.OfExpr) (op : BinaryOp) (left : TreeYields p t) (right : TreeYields p r) :
    TreeYields p (.binary op t r) where
  post level := absurd level (by have most := ExprTree.binPrec_le op; simp only [ExprTree.level]; omega)
  prefixed level := absurd level (by have most := ExprTree.binPrec_le op; simp only [ExprTree.level]; omega)
  bin _ minPrec tight := by
    intro room s stop enough ahead ends binds
    have next := ahead.right
    have kind : (p.tokAt (s.pos + (ExprTree.operand (t.level < ExprTree.leftLevel op) (t.tokens true)).length)).kind = op.val :=
      next.first
    have inside := ahead.inside
    have further := next.next.le
    have first : minPrec ≤ ExprTree.leftLevel op := Nat.le_trans tight (le_leftLevel op)
    have operand := left.binOperand ofExpr first t.reach_left room s _ enough ahead.left
      (by rw [kind]; exact binaryOp_ends op) (Nat.le_of_eq (congrArg binPrec kind))
    refine operand.step (by omega) fun n s' spare kids drawn same => ?_
    have second := right.exprOperand ofExpr (ExprTree.rightLevel op)
    exact parseBinaryStep_goes ofExpr drawn same (by omega) tight second next ends (binds_rightLevel binds)

mutual

/-- Every tree is read as it is written. -/
theorem treeYields (ofExpr : p.OfExpr) : ∀ t : ExprTree, TreeYields p t
  | .ident name => ident_yields ofExpr name
  | .literal kind text => literal_yields ofExpr kind text
  | .null => null_yields ofExpr
  | .unary op x => unary_yields ofExpr op (treeYields ofExpr x)
  | .binary op l r => binary_yields ofExpr op (treeYields ofExpr l) (treeYields ofExpr r)
  | .call f args => call_yields ofExpr (treeYields ofExpr f) (argsYield ofExpr args)
  | .index b i => index_yields ofExpr (treeYields ofExpr b) (treeYields ofExpr i)
  | .field b name => field_yields ofExpr (treeYields ofExpr b) name
  | .cast x type => cast_yields ofExpr (treeYields ofExpr x) type
  | .unwrap x => unwrap_yields ofExpr (treeYields ofExpr x)

theorem argsYield (ofExpr : p.OfExpr) : ∀ args : List ExprTree, ∀ arg ∈ args, TreeYields p arg
  | [] => by simp
  | arg :: rest => by
    have first := treeYields ofExpr arg
    have later := argsYield ofExpr rest
    intro x member
    rcases List.mem_cons.mp member with rfl | old
    · exact first
    · exact later x old

end

/-- A stream that spells an expression and ends there is one that expressions are written with. -/
theorem OfExpr.of_spells {xs : List Lexeme} (spells : p.Spells 0 xs) (calm : Calm xs) (length : p.tokLen = xs.length + 1)
    (eof : (p.tokAt xs.length).kind = .EOF) (room : 2 * p.tokLen ≤ p.nodeCap) : p.OfExpr := by
  have cases (i : Nat) : i < xs.length ∨ (p.tokAt i).kind = .EOF ∨ (p.tokAt i).kind = .INVALID := by
    rcases Nat.lt_trichotomy i xs.length with inside | rfl | outside
    · exact .inl inside
    · exact .inr (.inl eof)
    · have none : p.tok[i]? = none := List.getElem?_eq_none (by simp only [tokLen] at length; omega)
      exact .inr (.inr (by rw [tokAt, List.getD_eq_getElem?_getD, none]; rfl))
  refine ⟨⟨by omega, ?_⟩, fun i => ?_, fun i sign => ?_, room⟩
  · rw [length, Nat.add_sub_cancel]
    exact eof
  · rcases cases i with inside | last | outside
    · have own := (spells.calm calm (Nat.zero_le i) (by omega)).1
      refine ⟨?_, ?_, ?_⟩ <;> intro kind <;> rw [kind] at own <;> cases own
    · simp [last]
    · simp [outside]
  · rcases cases i with inside | last | outside
    · exact (spells.calm calm (Nat.zero_le i) (by omega)).2 sign
    · rw [last] at sign
      rcases sign with add | sub
      · cases add
      · cases sub
    · rw [outside] at sign
      rcases sign with add | sub
      · cases add
      · cases sub

end

end Parser

/-- Written with the parentheses that the levels demand, and with those around a cast that an index or a field would
reach into, every expression tree is read as it is, to its last token. -/
theorem parseExpr_tokens (p : Parser) (t : ExprTree) (s : ParseState) (spells : p.Spells 0 (t.tokens true))
    (length : p.tokLen = (t.tokens true).length + 1) (eof : (p.tokAt (t.tokens true).length).kind = .EOF)
    (cap : p.nodeCap = 4 * p.tokLen + 16) (start : s.pos = 0) (empty : s.nodes = []) :
    ∃ n s', p.parseExpr p.enterAny 1 s = .ok n s' ∧ p.Shows s'.nodes n t ∧ s'.pos = (t.tokens true).length := by
  have ofExpr : p.OfExpr := .of_spells spells (t.tokens_calm true) length eof (by omega)
  have ahead : p.Ahead (t.tokens true) s.pos (t.tokens true).length := ⟨start ▸ spells, by omega, by omega⟩
  have yields := (Parser.treeYields ofExpr t).exprWhole ofExpr t.one_le_level (p.tokLen + 1 + 1) s _ (by omega) ahead
    (by rw [eof]; rfl) (by rw [eof]; exact .inr rfl)
  rcases wp_exists (yields 0 (by rw [empty]; exact Nat.zero_le _)) with ⟨n, s', run, kids, drawn, same⟩ | ⟨_, _, none⟩
  · exact ⟨n, s', run, ⟨kids, drawn.split.head, same⟩, drawn.here⟩
  · exact none.elim

theorem parseExpr_tokens_castIndex :
    let p : Parser := ⟨bytesOf "-(a as T)[i]", [⟨.SUB, 0, 1⟩, ⟨.LPAREN, 1, 2⟩, ⟨.IDENT, 2, 3⟩, ⟨.AS, 4, 6⟩, ⟨.IDENT, 7, 8⟩,
      ⟨.RPAREN, 8, 9⟩, ⟨.LBRACK, 9, 10⟩, ⟨.IDENT, 10, 11⟩, ⟨.RBRACK, 11, 12⟩, ⟨.EOF, 12, 12⟩], 56⟩
    ∃ n s', p.parseExpr p.enterAny 1 ⟨0, [], ⟨⟨.NONE, 0, 0⟩, 0, 0⟩, 0⟩ = .ok n s' ∧
      p.Shows s'.nodes n (.unary ⟨.SUB, rfl⟩ (.index (.cast (.ident (bytesOf "a")) (.mk (bytesOf "T") [] []))
        (.ident (bytesOf "i")))) ∧ s'.pos = 9 := by
  exact parseExpr_tokens _ (.unary ⟨.SUB, rfl⟩ (.index (.cast (.ident (bytesOf "a")) (.mk (bytesOf "T") [] []))
    (.ident (bytesOf "i")))) _ (by decide +kernel) rfl rfl rfl rfl rfl

/-- The kind of the node an expression is read as. -/
def Parser.exprKind (p : Parser) (s : ParseState) : AstKind :=
  match p.parseExpr p.enterAny 1 s with
  | .ok n s' => (Parser.nodeAt s'.nodes n).kind
  | _ => .FILE

/-- Without the parentheses around the cast its type takes the index for its own. -/
theorem parseExpr_tokens_openCast : ¬∀ (p : Parser) (t : ExprTree) (s : ParseState), p.Spells 0 (t.tokens false) →
    p.tokLen = (t.tokens false).length + 1 → (p.tokAt (t.tokens false).length).kind = .EOF →
    p.nodeCap = 4 * p.tokLen + 16 → s.pos = 0 → s.nodes = [] →
    ∃ n s', p.parseExpr p.enterAny 1 s = .ok n s' ∧ p.Shows s'.nodes n t ∧ s'.pos = (t.tokens false).length := by
  intro claim
  let p : Parser := ⟨bytesOf "a as T[i]", [⟨.IDENT, 0, 1⟩, ⟨.AS, 2, 4⟩, ⟨.IDENT, 5, 6⟩, ⟨.LBRACK, 6, 7⟩, ⟨.IDENT, 7, 8⟩,
    ⟨.RBRACK, 8, 9⟩, ⟨.EOF, 9, 9⟩], 44⟩
  let s : ParseState := ⟨0, [], ⟨⟨.NONE, 0, 0⟩, 0, 0⟩, 0⟩
  have outcome : p.exprKind s = .CAST := by decide +kernel
  obtain ⟨n, s', run, ⟨kids, ⟨⟨node, here, label, _⟩, _⟩, _⟩, _⟩ :=
    claim p (.index (.cast (.ident (bytesOf "a")) (.mk (bytesOf "T") [] [])) (.ident (bytesOf "i"))) s
      (by decide +kernel) rfl rfl rfl rfl rfl
  have kind : node.kind = .INDEX := congrArg Label.kind label
  simp only [Parser.exprKind, run, nodeAt_of_getElem? here, kind] at outcome
  cases outcome

end HopHop
