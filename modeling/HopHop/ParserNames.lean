import HopHop.Preserving
import HopHop.ParserType

namespace HopHop

open Prog

/-! The names that the parser takes before it knows whether they are type parameters or a group of results. -/

namespace Parser

section

variable (p : Parser)

/-- The place behind the names that commas separate from a place on. None where a comma has no name behind it. -/
def afterNames : Nat → Nat → Option Nat
  | 0, _ => none
  | room + 1, i =>
    if (p.peekAt i).kind = .IDENT then
      if (p.peekAt (i + 1)).kind = .COMMA then afterNames room (i + 2) else some (i + 1)
    else none

/-- In the place of a type parameter list stand names in an open bracket, and then no closing one. -/
def ListLeaks (pos : Nat) : Prop :=
  (p.peekAt pos).kind = .LBRACK ∧ ∃ i, p.afterNames p.rounds (pos + 1) = some i ∧ (p.peekAt i).kind ≠ .RBRACK

/-- A name that nothing may be declared under. -/
def refusesName (tok : Token) : Bool := p.isHoleName tok || p.reservedName tok

/-- The place behind the first name of a group that nothing may be declared under. -/
def afterRefused : Nat → Nat → Option Nat
  | 0, _ => none
  | room + 1, i =>
    if (p.peekAt i).kind = .IDENT then
      if p.refusesName (p.peekAt i) then some (i + 1)
      else if (p.peekAt (i + 1)).kind = .COMMA then afterRefused room (i + 2)
      else none
    else none

/-- In the place of a group of results, behind names of which only the last may not be declared, a type starts. -/
def GroupLeaks (pos : Nat) : Prop :=
  p.refusesName (p.peekAt pos) = false ∧
    ∃ i, p.afterRefused p.rounds pos = some i ∧ isTypeStart (p.peekAt i).kind = true

end

variable {p : Parser}

/-- What is to be declared next: a name is taken, with a diagnostic where it is refused. -/
theorem expectDeclName_run (s : ParseState) (named : (p.peekAt s.pos).kind = .IDENT) :
    if p.refusesName (p.peekAt s.pos) then
      ∃ s', p.expectDeclName false s = .fail s' ∧ s'.pos = s.pos + 1
    else p.expectDeclName false s = .ok (p.peekAt s.pos) { s with pos := s.pos + 1 } := by
  have taken : p.expect .IDENT .UNEXPECTED_TOKEN s = .ok (p.peekAt s.pos) { s with pos := s.pos + 1 } := by
    simp [expect, isAt, peek, advance, Bind.bind, Prog.bind, Pure.pure, Prog.pure, Prog.get, Prog.modify, named]
  have whole : p.expectDeclName false s =
      if p.isHoleName (p.peekAt s.pos) then p.failReservedName (p.peekAt s.pos) { s with pos := s.pos + 1 }
      else if p.reservedName (p.peekAt s.pos) then
        p.failAt .RESERVED_HOP_PREFIX (p.peekAt s.pos).start (p.peekAt s.pos).stop { s with pos := s.pos + 1 }
      else .ok (p.peekAt s.pos) { s with pos := s.pos + 1 } := by
    simp only [expectDeclName, Bind.bind, Prog.bind, taken, Bool.not_false, Bool.true_and]
    split_ifs <;> rfl
  unfold refusesName
  by_cases hole : p.isHoleName (p.peekAt s.pos) = true
  · rw [whole, if_pos hole, hole]
    exact ⟨_, rfl, rfl⟩
  · by_cases reserved : p.reservedName (p.peekAt s.pos) = true
    · rw [whole, if_neg hole, if_pos reserved, reserved, Bool.or_true]
      exact ⟨_, rfl, rfl⟩
    · rw [if_neg (by simp [hole, reserved]), whole, if_neg hole, if_neg reserved]

theorem matchTok_of_here {kind : TokenKind} {s : ParseState} (here : (p.peekAt s.pos).kind = kind) :
    p.matchTok kind s = .ok true { s with pos := s.pos + 1 } := by
  simp [matchTok, isAt, peek, advance, Bind.bind, Prog.bind, Pure.pure, Prog.pure, Prog.get, Prog.modify, here]

theorem matchTok_of_other {kind : TokenKind} {s : ParseState} (other : (p.peekAt s.pos).kind ≠ kind) :
    p.matchTok kind s = .ok false s := by
  simp [matchTok, isAt, peek, Bind.bind, Prog.bind, Pure.pure, Prog.pure, Prog.get, other]

theorem isAt_of_here {kind : TokenKind} {s : ParseState} (here : (p.peekAt s.pos).kind = kind) :
    p.isAt kind s = .ok true s := by
  simp [isAt, peek, Bind.bind, Prog.bind, Pure.pure, Prog.pure, Prog.get, here]

theorem isAt_of_other {kind : TokenKind} {s : ParseState} (other : (p.peekAt s.pos).kind ≠ kind) :
    p.isAt kind s = .ok false s := by
  simp [isAt, peek, Bind.bind, Prog.bind, Pure.pure, Prog.pure, Prog.get, other]

/-- One name in front of a group of results. -/
def resultName (p : Parser) (nameCount : Nat) : Parse (Nat ⊕ Nat) := do
  match ← .attempt (p.expectDeclName false) with
  | none => Pure.pure (.inr nameCount)
  | some _ =>
    if ← p.matchTok .COMMA then
      if ← p.isAt .IDENT then Pure.pure (.inl (nameCount + 1)) else Pure.pure (.inr (nameCount + 1))
    else Pure.pure (.inr (nameCount + 1))

/-- A name of a group that may be declared is taken, with the comma behind it, and nothing else happens. -/
theorem resultName_run {s : ParseState} (named : (p.peekAt s.pos).kind = .IDENT)
    (allowed : p.refusesName (p.peekAt s.pos) = false) (nameCount : Nat) : p.resultName nameCount s =
      if (p.peekAt (s.pos + 1)).kind = .COMMA then
        if (p.peekAt (s.pos + 2)).kind = .IDENT then .ok (.inl (nameCount + 1)) { s with pos := s.pos + 2 }
        else .ok (.inr (nameCount + 1)) { s with pos := s.pos + 2 }
      else .ok (.inr (nameCount + 1)) { s with pos := s.pos + 1 } := by
  have name := expectDeclName_run s named
  rw [allowed, if_neg Bool.false_ne_true] at name
  rw [resultName, bind_of_ok (attempt_of_ok name)]
  dsimp only
  by_cases comma : (p.peekAt (s.pos + 1)).kind = .COMMA
  · rw [if_pos comma, bind_of_ok (matchTok_of_here comma), if_pos rfl]
    by_cases next : (p.peekAt (s.pos + 2)).kind = .IDENT
    · rw [if_pos next, bind_of_ok (isAt_of_here next)]
      rfl
    · rw [if_neg next, bind_of_ok (isAt_of_other next)]
      rfl
  · rw [if_neg comma, bind_of_ok (matchTok_of_other comma)]
    rfl

/-- The names in front of a group of results leave a diagnostic only behind one that is refused. -/
theorem resultNames_run {n : Nat} {s s' : ParseState} (run : p.resultNames s = .ok n s')
    (named : (p.peekAt s.pos).kind = .IDENT) :
    s'.diag = s.diag ∨ p.afterRefused p.rounds s.pos = some s'.pos ∧
      (p.refusesName (p.peekAt s.pos) = true → n = 0) := by
  change loop p.resultName p.rounds 0 s = .ok n s' at run
  generalize p.rounds = room at run ⊢
  generalize 0 = nameCount at run ⊢
  induction room generalizing nameCount s with
  | zero => cases run
  | succ room ih =>
    rw [afterRefused, if_pos named]
    cases refused : p.refusesName (p.peekAt s.pos) with
    | true =>
      have name := expectDeclName_run s named
      rw [if_pos refused] at name
      obtain ⟨s₁, failed, here⟩ := name
      have stopped : p.resultName nameCount s = .ok (.inr nameCount) s₁ := bind_of_ok (attempt_of_fail failed)
      rw [loop_of_done stopped] at run
      cases run
      exact .inr ⟨congrArg some here.symm, fun _ => rfl⟩
    | false =>
      have round := resultName_run named refused nameCount
      split_ifs at round with comma next
      · rw [loop_of_more round] at run
        rw [if_neg Bool.false_ne_true, if_pos comma]
        rcases ih next _ run with same | ⟨found, -⟩
        · exact .inl same
        · exact .inr ⟨found, nofun⟩
      · rw [loop_of_done round] at run
        cases run
        exact .inl rfl
      · rw [loop_of_done round] at run
        cases run
        exact .inl rfl

/-- One name of a list of type parameters. -/
def typeParam (p : Parser) (ownerNode : Nat) : Parse (Unit ⊕ Bool) := do
  if ← p.isAt .IDENT then
    let name ← p.expectDeclName false
    let paramNode ← p.newNode .TYPE_PARAM name.start name.stop
    p.setData paramNode name
    p.addChild ownerNode paramNode
    if ← p.matchTok .COMMA then Pure.pure (.inl ()) else Pure.pure (.inr true)
  else Pure.pure (.inr false)

theorem newNode_ok {kind : AstKind} {start stop n : Nat} {s s' : ParseState}
    (run : p.newNode kind start stop s = .ok n s') :
    n = s.nodes.length ∧ s' = { s with nodes := s.nodes ++ [AstNode.fresh kind start stop] } := by
  have whole : p.newNode kind start stop s =
      if p.nodeCap ≤ s.nodes.length then p.failAt .ARENA_OOM start stop s
      else .ok s.nodes.length { s with nodes := s.nodes ++ [AstNode.fresh kind start stop] } := by
    simp only [newNode, Bind.bind, Prog.bind, Prog.get]
    split_ifs <;> rfl
  rw [whole] at run
  split_ifs at run
  · cases run
  · cases run
    exact ⟨rfl, rfl⟩

/-- A node is hung to its parent, or to the last child of it. -/
theorem addChild_ok {parent child : Nat} {s s' : ParseState} (run : p.addChild parent child s = .ok () s') :
    ((nodeAt s.nodes parent).firstChild < 0 ∧
      s' = { s with nodes := s.nodes.modify parent fun n => { n with firstChild := child } }) ∨
    ∃ n, 0 ≤ (nodeAt s.nodes parent).firstChild ∧
      lastSibling s.nodes s.nodes.length (nodeAt s.nodes parent).firstChild.toNat = some n ∧
      s' = { s with nodes := s.nodes.modify n fun m => { m with nextSibling := child } } := by
  unfold addChild at run
  dsimp only at run
  split at run
  · cases run
    exact .inl ⟨‹_›, rfl⟩
  · split at run
    · cases run
    · cases run
      exact .inr ⟨_, by omega, ‹_›, rfl⟩

/-- A name of a list is taken, with the comma behind it. -/
theorem typeParam_run {ownerNode : Nat} {s s' : ParseState} {r : Unit ⊕ Bool}
    (run : p.typeParam ownerNode s = .ok r s') (named : (p.peekAt s.pos).kind = .IDENT) :
    s'.diag = s.diag ∧ if (p.peekAt (s.pos + 1)).kind = .COMMA then r = .inl () ∧ s'.pos = s.pos + 2
      else r = .inr true ∧ s'.pos = s.pos + 1 := by
  rw [typeParam, bind_of_ok (isAt_of_here named), if_pos rfl] at run
  obtain ⟨name, s₁, declared, named₁⟩ := bind_eq_ok.mp run
  obtain ⟨paramNode, s₂, made, made₂⟩ := bind_eq_ok.mp named₁
  obtain ⟨_, s₃, noted, noted₃⟩ := bind_eq_ok.mp made₂
  obtain ⟨_, s₄, hung, rest⟩ := bind_eq_ok.mp noted₃
  have taken := expectDeclName_run s named
  split_ifs at taken with refused
  · obtain ⟨s₅, failed, -⟩ := taken
    exact absurd (declared.symm.trans failed) nofun
  · cases taken.symm.trans declared
    obtain ⟨rfl, rfl⟩ := newNode_ok made
    cases noted
    have here : s₄.pos = s.pos + 1 ∧ s₄.diag = s.diag := by
      rcases addChild_ok hung with ⟨-, rfl⟩ | ⟨n, -, -, rfl⟩ <;> exact ⟨rfl, rfl⟩
    rw [← here.1, ← here.2]
    by_cases comma : (p.peekAt s₄.pos).kind = .COMMA
    · rw [bind_of_ok (matchTok_of_here comma)] at rest
      cases rest
      rw [if_pos comma]
      exact ⟨rfl, rfl, by rw [here.1]⟩
    · rw [bind_of_ok (matchTok_of_other comma)] at rest
      cases rest
      rw [if_neg comma]
      exact ⟨rfl, rfl, rfl⟩

theorem typeParam_none {ownerNode : Nat} {s : ParseState} (other : (p.peekAt s.pos).kind ≠ .IDENT) :
    p.typeParam ownerNode s = .ok (.inr false) s := by
  rw [typeParam, bind_of_ok (isAt_of_other other)]
  rfl

/-- The names of a list are taken as `afterNames` says, without a diagnostic. -/
theorem typeParams_run {ownerNode room : Nat} {s s' : ParseState} {parsed : Bool}
    (run : loop (fun _ : Unit => p.typeParam ownerNode) room () s = .ok parsed s') :
    s'.diag = s.diag ∧ p.afterNames room s.pos = if parsed then some s'.pos else none := by
  induction room generalizing s with
  | zero => cases run
  | succ room ih =>
    rw [afterNames]
    by_cases named : (p.peekAt s.pos).kind = .IDENT
    · rw [if_pos named]
      rcases loop_eq_ok run with ⟨_, s₁, round, rest⟩ | round
      · obtain ⟨same, further⟩ := typeParam_run round named
        split_ifs at further with comma
        · obtain ⟨same', found⟩ := ih rest
          rw [if_pos comma, ← further.2]
          exact ⟨same'.trans same, found⟩
        · cases further.1
      · obtain ⟨same, further⟩ := typeParam_run round named
        split_ifs at further with comma
        · cases further.1
        · cases further.1
          rw [if_neg comma, further.2]
          exact ⟨same, rfl⟩
    · rw [loop_of_done (typeParam_none named)] at run
      cases run
      rw [if_neg named]
      exact ⟨rfl, rfl⟩

/-- The diagnostic where a list of names is not closed. -/
def openList (p : Parser) (i : Nat) : ParseDiag := ⟨⟨.UNEXPECTED_TOKEN, (p.peekAt i).start, (p.peekAt i).stop⟩, 0, 0⟩

/-- The nodes with the link to the children of a node, or to the children behind the last one, set. -/
def relink (ownerNode : Nat) (last : Option Nat) (link : Int) (nodes : List AstNode) : List AstNode :=
  match last with
  | some n => nodes.modify n fun node => { node with nextSibling := link }
  | none => nodes.modify ownerNode fun node => { node with firstChild := link }

theorem dropTypeParams_run (ownerNode : Nat) (last : Option Nat) (saved s : ParseState) :
    p.dropTypeParams ownerNode last saved s =
      .ok () { s with
        pos := saved.pos, nodes := relink ownerNode last (-1) (s.nodes.take saved.nodes.length) } := by
  cases last <;> rfl

theorem expect_of_here {kind : TokenKind} {code : DiagCode} {s : ParseState} (here : (p.peekAt s.pos).kind = kind) :
    p.expect kind code s = .ok (p.peekAt s.pos) { s with pos := s.pos + 1 } := by
  rw [expect, bind_of_ok (isAt_of_here here)]
  rfl

theorem expect_of_other {kind : TokenKind} {code : DiagCode} {s : ParseState} (other : (p.peekAt s.pos).kind ≠ kind) :
    p.expect kind code s = .fail (s.setDiag code (p.peekAt s.pos).start (p.peekAt s.pos).stop) := by
  rw [expect, bind_of_ok (isAt_of_other other)]
  rfl

/-- A list of type parameters: none is there, one is taken, or names are taken and then taken back. -/
theorem parseTypeParamList_run {ownerNode : Nat} {s s' : ParseState}
    (run : p.parseTypeParamList ownerNode s = .ok () s') :
    ((p.peekAt s.pos).kind ≠ .LBRACK ∧ s' = s) ∨ (p.peekAt s.pos).kind = .LBRACK ∧
      ∃ last s₁ parsed, lastChild ownerNode s = .ok last s ∧
        loop (fun _ : Unit => p.typeParam ownerNode) p.rounds () { s with pos := s.pos + 1 } = .ok parsed s₁ ∧
        if parsed = true ∧ (p.peekAt s₁.pos).kind = .RBRACK then s'.pos = s₁.pos + 1 ∧ s'.diag = s₁.diag
        else s'.pos = s.pos ∧ s'.nodes = relink ownerNode last (-1) (s₁.nodes.take s.nodes.length) ∧
          s'.diag = if parsed then p.openList s₁.pos else s₁.diag := by
  obtain ⟨saved, s₀, read, run₁⟩ := bind_eq_ok.mp run
  cases read
  obtain ⟨last, s₀, ended, run₂⟩ := bind_eq_ok.mp run₁
  have same : s₀ = s := by
    unfold lastChild at ended
    dsimp only at ended
    split at ended
    · cases ended
      rfl
    · split at ended
      · cases ended
      · cases ended
        rfl
  subst same
  by_cases bracket : (p.peekAt s₀.pos).kind = .LBRACK
  · refine .inr ⟨bracket, ?_⟩
    rw [bind_of_ok (matchTok_of_here bracket), if_pos rfl] at run₂
    obtain ⟨parsed, s₁, looped, run₃⟩ := bind_eq_ok.mp run₂
    refine ⟨last, s₁, parsed, ended, looped, ?_⟩
    cases parsed with
    | false =>
      rw [if_neg Bool.false_ne_true, dropTypeParams_run] at run₃
      cases run₃
      rw [if_neg fun both => Bool.false_ne_true both.1]
      exact ⟨rfl, rfl, rfl⟩
    | true =>
      rw [if_pos rfl] at run₃
      by_cases closed : (p.peekAt s₁.pos).kind = .RBRACK
      · rw [bind_of_ok (attempt_of_ok (expect_of_here closed))] at run₃
        cases run₃
        rw [if_pos ⟨rfl, closed⟩]
        exact ⟨rfl, rfl⟩
      · rw [bind_of_ok (attempt_of_fail (expect_of_other closed))] at run₃
        dsimp only at run₃
        rw [dropTypeParams_run] at run₃
        cases run₃
        rw [if_neg fun both => closed both.2]
        exact ⟨rfl, rfl, rfl⟩
  · rw [bind_of_ok (matchTok_of_other bracket)] at run₂
    cases run₂
    exact .inl ⟨bracket, rfl⟩

end Parser

end HopHop
