import HopHop.ParserRun

namespace HopHop

open Prog

namespace Parser

section

variable {p : Parser} {pos spare : Nat} {N₀ : List AstNode} {s : ParseState} {F : List (Chain Label)}
  {β : Type} {Q : β → ParseState → Prop} {E : ParseState → Prop}

theorem typeRest_eq (args : List TypeName) : TypeName.restTokens args = listTokens TypeName.tokens .RBRACK args := by
  induction args with
  | nil => rfl
  | cons arg rest ih => rw [TypeName.restTokens, listTokens, ih]

theorem argRest_eq (args : List ExprTree) :
    ExprTree.restTokens true args = listTokens (ExprTree.tokens true) .RPAREN args := by
  induction args with
  | nil => rfl
  | cons arg rest ih => rw [ExprTree.restTokens, listTokens, ih]

theorem typeKids_eq (args : List TypeName) : TypeName.argKids args = listDrawn TypeName.label TypeName.kids args := by
  induction args with
  | nil => rfl
  | cons arg rest ih => rw [TypeName.argKids, listDrawn, ih]

theorem argKids_eq (args : List ExprTree) :
    ExprTree.argKids args =
      listDrawn (fun _ => ExprTree.argLabel) (fun arg => .drawn arg.label arg.kids .nil) args := by
  induction args with
  | nil => rfl
  | cons arg rest ih => rw [ExprTree.argKids, listDrawn, ih]

/-- The text between two places of the source, taken apart at a place between them. -/
theorem textAt_split {a b c : Nat} (left : a ≤ b) (right : b ≤ c) : p.textAt a c = p.textAt a b ++ p.textAt b c := by
  have drop : p.src.drop b = (p.src.drop a).drop (b - a) := by rw [List.drop_drop]; congr 1; omega
  have length : c - a = (b - a) + (c - b) := by omega
  simp only [textAt, drop, length, List.take_add]

/-- The text of a dotted path, from a token before it on. -/
theorem Spells.path {path : List (List UInt8)} : ∀ {last start : Nat},
    p.Spells (last + 1) (TypeName.pathTokens path) → start ≤ (p.tokAt last).stop →
    p.textAt start (p.tokAt (last + (TypeName.pathTokens path).length)).stop =
      p.textAt start (p.tokAt last).stop ++ TypeName.pathText path := by
  induction path with
  | nil => intro last start _ _; simp [TypeName.pathTokens, TypeName.pathText]
  | cons name path ih =>
    intro last start spells before
    obtain ⟨⟨_, dotRange, dotText, dotGlued⟩, ⟨_, range, text, glued⟩, later⟩ := spells
    have dotStart := dotGlued rfl
    have nameStart := glued rfl
    simp only [Nat.add_sub_cancel] at dotStart nameStart
    have reach : start ≤ (p.tokAt (last + 1 + 1)).stop := by omega
    have shifted := ih later reach
    change p.textAt start (p.tokAt (last + 2 + (TypeName.pathTokens path).length)).stop =
      p.textAt start (p.tokAt (last + 2)).stop ++ TypeName.pathText path at shifted
    have dot : p.textAt (p.tokAt last).stop (p.tokAt (last + 1)).stop = [Byte.dot] := dotStart ▸ dotText _ rfl
    have segment : p.textAt (p.tokAt (last + 1)).stop (p.tokAt (last + 1 + 1)).stop = name := nameStart ▸ text _ rfl
    simp only [TypeName.pathTokens, List.length_cons, TypeName.pathText]
    rw [show last + ((TypeName.pathTokens path).length + 1 + 1) = last + 2 + (TypeName.pathTokens path).length by omega,
      shifted, textAt_split (b := (p.tokAt last).stop) before (by show _ ≤ (p.tokAt (last + 1 + 1)).stop; omega),
      textAt_split (a := (p.tokAt last).stop) (b := (p.tokAt (last + 1)).stop) (by omega)
        (by show _ ≤ (p.tokAt (last + 1 + 1)).stop; omega), dot, segment]
    simp

/-- The loop over a dotted path takes all of it. -/
theorem dottedName_run (path : List (List UInt8)) : ∀ {room last : Nat} {s : ParseState},
    Drawn p N₀ s (last + 1) spare F → p.Spells (last + 1) (TypeName.pathTokens path) →
    last + 1 + (TypeName.pathTokens path).length < p.tokLen →
    (p.tokAt (last + 1 + (TypeName.pathTokens path).length)).kind ≠ .DOT → p.tokLen < last + 1 + room →
    Runs (.loop (fun last => do
      let s ← .get
      if p.dottedAt s.pos last then
        p.advance
        p.advance
        Pure.pure (.inl (p.tokAt (s.pos + 1)))
      else Pure.pure (.inr last)) room (p.tokAt last)) s fun t s' =>
        t = p.tokAt (last + (TypeName.pathTokens path).length) ∧
          Drawn p N₀ s' (last + 1 + (TypeName.pathTokens path).length) spare F := by
  induction path with
  | nil =>
    intro room last s drawn _ inside follow enough
    have here := drawn.here
    obtain ⟨left, rfl⟩ : ∃ left, room = left + 1 := ⟨room - 1, by omega⟩
    have noDot : (p.tokAt s.pos).kind ≠ .DOT := by rw [here]; exact follow
    have none : ¬p.dottedAt s.pos (p.tokAt last) = true := by simp [dottedAt, noDot]
    refine wp_loop_succ (wp_get_bind ?_)
    rw [if_neg none]
    exact ⟨rfl, drawn⟩
  | cons name path ih =>
    intro room last s drawn spells inside follow enough
    obtain ⟨⟨dot, dotRange, _, dotGlued⟩, ⟨ident, range, _, glued⟩, later⟩ := spells
    have dotStart := dotGlued rfl
    have nameStart := glued rfl
    simp only [Nat.add_sub_cancel] at dotStart nameStart
    simp only [TypeName.pathTokens, List.length_cons] at inside follow ⊢
    have here := drawn.here
    obtain ⟨left, rfl⟩ : ∃ left, room = left + 1 := ⟨room - 1, by omega⟩
    have dotted : p.dottedAt s.pos (p.tokAt last) = true := by
      have more : last + 1 + 1 < p.tokLen := by omega
      simp [dottedAt, here, dot, ident, dotStart, nameStart, more]
    refine wp_loop_succ (wp_get_bind ?_)
    rw [if_pos dotted, here]
    refine drawn.advance (by omega) fun s₁ drawn₁ => drawn₁.advance (by omega) fun s₂ drawn₂ => ?_
    have shift : last + 1 + ((TypeName.pathTokens path).length + 1 + 1) =
      last + 2 + 1 + (TypeName.pathTokens path).length := by omega
    have place : last + ((TypeName.pathTokens path).length + 1 + 1) = last + 2 + (TypeName.pathTokens path).length := by
      omega
    rw [shift] at inside follow
    rw [shift, place]
    have drawn₃ : Drawn p N₀ s₂ (last + 2 + 1) spare F := drawn₂.less (by omega)
    exact ih drawn₃ later inside follow (by omega)

/-- A type name is read as the node that is drawn for it; one with no type arguments when no `[` and no `.` follows. -/
def TypeYields (p : Parser) (type : TypeName) : Prop :=
  ∀ room s stop, p.tokLen ≤ s.pos + room → p.Spells s.pos type.tokens → stop = s.pos + type.tokens.length →
    stop < p.tokLen → (type.bare = true → (p.tokAt stop).kind ≠ .DOT ∧ (p.tokAt stop).kind ≠ .LBRACK) →
    Yields p (p.enterFor room .type) s stop type.label type.kids

theorem parseType_name {enter : Enter} {Q : Nat → ParseState → Prop} (drawn : Drawn p N₀ s pos spare F) (ident : (p.tokAt pos).kind = .IDENT)
    (next : wp (p.parseTypeName enter) s Q E) : wp (p.parseType enter) s Q E := by
  unfold parseType
  refine drawn.pass (by simp [ident]) (drawn.pass (by simp [ident]) (drawn.pass (by simp [ident])
    (drawn.pass (by simp [ident]) (drawn.isAt ?_))))
  simp only [ident]
  refine drawn.pass (by simp [ident]) (drawn.isAt ?_)
  simp only [ident]
  refine drawn.isAt (drawn.isAt (drawn.isAt ?_))
  simp only [ident]
  exact next

theorem dottedName_drawn {path : List (List UInt8)} {last : Nat} {f : Token → Parse β} {Q : β → ParseState → Prop}
    (drawn : Drawn p N₀ s (last + 1) spare F) (spells : p.Spells (last + 1) (TypeName.pathTokens path))
    (inside : last + 1 + (TypeName.pathTokens path).length < p.tokLen)
    (follow : (p.tokAt (last + 1 + (TypeName.pathTokens path).length)).kind ≠ .DOT)
    (next : ∀ s', Drawn p N₀ s' (last + 1 + (TypeName.pathTokens path).length) spare F →
      Runs (f (p.tokAt (last + (TypeName.pathTokens path).length))) s' Q) :
    Runs (p.dottedName (p.tokAt last) >>= f) s Q := by
  refine wp_seq (dottedName_run path drawn spells inside follow (by simp only [rounds]; omega)) ?_
  rintro _ s' ⟨rfl, drawn'⟩
  exact next s' drawn'

mutual

theorem typeYields (ofExpr : p.OfExpr) : ∀ type : TypeName, TypeYields p type
  | .mk first path args => by
    intro room s stop enough spells length inside follow spare spareRoom
    have each := typeArgsYield ofExpr args
    have atLeast : s.pos + 1 + (TypeName.pathTokens path).length ≤ stop := by
      cases args <;> simp only [TypeName.tokens, List.length_append, List.length_cons] at length <;> omega
    obtain ⟨left, rfl⟩ : ∃ left, room = left + 1 := ⟨room - 1, by omega⟩
    obtain ⟨⟨⟨ident, range, text, _⟩, _⟩, spellsPath, notDot⟩ : (p.Spells s.pos [.word .IDENT first]) ∧
        p.Spells (s.pos + 1) (TypeName.pathTokens path) ∧
        (p.tokAt (s.pos + 1 + (TypeName.pathTokens path).length)).kind ≠ .DOT := by
      cases args with
      | nil =>
        refine ⟨⟨spells.1, trivial⟩, spells.2, ?_⟩
        have place : stop = s.pos + 1 + (TypeName.pathTokens path).length := by
          simp only [TypeName.tokens, List.length_cons] at length
          omega
        exact place ▸ (follow rfl).1
      | cons arg rest =>
        rw [TypeName.tokens, List.append_assoc] at spells
        obtain ⟨spellsName, ⟨bracket, _⟩, _⟩ := spells_append.mp spells
        refine ⟨⟨spellsName.1, trivial⟩, spellsName.2, ?_⟩
        have place : s.pos + (Lexeme.word .IDENT first :: TypeName.pathTokens path).length =
          s.pos + 1 + (TypeName.pathTokens path).length := by simp only [List.length_cons]; omega
        rw [place] at bracket
        simp [bracket, Lexeme.sign]
    have start := Drawn.start (p := p) (by omega) spareRoom
    refine parseType_name start ident ?_
    unfold parseTypeName
    refine start.peek ?_
    rw [if_pos (.inl ident)]
    refine start.advance (by omega) fun s₁ drawn₁ => drawn₁.prev (dottedName_drawn drawn₁ spellsPath (by omega) notDot ?_)
    intro s₂ drawn₂
    refine drawn₂.newNode ofExpr fun n s₃ drawn₃ => ?_
    refine drawn₃.setNode (TypeName.mk first path args).label (fun _ => ⟨rfl, rfl⟩) (fun n same => ?_) fun s₄ drawn₄ => ?_
    · rw [label_data, same, spellsPath.path range, text first rfl, TypeName.label]
    cases args with
    | nil =>
      have place : stop = s.pos + 1 + (TypeName.pathTokens path).length := by
        simp only [TypeName.tokens, List.length_cons] at length
        omega
      subst place
      refine drawn₄.pass (follow rfl).2 ?_
      exact (drawn₄.less (by omega)).give rfl
    | cons arg rest =>
      rw [TypeName.tokens, List.append_assoc] at spells length
      have behind := (spells_append.mp spells).2
      have place : s.pos + (Lexeme.word .IDENT first :: TypeName.pathTokens path).length =
        s.pos + 1 + (TypeName.pathTokens path).length := by simp only [List.length_cons]; omega
      rw [place] at behind
      obtain ⟨⟨bracket, _⟩, spellsArgs⟩ := behind
      change p.Spells _ (arg.tokens ++ TypeName.restTokens rest) at spellsArgs
      rw [typeRest_eq] at spellsArgs length
      simp only [List.length_append, List.length_cons] at length
      refine drawn₄.take bracket (by omega) fun s₅ drawn₅ => drawn₅.prev (drawn₅.setEnd fun s₆ drawn₆ => ?_)
      refine wp_seq (Drawn.commaLoop TypeName.tokens TypeName.label TypeName.kids (s.pos + 1) (by decide) rest ?_
        (by omega) (drawn₆.less (Nat.le_add_right (spare + 1) 2)) spellsArgs (by simp only [List.length_append]; omega)
        (by simp only [rounds]; omega)) ?_
      · intro y member pos' s' kids' after drawn' spells' inside' next'
        have here := drawn'.here
        have follows : y.bare = true → (p.tokAt (pos' + y.tokens.length)).kind ≠ .DOT ∧
            (p.tokAt (pos' + y.tokens.length)).kind ≠ .LBRACK := by
          intro _
          rcases next' with comma | close
          · simp [comma]
          · simp [close]
        have yields := each y member left s' _ (by omega) (here.symm ▸ spells') (by rw [here]) inside' follows
        refine drawn'.yields yields fun n' s₇ kids₇ drawn₇ same => ?_
        refine wp_bind_pure.mp (drawn₇.addChild fun s₈ drawn₈ => ?_)
        refine ⟨_, drawn₈.less (by omega), ?_⟩
        rw [anonymous_append, Chain.anonymous, same]
        rfl
      · rintro _ s₇ ⟨last, kids, place, close, drawn₇, same⟩
        simp only [List.length_append] at place
        refine drawn₇.expect close (by omega) fun s₈ drawn₈ => drawn₈.setEnd fun s₉ drawn₉ => ?_
        obtain rfl : stop = last + 1 := by omega
        refine (drawn₉.less (by omega)).give ?_
        rw [same, TypeName.kids, typeKids_eq]
        rfl

theorem typeArgsYield (ofExpr : p.OfExpr) : ∀ args : List TypeName, ∀ arg ∈ args, TypeYields p arg
  | [] => by simp
  | arg :: rest => by
    have first := typeYields ofExpr arg
    have later := typeArgsYield ofExpr rest
    intro x member
    rcases List.mem_cons.mp member with rfl | old
    · exact first
    · exact later x old

end

end

end Parser

end HopHop
