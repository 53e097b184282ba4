import HopHop.ExprTree
import HopHop.ParserDeclTree

namespace HopHop

open Prog

/-! Runs of the parser that do not refuse: what the tokens spell is read, and the nodes made of it are known. -/

namespace Parser

variable {p : Parser} {pos : Nat}

theorem spells_append {xs ys : List Lexeme} :
    p.Spells pos (xs ++ ys) ↔ p.Spells pos xs ∧ p.Spells (pos + xs.length) ys := by
  induction xs generalizing pos with
  | nil => simp [Spells]
  | cons x rest ih =>
    simp only [List.cons_append, Spells, List.length_cons, ih, and_assoc, Nat.add_assoc, Nat.add_comm 1]

theorem Spells.calm {xs : List Lexeme} (spells : p.Spells pos xs) (calm : Calm xs) {i : Nat} (after : pos ≤ i)
    (before : i < pos + xs.length) :
    foreign (p.tokAt i).kind = false ∧
      ((p.tokAt i).kind = .ADD ∨ (p.tokAt i).kind = .SUB → opensExpr (p.tokAt (i + 1)).kind = true) := by
  induction xs generalizing pos with
  | nil => simp only [List.length_nil] at before; omega
  | cons x rest ih =>
    obtain ⟨⟨kind, _⟩, later⟩ := spells
    obtain ⟨⟨own, sign⟩, calmLater⟩ := calm
    rcases Nat.eq_or_lt_of_le after with rfl | further
    · refine ⟨kind ▸ own, fun isSign => ?_⟩
      obtain ⟨y, first, opens⟩ := sign (kind ▸ isSign)
      cases rest with
      | nil => simp at first
      | cons z rest =>
        obtain rfl : z = y := by simpa using first
        exact later.1.1 ▸ opens
    · exact ih later calmLater further (by simp only [List.length_cons] at before; omega)

/-- A stream of tokens as expressions are written with, with room for its nodes. -/
structure OfExpr (p : Parser) : Prop where
  ends : p.EndsWithEof
  own : ∀ i, (p.tokAt i).kind ≠ .LBRACE ∧ (p.tokAt i).kind ≠ .COLON ∧ (p.tokAt i).kind ≠ .ELLIPSIS
  calm : ∀ i, (p.tokAt i).kind = .ADD ∨ (p.tokAt i).kind = .SUB → opensExpr (p.tokAt (i + 1)).kind = true
  room : 2 * p.tokLen ≤ p.nodeCap

theorem addChild_length {parent child : Nat} {s s' : ParseState} (run : p.addChild parent child s = .ok () s') :
    s'.nodes.length = s.nodes.length := by
  simp only [addChild] at run
  split at run
  · cases run
    exact List.length_modify ..
  · split at run
    · cases run
    · cases run
      exact List.length_modify ..

theorem label_data (n : AstNode) (start stop : Nat) :
    p.label { n with dataStart := start, dataEnd := stop } = { p.label n with text := p.textAt start stop } := rfl

theorem label_op (n : AstNode) (op : TokenKind) : p.label { n with op := op } = { p.label n with op := op } := rfl

theorem labelled_linkBlind : LinkBlind p.Labelled := fun _ _ _ _ _ same => same

end Parser

/-- The state `s`, at the place `pos`, of a part that has drawn the loose chains `F` behind the nodes `N₀` and that may
make `spare` more nodes than it takes tokens, counting two nodes for each. -/
structure Drawn (p : Parser) (N₀ : List AstNode) (s : ParseState) (pos spare : Nat) (F : List (Chain Label)) : Prop where
  split : Split p.Labelled N₀ s.nodes F
  here : s.pos = pos
  inside : pos < p.tokLen
  room : s.nodes.length + spare ≤ 2 * pos

/-- A part that is not refused. -/
abbrev Runs {α : Type} (m : Parse α) (s : ParseState) (Q : α → ParseState → Prop) : Prop := wp m s Q fun _ => False

/-- Up to a place a single tree is drawn, with a label and with nodes below it. -/
def Rooted (p : Parser) (N₀ : List AstNode) (stop spare : Nat) (a : Label) (below : Chain Label) (n : Nat)
    (s : ParseState) : Prop :=
  ∃ kids, Drawn p N₀ s stop spare [.cons n a a kids .nil] ∧ kids.anonymous = below

/-- A part that reads up to a place and draws a single tree. -/
def Yields (p : Parser) (m : Parse Nat) (s : ParseState) (stop : Nat) (a : Label) (below : Chain Label) : Prop :=
  ∀ spare, s.nodes.length + spare ≤ 2 * s.pos → Runs m s (Rooted p s.nodes stop spare a below)

section

variable {p : Parser} {pos pos' spare : Nat} {N₀ : List AstNode} {s : ParseState} {F : List (Chain Label)}
  {α β : Type} {Q : β → ParseState → Prop} {E : ParseState → Prop}

theorem Drawn.start (inside : s.pos < p.tokLen) (room : s.nodes.length + spare ≤ 2 * s.pos) :
    Drawn p s.nodes s s.pos spare [] :=
  ⟨Split.start s.nodes, rfl, inside, room⟩

theorem Drawn.fresh (drawn : Drawn p N₀ s pos spare F) : Drawn p s.nodes s pos spare [] :=
  ⟨Split.start s.nodes, drawn.here, drawn.inside, drawn.room⟩

theorem Drawn.less {spare' : Nat} (drawn : Drawn p N₀ s pos spare F) (le : spare' ≤ spare) : Drawn p N₀ s pos spare' F :=
  ⟨drawn.split, drawn.here, drawn.inside, Nat.le_trans (Nat.add_le_add_left le _) drawn.room⟩

theorem Drawn.perm {G : List (Chain Label)} (drawn : Drawn p N₀ s pos spare F) (same : F.Perm G) :
    Drawn p N₀ s pos spare G :=
  ⟨drawn.split.perm same, drawn.here, drawn.inside, drawn.room⟩

theorem Drawn.swap {c d : Chain Label} (drawn : Drawn p N₀ s pos spare (c :: d :: F)) :
    Drawn p N₀ s pos spare (d :: c :: F) :=
  drawn.perm (.swap d c F)

theorem Drawn.join {s' : ParseState} {G : List (Chain Label)} (drawn : Drawn p N₀ s pos spare F)
    (more : Drawn p s.nodes s' pos' spare G) : Drawn p N₀ s' pos' spare (G ++ F) :=
  ⟨drawn.split.join more.split, more.here, more.inside, more.room⟩

/-- One token further. -/
theorem Drawn.step (drawn : Drawn p N₀ s pos spare F) (inside : pos + 1 < p.tokLen) :
    Drawn p N₀ { s with pos := s.pos + 1 } (pos + 1) (spare + 2) F where
  split := drawn.split
  here := congrArg (· + 1) drawn.here
  inside := inside
  room := by have room := drawn.room; simp only; omega

theorem Drawn.peek {f : Token → Parse β} (drawn : Drawn p N₀ s pos spare F) (next : wp (f (p.tokAt pos)) s Q E) :
    wp (p.peek >>= f) s Q E := by
  change wp (f (p.peekAt s.pos)) s Q E
  rw [drawn.here, Parser.peekAt_inside drawn.inside]
  exact next

theorem Drawn.prev {f : Token → Parse β} (drawn : Drawn p N₀ s (pos + 1) spare F) (next : wp (f (p.tokAt pos)) s Q E) :
    wp (p.prev >>= f) s Q E := by
  change wp (f (p.tokAt (s.pos - 1))) s Q E
  rw [drawn.here]
  exact next

theorem wp_prev {f : Token → Parse β} (next : ∀ t, wp (f t) s Q E) : wp (p.prev >>= f) s Q E := next _

theorem Drawn.isAt {kind : TokenKind} {f : Bool → Parse β} (drawn : Drawn p N₀ s pos spare F)
    (next : wp (f ((p.tokAt pos).kind == kind)) s Q E) : wp (p.isAt kind >>= f) s Q E := by
  change wp (f ((p.peekAt s.pos).kind == kind)) s Q E
  rw [drawn.here, Parser.peekAt_inside drawn.inside]
  exact next

theorem Drawn.advance {f : Unit → Parse β} (drawn : Drawn p N₀ s pos spare F) (inside : pos + 1 < p.tokLen)
    (next : ∀ s', Drawn p N₀ s' (pos + 1) (spare + 2) F → wp (f ()) s' Q E) : wp (p.advance >>= f) s Q E :=
  next _ (drawn.step inside)

/-- The token that may stand here does. -/
theorem Drawn.take {kind : TokenKind} {f : Bool → Parse β} (drawn : Drawn p N₀ s pos spare F)
    (same : (p.tokAt pos).kind = kind) (inside : pos + 1 < p.tokLen)
    (next : ∀ s', Drawn p N₀ s' (pos + 1) (spare + 2) F → wp (f true) s' Q E) : wp (p.matchTok kind >>= f) s Q E := by
  rw [wp_bind]
  refine drawn.isAt ?_
  rw [same, beq_self_eq_true, if_pos rfl]
  exact next _ (drawn.step inside)

/-- The token that may stand here does not. -/
theorem Drawn.pass {kind : TokenKind} {f : Bool → Parse β} (drawn : Drawn p N₀ s pos spare F)
    (differs : (p.tokAt pos).kind ≠ kind) (next : wp (f false) s Q E) : wp (p.matchTok kind >>= f) s Q E := by
  rw [wp_bind]
  refine drawn.isAt ?_
  rw [beq_false_of_ne differs, if_neg (by decide)]
  exact next

theorem Drawn.expect {kind : TokenKind} {code : DiagCode} {f : Token → Parse β} (drawn : Drawn p N₀ s pos spare F)
    (same : (p.tokAt pos).kind = kind) (inside : pos + 1 < p.tokLen)
    (next : ∀ s', Drawn p N₀ s' (pos + 1) (spare + 2) F → wp (f (p.tokAt pos)) s' Q E) :
    wp (p.expect kind code >>= f) s Q E := by
  rw [wp_bind]
  refine drawn.isAt ?_
  rw [same, beq_self_eq_true, if_pos rfl]
  exact drawn.peek (next _ (drawn.step inside))

/-- A new node, which says nothing but its kind. -/
theorem Drawn.newNode {kind : AstKind} {start stop : Nat} {f : Nat → Parse β}
    (drawn : Drawn p N₀ s pos (spare + 1) F) (ofExpr : p.OfExpr)
    (next : ∀ n s', Drawn p N₀ s' pos spare (.cons n ⟨kind, .INVALID, 0, []⟩ ⟨kind, .INVALID, 0, []⟩ .nil .nil :: F) →
      wp (f n) s' Q E) : wp (p.newNode kind start stop >>= f) s Q E := by
  have room := drawn.room
  have inside := drawn.inside
  have cap := ofExpr.room
  rw [wp_bind]
  change wp (if p.nodeCap ≤ s.nodes.length then _ else _) s _ _
  rw [if_neg (by omega)]
  refine next _ _ ⟨drawn.split.push ?_ rfl rfl, drawn.here, inside, ?_⟩
  · simp [Parser.Labelled, Parser.label, AstNode.fresh, Parser.textAt]
  · simp only [List.length_append, List.length_singleton]
    omega

/-- A change of what the root of a loose tree says. -/
theorem Drawn.setNode {kids rest : Chain Label} {id : Nat} {a : Label} {g : AstNode → AstNode} {f : Unit → Parse β}
    (drawn : Drawn p N₀ s pos spare (.cons id a a kids rest :: F)) (a' : Label) (links : KeepsLinks g)
    (facts : ∀ n, p.label n = a → p.label (g n) = a')
    (next : ∀ s', Drawn p N₀ s' pos spare (.cons id a' a' kids rest :: F) → wp (f ()) s' Q E) :
    wp (p.setNode id g >>= f) s Q E := by
  refine next _ ⟨Split.modify (x := .nil) drawn.split links facts, drawn.here, drawn.inside, ?_⟩
  simpa using drawn.room

/-- A change that is none of what a node says. -/
theorem Drawn.touch {kids rest : Chain Label} {id : Nat} {a : Label} {g : AstNode → AstNode} {f : Unit → Parse β}
    (drawn : Drawn p N₀ s pos spare (.cons id a a kids rest :: F)) (links : KeepsLinks g)
    (same : ∀ n, p.label (g n) = p.label n)
    (next : ∀ s', Drawn p N₀ s' pos spare (.cons id a a kids rest :: F) → wp (f ()) s' Q E) :
    wp (p.setNode id g >>= f) s Q E :=
  drawn.setNode a links (fun n facts => (same n).trans facts) next

theorem Drawn.setEnd {kids rest : Chain Label} {id stop : Nat} {a : Label} {f : Unit → Parse β}
    (drawn : Drawn p N₀ s pos spare (.cons id a a kids rest :: F))
    (next : ∀ s', Drawn p N₀ s' pos spare (.cons id a a kids rest :: F) → wp (f ()) s' Q E) :
    wp (p.setEnd id stop >>= f) s Q E :=
  drawn.touch (fun _ => ⟨rfl, rfl⟩) (fun _ => rfl) next

theorem Drawn.node {id : Nat} {f : AstNode → Parse β} (_ : Drawn p N₀ s pos spare F)
    (next : ∀ n, wp (f n) s Q E) : wp (p.node id >>= f) s Q E := next _

/-- A loose chain becomes the last children of the root of another one. -/
theorem Drawn.addChild {kids rest kids' rest' : Chain Label} {id id' : Nat} {a b a' b' : Label} {f : Unit → Parse β}
    (drawn : Drawn p N₀ s pos spare (.cons id' a' b' kids' rest' :: .cons id a b kids rest :: F))
    (next : ∀ s', Drawn p N₀ s' pos spare (.cons id a b (kids.append (.cons id' a' b' kids' rest')) rest :: F) →
      wp (f ()) s' Q E) : wp (p.addChild id id' >>= f) s Q E := by
  obtain ⟨N', run, split⟩ := Split.addChild (x := .nil) p Parser.labelled_linkBlind drawn.swap.split
  have length := Parser.addChild_length run
  have room := drawn.room
  rw [wp_bind, wp, run]
  exact next _ ⟨split, drawn.here, drawn.inside, by omega⟩

/-- A part that reads, and what follows it. -/
theorem Drawn.yields {m : Parse Nat} {stop : Nat} {a : Label} {below : Chain Label} {f : Nat → Parse β}
    (drawn : Drawn p N₀ s pos spare F) (yields : Yields p m s stop a below)
    (next : ∀ n s' kids, Drawn p N₀ s' stop spare (.cons n a a kids .nil :: F) → kids.anonymous = below →
      Runs (f n) s' Q) : Runs (m >>= f) s Q := by
  have room := drawn.room
  rw [← drawn.here] at room
  exact wp_seq (yields spare room) fun n s' ⟨kids, more, same⟩ => next n s' kids (drawn.join more) same

theorem Drawn.give {n : Nat} {a : Label} {kids below : Chain Label}
    (drawn : Drawn p N₀ s pos spare [.cons n a a kids .nil]) (same : kids.anonymous = below) :
    Runs (Pure.pure n) s (Rooted p N₀ pos spare a below) := ⟨kids, drawn, same⟩

theorem Drawn.congr {s' : ParseState} (drawn : Drawn p N₀ s pos spare F) (here : s'.pos = s.pos)
    (nodes : s'.nodes = s.nodes) : Drawn p N₀ s' pos spare F :=
  ⟨nodes ▸ drawn.split, here.trans drawn.here, drawn.inside, nodes ▸ drawn.room⟩

theorem Drawn.newLeaf {kind : AstKind} {t : Token} {f : Nat → Parse β}
    (drawn : Drawn p N₀ s pos (spare + 1) F) (ofExpr : p.OfExpr) (a : Label)
    (tells : a = ⟨kind, .INVALID, 0, p.textAt t.start t.stop⟩)
    (next : ∀ n s', Drawn p N₀ s' pos spare (.cons n a a .nil .nil :: F) → wp (f n) s' Q E) :
    wp (p.newLeaf kind t >>= f) s Q E := by
  rw [wp_bind]
  refine drawn.newNode ofExpr fun n s₁ drawn₁ => ?_
  refine drawn₁.setNode a (fun _ => ⟨rfl, rfl⟩) (fun node same => ?_) fun s₂ drawn₂ => ?_
  · rw [Parser.label_data, same, tells]
  · exact next n s₂ drawn₂

/-- The items of a list behind the first one, each behind a comma, and the token that closes the list. -/
def listTokens {ι : Type} (tokens : ι → List Lexeme) (close : TokenKind) : List ι → List Lexeme
  | [] => [.sign close]
  | x :: rest => .sign .COMMA :: tokens x ++ listTokens tokens close rest

def listDrawn {ι : Type} (root : ι → Label) (below : ι → Chain Label) : List ι → Chain Label
  | [] => .nil
  | x :: rest => .drawn (root x) (below x) (listDrawn root below rest)

theorem anonymous_append {α : Type} (c d : Chain α) : (c.append d).anonymous = c.anonymous.append d.anonymous := by
  induction c with
  | nil => rfl
  | cons id a b kids rest _ ih => simp only [Chain.append, Chain.anonymous, ih]

/-- A loop over the items of a list: each adds a child to a tree. -/
theorem Drawn.commaLoop {ι : Type} (tokens : ι → List Lexeme) {close : TokenKind} (root : ι → Label)
    (below : ι → Chain Label) {item : Unit → Parse Unit} {n : Nat} {a : Label} (start : Nat) (apart : close ≠ .COMMA)
    (rest : List ι) : ∀ {x : ι} {room pos : Nat} {s : ParseState} {kids : Chain Label},
    (∀ y ∈ x :: rest, ∀ pos s kids, start ≤ pos → Drawn p N₀ s pos (spare + 1) (.cons n a a kids .nil :: F) →
      p.Spells pos (tokens y) → pos + (tokens y).length < p.tokLen →
      (p.tokAt (pos + (tokens y).length)).kind = .COMMA ∨ (p.tokAt (pos + (tokens y).length)).kind = close →
      Runs (item ()) s fun _ s' => ∃ kids', Drawn p N₀ s' (pos + (tokens y).length) spare (.cons n a a kids' .nil :: F) ∧
        kids'.anonymous = kids.anonymous.append (.drawn (root y) (below y) .nil)) →
    start ≤ pos → Drawn p N₀ s pos (spare + 1) (.cons n a a kids .nil :: F) →
    p.Spells pos (tokens x ++ listTokens tokens close rest) →
    pos + (tokens x ++ listTokens tokens close rest).length < p.tokLen → p.tokLen < pos + room →
    Runs (.loop (fun a => do
      let a ← item a
      if ← p.matchTok .COMMA then Pure.pure (.inl a) else Pure.pure (.inr a)) room ()) s fun _ s' =>
        ∃ stop kids', stop + 1 = pos + (tokens x ++ listTokens tokens close rest).length ∧
          (p.tokAt stop).kind = close ∧ Drawn p N₀ s' stop spare (.cons n a a kids' .nil :: F) ∧
          kids'.anonymous = kids.anonymous.append (listDrawn root below (x :: rest)) := by
  induction rest with
  | nil =>
    intro x room pos s kids each after drawn spells inside enough
    obtain ⟨spellsItem, ⟨closes, _⟩, _⟩ := Parser.spells_append.mp spells
    simp only [listTokens, List.length_append, List.length_singleton] at inside ⊢
    obtain ⟨left, rfl⟩ : ∃ left, room = left + 1 := ⟨room - 1, by omega⟩
    refine wp_loop_succ (wp_seq (each x (by simp) pos s kids after drawn spellsItem (by omega) (.inr closes)) ?_)
    rintro _ s₁ ⟨kids₁, drawn₁, same⟩
    refine drawn₁.pass (fun comma => apart (closes.symm.trans comma)) ?_
    exact ⟨_, kids₁, by omega, closes, drawn₁, same⟩
  | cons y rest ih =>
    intro x room pos s kids each after drawn spells inside enough
    obtain ⟨spellsItem, ⟨comma, _⟩, spellsRest⟩ := Parser.spells_append.mp spells
    simp only [listTokens, List.length_append, List.length_cons] at inside ⊢
    obtain ⟨left, rfl⟩ : ∃ left, room = left + 1 := ⟨room - 1, by omega⟩
    refine wp_loop_succ (wp_seq (each x (by simp) pos s kids after drawn spellsItem (by omega) (.inl comma)) ?_)
    rintro _ s₁ ⟨kids₁, drawn₁, same₁⟩
    refine drawn₁.take comma (by omega) fun s₂ drawn₂ => ?_
    have later : start ≤ pos + (tokens x).length + 1 := by omega
    change Runs (.loop _ left ()) s₂ _
    refine wp_mono (ih (fun z member => each z (List.mem_cons_of_mem _ member)) later (drawn₂.less (by omega))
      spellsRest (by simp only [List.length_append]; omega) (by omega)) ?_ fun _ none => none
    rintro _ s₃ ⟨stop, kids₃, length, closes, drawn₃, same₃⟩
    refine ⟨stop, kids₃, ?_, closes, drawn₃, ?_⟩
    · simp only [List.length_append] at length
      omega
    · rw [same₃, same₁, Chain.append_assoc]
      rfl

/-- A part that reads something, and a loop that may go on with it. -/
def Leads (p : Parser) (m : Parse Nat) (body : Nat → Parse (Nat ⊕ Nat)) (s : ParseState) (stop : Nat) (a : Label)
    (below : Chain Label) : Prop :=
  ∀ spare (Q : Nat → ParseState → Prop), s.nodes.length + spare ≤ 2 * s.pos →
    (∀ n s' room kids, Drawn p s.nodes s' stop spare [.cons n a a kids .nil] → kids.anonymous = below →
      p.tokLen < stop + room → Runs (.loop body room n) s' Q) →
    Runs (m >>= fun n => .loop body p.rounds n) s Q

variable {m : Parse Nat} {body : Nat → Parse (Nat ⊕ Nat)} {stop stop' : Nat} {a a' : Label} {below below' : Chain Label}

theorem Yields.leads (yields : Yields p m s stop a below) (forward : 0 < stop) : Leads p m body s stop a below := by
  intro spare Q room next
  refine wp_seq (yields spare room) fun n s' ⟨kids, drawn, same⟩ => next n s' p.rounds kids drawn same ?_
  simp only [Parser.rounds]
  omega

/-- What a round of a loop does that goes on with a larger tree. -/
def Goes (p : Parser) (N₀ : List AstNode) (stop spare : Nat) (a : Label) (below : Chain Label) (r : Nat ⊕ Nat)
    (s : ParseState) : Prop :=
  ∃ n, r = .inl n ∧ Rooted p N₀ stop spare a below n s

theorem Goes.of_rooted {m : Parse Nat} {stop : Nat} {a : Label} {below : Chain Label}
    (run : Runs m s (Rooted p N₀ stop spare a below)) :
    Runs (m >>= fun n => Pure.pure (.inl n)) s (Goes p N₀ stop spare a below) :=
  wp_seq run fun n _ rooted => ⟨n, rfl, rooted⟩

/-- A round of the loop that goes on. -/
theorem Leads.step (leads : Leads p m body s stop a below) (forward : stop < stop')
    (round : ∀ n s' spare kids, Drawn p s.nodes s' stop spare [.cons n a a kids .nil] → kids.anonymous = below →
      Runs (body n) s' (Goes p s.nodes stop' spare a' below')) :
    Leads p m body s stop' a' below' := by
  intro spare Q room next
  refine leads spare Q room fun n s' rounds kids drawn same enough => ?_
  have inside := drawn.inside
  obtain ⟨left, rfl⟩ : ∃ left, rounds = left + 1 := ⟨rounds - 1, by omega⟩
  refine wp_loop_succ (wp_mono (round n s' spare kids drawn same) ?_ fun _ none => none)
  rintro _ s'' ⟨n', rfl, kids', drawn', same'⟩
  exact next n' s'' left kids' drawn' same' (by omega)

/-- The round in which the loop ends. -/
theorem Leads.close (leads : Leads p m body s stop a below)
    (round : ∀ n s' spare kids, Drawn p s.nodes s' stop spare [.cons n a a kids .nil] →
      Runs (body n) s' fun r s'' => r = .inr n ∧ s'' = s') :
    Yields p (m >>= fun n => .loop body p.rounds n) s stop a below := by
  intro spare room
  refine leads spare _ room fun n s' rounds kids drawn same enough => ?_
  have inside := drawn.inside
  obtain ⟨left, rfl⟩ : ∃ left, rounds = left + 1 := ⟨rounds - 1, by omega⟩
  refine wp_loop_succ (wp_mono (round n s' spare kids drawn) ?_ fun _ none => none)
  rintro _ s'' ⟨rfl, rfl⟩
  exact ⟨kids, drawn, same⟩

end

end HopHop
