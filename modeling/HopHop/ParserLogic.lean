import HopHop.NodeForest
import HopHop.ParserDecl

namespace HopHop

open Prog

/-! How far a production has come: the nodes it has built, the tokens it has taken, and how deep in brackets it is. -/

/-- The depth in brackets behind a token. No depth where the token ends a statement at depth 0. -/
def turn : TokenKind → Nat → Option Nat
  | .LPAREN, d | .LBRACE, d | .LBRACK, d => some (d + 1)
  | .RPAREN, 0 | .RBRACE, 0 | .RBRACK, 0 => none
  | .RPAREN, d + 1 | .RBRACE, d + 1 | .RBRACK, d + 1 => some d
  | .SEMICOLON, 0 => none
  | .SEMICOLON, d + 1 => some (d + 1)
  | _, d => some d

/-- A token that ends nothing and leaves the depth as it is. -/
def isLevel : TokenKind → Bool
  | .EOF | .LPAREN | .LBRACE | .LBRACK | .RPAREN | .RBRACE | .RBRACK | .SEMICOLON => false
  | _ => true

/-- The token that ends the statement a stream is in the middle of: the first semicolon or closing bracket that is in
no brackets. -/
def stmtEnd : Nat → List TokenKind → Option TokenKind
  | _, [] => none
  | d, kind :: rest =>
    match turn kind d with
    | none => some kind
    | some d => stmtEnd d rest

namespace Parser

variable (p : Parser)

def kindsFrom (i : Nat) : List TokenKind := (p.tok.drop i).map Token.kind

/-- The stream ends with the token for the end of the source. -/
structure EndsWithEof : Prop where
  nonempty : 0 < p.tokLen
  last : (p.tokAt (p.tokLen - 1)).kind = .EOF

/-- An `assert` whose statement ends at a closing brace, without a semicolon. -/
def Unterminated (i : Nat) : Prop :=
  (p.tokAt i).kind = .ASSERT ∧ stmtEnd 0 (p.kindsFrom (i + 1)) = some .RBRACE

/-- The end of a node whose tokens are those from `a` on and before `b`. It may be wrong where an `assert` among them
has no semicolon. -/
def Stops (a b stop : Nat) : Prop := stop = (p.tokAt (b - 1)).stop ∨ ∃ i, a ≤ i ∧ i < b ∧ p.Unterminated i

def Fits (a b : Nat) (n : AstNode) : Prop := n.start = (p.tokAt a).start ∧ p.Stops a b n.stop

theorem fits_linkBlind : LinkBlind p.Fits := fun _ _ _ _ _ facts => facts

/-- Between two places brackets open and close so that depth `k₀` at the first is depth `k` at the second. -/
def Depth (k₀ start k stop : Nat) : Prop :=
  ∀ d, stmtEnd (d + k₀) (p.kindsFrom start) = stmtEnd (d + k) (p.kindsFrom stop)

/-- A token that does not end the stream takes depth `k` to depth `k'`. -/
def Turns (kind : TokenKind) (k k' : Nat) : Prop := kind ≠ .EOF ∧ ∀ d, turn kind (d + k) = some (d + k')

variable {p}

theorem kindsFrom_step {i : Nat} (inside : i < p.tokLen) : p.kindsFrom i = (p.tokAt i).kind :: p.kindsFrom (i + 1) := by
  have cut : p.tok.drop i = p.tok[i] :: p.tok.drop (i + 1) := List.drop_eq_getElem_cons inside
  have here : p.tokAt i = p.tok[i] := by
    simp only [tokAt, List.getD_eq_getElem?_getD, List.getElem?_eq_getElem inside, Option.getD_some]
  rw [kindsFrom, cut, List.map_cons, here, kindsFrom]

theorem Depth.refl (k pos : Nat) : p.Depth k pos k pos := fun _ => rfl

theorem Depth.step {k₀ pos₀ k k' pos : Nat} {kind : TokenKind} (depth : p.Depth k₀ pos₀ k pos) (inside : pos < p.tokLen)
    (here : (p.tokAt pos).kind = kind) (turns : Turns kind k k') : p.Depth k₀ pos₀ k' (pos + 1) := by
  intro d
  rw [depth d, kindsFrom_step inside, stmtEnd, here, turns.2 d]

theorem Depth.trans {k₀ pos₀ j k pos pos' : Nat} (first : p.Depth k₀ pos₀ k pos) (second : p.Depth j pos j pos')
    (le : j ≤ k) : p.Depth k₀ pos₀ k pos' := by
  intro d
  have shifted := second (d + (k - j))
  have eq : d + (k - j) + j = d + k := by omega
  rw [eq] at shifted
  rw [first d, shifted]

theorem Stops.mono {a a' b stop : Nat} (stops : p.Stops a b stop) (left : a' ≤ a) : p.Stops a' b stop := by
  rcases stops with exactly | ⟨i, after, before, unterminated⟩
  · exact .inl exactly
  · exact .inr ⟨i, by omega, before, unterminated⟩

theorem Turns.plain {kind : TokenKind} {k : Nat} (plain : isLevel kind = true) : Turns kind k k := by
  cases kind <;> first | exact ⟨by decide, fun _ => rfl⟩ | cases plain

theorem Turns.lparen {k : Nat} : Turns .LPAREN k (k + 1) := ⟨by decide, fun _ => rfl⟩

theorem Turns.rparen {k : Nat} : Turns .RPAREN (k + 1) k := ⟨by decide, fun _ => rfl⟩

theorem Turns.lbrace {k : Nat} : Turns .LBRACE k (k + 1) := ⟨by decide, fun _ => rfl⟩

theorem Turns.rbrace {k : Nat} : Turns .RBRACE (k + 1) k := ⟨by decide, fun _ => rfl⟩

theorem Turns.lbrack {k : Nat} : Turns .LBRACK k (k + 1) := ⟨by decide, fun _ => rfl⟩

theorem Turns.rbrack {k : Nat} : Turns .RBRACK (k + 1) k := ⟨by decide, fun _ => rfl⟩

/-- In brackets a semicolon ends no statement that began outside. -/
theorem Turns.semicolon {k : Nat} : Turns .SEMICOLON (k + 1) (k + 1) := ⟨by decide, fun _ => rfl⟩

theorem EndsWithEof.step_inside {pos : Nat} {kind : TokenKind} (ends : p.EndsWithEof) (inside : pos < p.tokLen)
    (here : (p.tokAt pos).kind = kind) (notEof : kind ≠ .EOF) : pos + 1 < p.tokLen := by
  rcases Nat.lt_or_ge (pos + 1) p.tokLen with less | last
  · exact less
  · have same : pos = p.tokLen - 1 := by omega
    rw [same, ends.last] at here
    exact absurd here.symm notEof

theorem peekAt_inside {pos : Nat} (inside : pos < p.tokLen) : p.peekAt pos = p.tokAt pos := by
  rw [peekAt, if_neg (by omega)]

end Parser

/-- The state `s`, at the place `pos`, of a production that started at `pos₀`, in bracket depth `k₀`, with the nodes
`N₀`: it has built the loose chains `F` from the tokens in between and is now in bracket depth `k`. -/
structure Mid (p : Parser) (k₀ : Nat) (N₀ : List AstNode) (pos₀ : Nat) (s : ParseState) (pos k : Nat)
    (F : List Chain) : Prop where
  ends : p.EndsWithEof
  owns : Owns p.Fits (p.tokLen - 1) N₀ s.nodes F
  here : s.pos = pos
  after : pos₀ ≤ pos
  inside : pos < p.tokLen
  depth : p.Depth k₀ pos₀ k pos
  window : ∀ c ∈ F, c.Within pos₀ pos

/-- The nodes that were there before are still there. -/
def Keeps (N₀ : List AstNode) (s : ParseState) : Prop := Kept N₀ s.nodes

/-- One more loose tree stands behind `lo`, and each of its nodes around its children. -/
def Made (p : Parser) (k₀ : Nat) (N₀ : List AstNode) (pos₀ k : Nat) (F : List Chain) (lo n : Nat) (s : ParseState) :
    Prop :=
  ∃ pos a b kids, Mid p k₀ N₀ pos₀ s pos k (.cons n a b kids .nil :: F) ∧ lo ≤ a ∧ a < b ∧ b ≤ pos ∧ kids.Nested a b

/-- The tree of the node `n` has grown, at a place from `lo` on. -/
def Grown (p : Parser) (k₀ : Nat) (N₀ : List AstNode) (pos₀ k : Nat) (F : List Chain) (n a lo : Nat)
    (s : ParseState) : Prop :=
  ∃ pos b kids, Mid p k₀ N₀ pos₀ s pos k (.cons n a b kids .nil :: F) ∧ lo ≤ pos

/-- A production that ends: with a tree made of the tokens it has taken, or refused. -/
def Closed (p : Parser) (k : Nat) (m : Parse Nat) (s : ParseState) : Prop :=
  wp m s (Made p k s.nodes s.pos k [] s.pos) (Keeps s.nodes)

/-- In how many brackets a production may stand at least: statements end with a semicolon, which only braces hide. -/
def Production.level : Production → Nat
  | .stmt | .ifStmt | .aggregateDecl => 1
  | _ => 0

/-- The tokens at which a production is entered. -/
def Production.StartsAt : Production → TokenKind → Prop
  | .ifStmt, kind => kind = .IF
  | .aggregateDecl, kind => kind = .STRUCT ∨ kind = .UNION ∨ kind = .ENUM
  | _, _ => True

/-- A production that may be entered at any token and in no brackets. -/
def Production.Anywhere (production : Production) : Prop :=
  production.level = 0 ∧ ∀ kind, production.StartsAt kind

instance type_anywhere : Fact Production.type.Anywhere := ⟨rfl, fun _ => trivial⟩

instance expr_anywhere (minPrec : Nat) : Fact (Production.expr minPrec).Anywhere := ⟨rfl, fun _ => trivial⟩

instance prefixed_anywhere : Fact Production.prefixed.Anywhere := ⟨rfl, fun _ => trivial⟩

/-- The productions that are entered behind a place end as they should. -/
def Good (p : Parser) (enter : Enter) (pos : Nat) : Prop :=
  ∀ production s, pos < s.pos → s.pos < p.tokLen → production.StartsAt (p.tokAt s.pos).kind →
    Closed p production.level (enter production) s

section

variable {p : Parser} {k₀ k k' pos₀ pos : Nat} {N₀ : List AstNode} {s : ParseState} {F : List Chain} {α β : Type}
  {Q : β → ParseState → Prop} {E : ParseState → Prop}

theorem Mid.start (k : Nat) (ends : p.EndsWithEof) (inside : s.pos < p.tokLen) :
    Mid p k s.nodes s.pos s s.pos k [] :=
  ⟨ends, Owns.start s.nodes, rfl, Nat.le_refl _, inside, .refl k s.pos, by simp⟩

theorem Mid.keeps (mid : Mid p k₀ N₀ pos₀ s pos k F) : Keeps N₀ s := mid.owns.kept

theorem Mid.congr {s' : ParseState} (mid : Mid p k₀ N₀ pos₀ s pos k F) (nodes : s'.nodes = s.nodes)
    (here : s'.pos = s.pos) : Mid p k₀ N₀ pos₀ s' pos k F :=
  ⟨mid.ends, nodes ▸ mid.owns, here.trans mid.here, mid.after, mid.inside, mid.depth, mid.window⟩

theorem Mid.perm {G : List Chain} (mid : Mid p k₀ N₀ pos₀ s pos k F) (same : F.Perm G) :
    Mid p k₀ N₀ pos₀ s pos k G :=
  ⟨mid.ends, mid.owns.perm same, mid.here, mid.after, mid.inside, mid.depth,
    fun c member => mid.window c (same.mem_iff.mpr member)⟩

theorem Mid.swap {c d : Chain} (mid : Mid p k₀ N₀ pos₀ s pos k (c :: d :: F)) :
    Mid p k₀ N₀ pos₀ s pos k (d :: c :: F) :=
  mid.perm (.swap d c F)

/-- A finished tree that nothing will lead to. -/
theorem Mid.drop {c : Chain} (mid : Mid p k₀ N₀ pos₀ s pos k (c :: F)) (nested : c.Nested 0 (p.tokLen - 1)) :
    Mid p k₀ N₀ pos₀ s pos k F :=
  ⟨mid.ends, mid.owns.drop nested, mid.here, mid.after, mid.inside, mid.depth,
    fun c member => mid.window c (List.mem_cons_of_mem _ member)⟩

theorem Mid.range {n a b : Nat} {kids rest : Chain} (mid : Mid p k₀ N₀ pos₀ s pos k (.cons n a b kids rest :: F)) :
    pos₀ ≤ a ∧ a < b ∧ b ≤ pos := (mid.window _ (List.mem_cons_self ..)).1

theorem Mid.kids {n a b : Nat} {kids rest : Chain} (mid : Mid p k₀ N₀ pos₀ s pos k (.cons n a b kids rest :: F)) :
    kids.Nested a pos := (mid.window _ (List.mem_cons_self ..)).2.1

/-- One token further. -/
theorem Mid.step {kind : TokenKind} (mid : Mid p k₀ N₀ pos₀ s pos k F) (kind_eq : (p.tokAt pos).kind = kind)
    (turns : Parser.Turns kind k k') : Mid p k₀ N₀ pos₀ { s with pos := s.pos + 1 } (pos + 1) k' F where
  ends := mid.ends
  owns := mid.owns
  here := congrArg (· + 1) mid.here
  after := Nat.le_succ_of_le mid.after
  inside := mid.ends.step_inside mid.inside kind_eq turns.1
  depth := mid.depth.step mid.inside kind_eq turns
  window c member := (mid.window c member).mono (Nat.le_refl _) (Nat.le_succ _)

/-- What a production entered on the way has built joins the chains at hand. -/
theorem Mid.join {j pos' : Nat} {s' : ParseState} {G : List Chain} (mid : Mid p k₀ N₀ pos₀ s pos k F)
    (more : Mid p j s.nodes s.pos s' pos' j G) (le : j ≤ k) : Mid p k₀ N₀ pos₀ s' pos' k (G ++ F) := by
  obtain ⟨_, owns, here, after, inside, depth, window⟩ := more
  rw [mid.here] at after depth window
  refine ⟨mid.ends, mid.owns.join owns, here, Nat.le_trans mid.after after, inside, mid.depth.trans depth le, ?_⟩
  intro c member
  rcases List.mem_append.mp member with new | old
  · exact (window c new).mono mid.after (Nat.le_refl _)
  · exact (mid.window c old).mono (Nat.le_refl _) after

theorem Mid.join_made {j n : Nat} {s' : ParseState} (mid : Mid p k₀ N₀ pos₀ s pos k F)
    (made : Made p j s.nodes s.pos j [] s.pos n s') (le : j ≤ k) : Made p k₀ N₀ pos₀ k F pos n s' := by
  obtain ⟨pos', a, b, kids, more, left, lt, right, nested⟩ := made
  exact ⟨pos', a, b, kids, mid.join more le, mid.here ▸ left, lt, right, nested⟩

theorem Mid.fresh (mid : Mid p k₀ N₀ pos₀ s pos k F) : Mid p k₀ s.nodes pos₀ s pos k [] :=
  ⟨mid.ends, Owns.start s.nodes, mid.here, mid.after, mid.inside, mid.depth, by simp⟩

/-- What was built since a state joins the chains of that state. -/
theorem Mid.join_fresh {s' : ParseState} {pos' : Nat} {G : List Chain} (mid : Mid p k₀ N₀ pos₀ s pos k F)
    (more : Mid p k₀ s.nodes pos₀ s' pos' k' G) (le : pos ≤ pos') : Mid p k₀ N₀ pos₀ s' pos' k' (G ++ F) := by
  refine ⟨mid.ends, mid.owns.join more.owns, more.here, more.after, more.inside, more.depth, ?_⟩
  intro c member
  rcases List.mem_append.mp member with new | old
  · exact more.window c new
  · exact (mid.window c old).mono (Nat.le_refl _) le

theorem Mid.made_fresh {n lo : Nat} {s' : ParseState} (mid : Mid p k₀ N₀ pos₀ s pos k F)
    (made : Made p k₀ s.nodes pos₀ k' [] lo n s') (le : pos ≤ lo) : Made p k₀ N₀ pos₀ k' F lo n s' := by
  obtain ⟨pos', a, b, kids, more, left, lt, right, nested⟩ := made
  exact ⟨pos', a, b, kids, mid.join_fresh more (by omega), left, lt, right, nested⟩

theorem Good.mono {enter : Enter} {pos' : Nat} (good : Good p enter pos) (le : pos ≤ pos') : Good p enter pos' :=
  fun production s after inside starts => good production s (by omega) inside starts

theorem perm_front {α : Type} (xs : List (Chain α)) {c : Chain α} {F : List (Chain α)} :
    (xs ++ c :: F).Perm (c :: (xs ++ F)) :=
  List.perm_middle

theorem wp_bind_pure {m : Parse β} : wp (m >>= Pure.pure) s Q E ↔ wp m s Q E := by
  rw [wp_bind]
  rfl

theorem wp_assoc {γ : Type} {m : Parse α} {f : α → Parse β} {h : β → Parse γ} {Q : γ → ParseState → Prop} :
    wp ((m >>= f) >>= h) s Q E ↔ wp (m >>= fun a => f a >>= h) s Q E := by
  simp only [wp_bind]

theorem wp_pure_bind {a : α} {f : α → Parse β} (next : wp (f a) s Q E) : wp (Pure.pure a >>= f) s Q E := next

theorem wp_ite {c : Prop} [Decidable c] {x y : Parse β} (yes : c → wp x s Q E) (no : ¬c → wp y s Q E) :
    wp (if c then x else y) s Q E := by
  split
  · exact yes ‹_›
  · exact no ‹_›

/-- Tries a part that leaves the nodes alone when it refuses. -/
theorem wp_try {m : Parse α} {f : Option α → Parse β} {P : α → ParseState → Prop}
    (spec : wp m s P (Keeps s.nodes)) (done : ∀ a s', P a s' → wp (f (some a)) s' Q E)
    (refused : ∀ s', Keeps s.nodes s' → wp (f none) s' Q E) : wp (Prog.attempt m >>= f) s Q E :=
  wp_bind.mpr (wp_attempt.mpr (wp_mono spec done refused))

theorem Mid.peek {f : Token → Parse β} (mid : Mid p k₀ N₀ pos₀ s pos k F) (next : wp (f (p.tokAt pos)) s Q E) :
    wp (p.peek >>= f) s Q E := by
  change wp (f (p.peekAt s.pos)) s Q E
  rw [mid.here, Parser.peekAt_inside mid.inside]
  exact next

theorem Mid.prev {f : Token → Parse β} (mid : Mid p k₀ N₀ pos₀ s (pos + 1) k F) (next : wp (f (p.tokAt pos)) s Q E) :
    wp (p.prev >>= f) s Q E := by
  change wp (f (p.tokAt (s.pos - 1))) s Q E
  rw [mid.here]
  exact next

theorem wp_get_bind {f : ParseState → Parse β} (next : wp (f s) s Q E) : wp (Prog.get >>= f) s Q E := next

theorem Mid.isAt {kind : TokenKind} {f : Bool → Parse β} (mid : Mid p k₀ N₀ pos₀ s pos k F)
    (next : wp (f ((p.tokAt pos).kind == kind)) s Q E) : wp (p.isAt kind >>= f) s Q E := by
  change wp (f ((p.peekAt s.pos).kind == kind)) s Q E
  rw [mid.here, Parser.peekAt_inside mid.inside]
  exact next

theorem Mid.ifAt {kind : TokenKind} {x y : Parse β} (mid : Mid p k₀ N₀ pos₀ s pos k F)
    (yes : (p.tokAt pos).kind = kind → wp x s Q E) (no : (p.tokAt pos).kind ≠ kind → wp y s Q E) :
    wp (p.isAt kind >>= fun b => if b = true then x else y) s Q E :=
  mid.isAt (wp_ite (fun same => yes (by simpa using same)) fun differs => no (by simpa using differs))

theorem Mid.ifNotAt {kind : TokenKind} {x y : Parse β} (mid : Mid p k₀ N₀ pos₀ s pos k F)
    (no : (p.tokAt pos).kind ≠ kind → wp x s Q E) (yes : (p.tokAt pos).kind = kind → wp y s Q E) :
    wp (p.isAt kind >>= fun b => if (!b) = true then x else y) s Q E :=
  mid.isAt (wp_ite (fun differs => no (by simpa using differs)) fun same => yes (by simpa using same))

theorem Mid.ifEither {one other : TokenKind} {x y : Parse β} (mid : Mid p k₀ N₀ pos₀ s pos k F)
    (yes : wp x s Q E) (no : (p.tokAt pos).kind ≠ one → (p.tokAt pos).kind ≠ other → wp y s Q E) :
    wp (p.isAt one >>= fun b => p.isAt other >>= fun c => if (b || c) = true then x else y) s Q E := by
  refine mid.isAt (mid.isAt (wp_ite (fun _ => yes) fun neither => ?_))
  simp only [Bool.or_eq_true, beq_iff_eq, not_or] at neither
  exact no neither.1 neither.2

theorem Mid.advance {kind : TokenKind} {f : Unit → Parse β} (mid : Mid p k₀ N₀ pos₀ s pos k F)
    (kind_eq : (p.tokAt pos).kind = kind) (turns : Parser.Turns kind k k')
    (next : ∀ s', Mid p k₀ N₀ pos₀ s' (pos + 1) k' F → wp (f ()) s' Q E) : wp (p.advance >>= f) s Q E :=
  next _ (mid.step kind_eq turns)

theorem Mid.matchTok {kind : TokenKind} {f : Bool → Parse β} (mid : Mid p k₀ N₀ pos₀ s pos k F)
    (turns : Parser.Turns kind k k')
    (yes : ∀ s', Mid p k₀ N₀ pos₀ s' (pos + 1) k' F → (p.tokAt pos).kind = kind → wp (f true) s' Q E)
    (no : (p.tokAt pos).kind ≠ kind → wp (f false) s Q E) : wp (p.matchTok kind >>= f) s Q E := by
  rw [wp_bind]
  exact mid.ifAt (fun same => yes _ (mid.step same turns) same) no

theorem Mid.ifMatch {kind : TokenKind} {x y : Parse β} (mid : Mid p k₀ N₀ pos₀ s pos k F)
    (turns : Parser.Turns kind k k')
    (yes : ∀ s', Mid p k₀ N₀ pos₀ s' (pos + 1) k' F → (p.tokAt pos).kind = kind → wp x s' Q E)
    (no : (p.tokAt pos).kind ≠ kind → wp y s Q E) :
    wp (p.matchTok kind >>= fun b => if b = true then x else y) s Q E :=
  mid.matchTok turns yes no

/-- A token that was matched changes no node. -/
theorem Mid.ifMatch_nodes {kind : TokenKind} {x y : Parse β} (mid : Mid p k₀ N₀ pos₀ s pos k F)
    (turns : Parser.Turns kind k k')
    (yes : ∀ s', Mid p k₀ N₀ pos₀ s' (pos + 1) k' F → s'.nodes = s.nodes → wp x s' Q E)
    (no : (p.tokAt pos).kind ≠ kind → wp y s Q E) :
    wp (p.matchTok kind >>= fun b => if b = true then x else y) s Q E := by
  rw [wp_bind]
  exact mid.ifAt (fun same => yes _ (mid.step same turns) rfl) no

theorem Mid.ifNotMatch {kind : TokenKind} {x y : Parse β} (mid : Mid p k₀ N₀ pos₀ s pos k F)
    (turns : Parser.Turns kind k k') (no : (p.tokAt pos).kind ≠ kind → wp x s Q E)
    (yes : ∀ s', Mid p k₀ N₀ pos₀ s' (pos + 1) k' F → (p.tokAt pos).kind = kind → wp y s' Q E) :
    wp (p.matchTok kind >>= fun b => if (!b) = true then x else y) s Q E :=
  mid.matchTok turns yes no

theorem Mid.failWith {code : DiagCode} (mid : Mid p k₀ N₀ pos₀ s pos k F) :
    wp (p.failWith code : Parse β) s Q (Keeps N₀) := mid.keeps

theorem Mid.expect {kind : TokenKind} {code : DiagCode} {f : Token → Parse β} (mid : Mid p k₀ N₀ pos₀ s pos k F)
    (turns : Parser.Turns kind k k')
    (next : ∀ s', Mid p k₀ N₀ pos₀ s' (pos + 1) k' F → (p.tokAt pos).kind = kind →
      wp (f (p.tokAt pos)) s' Q (Keeps N₀)) : wp (p.expect kind code >>= f) s Q (Keeps N₀) := by
  rw [wp_bind]
  refine mid.ifAt (fun same => ?_) fun _ => mid.keeps
  exact mid.peek (next _ (mid.step same turns) same)

theorem turns_ident {k : Nat} : Parser.Turns .IDENT k k := .plain rfl

theorem Mid.expectDeclName {allowHole : Bool} {f : Token → Parse β} (mid : Mid p k₀ N₀ pos₀ s pos k F)
    (next : ∀ s', Mid p k₀ N₀ pos₀ s' (pos + 1) k F → (p.tokAt pos).kind = .IDENT →
      wp (f (p.tokAt pos)) s' Q (Keeps N₀)) : wp (p.expectDeclName allowHole >>= f) s Q (Keeps N₀) := by
  rw [wp_bind]
  refine mid.expect turns_ident fun s' mid ident => ?_
  refine wp_ite (fun _ => mid.keeps) fun _ => wp_ite (fun _ => mid.keeps) fun _ => ?_
  exact next s' mid ident

/-- A new node for the tokens from `a` on and before `b`. -/
theorem Mid.newNode {kind : AstKind} {start stop a b : Nat} {f : Nat → Parse β} (mid : Mid p k₀ N₀ pos₀ s pos k F)
    (starts : start = (p.tokAt a).start) (stops : p.Stops a b stop) (range : pos₀ ≤ a ∧ a < b ∧ b ≤ pos)
    (next : ∀ n s', Mid p k₀ N₀ pos₀ s' pos k (.cons n a b .nil .nil :: F) → wp (f n) s' Q (Keeps N₀)) :
    wp (p.newNode kind start stop >>= f) s Q (Keeps N₀) := by
  rw [wp_bind]
  change wp (if p.nodeCap ≤ s.nodes.length then _ else _) s _ _
  refine wp_ite (fun _ => mid.keeps) fun _ => next _ _ ⟨mid.ends, mid.owns.push ⟨starts, stops⟩ rfl rfl, mid.here,
    mid.after, mid.inside, mid.depth, ?_⟩
  intro c member
  rcases List.mem_cons.mp member with rfl | old
  · exact ⟨range, trivial, trivial⟩
  · exact mid.window c old

/-- A new node from the start of one token to the end of another. -/
theorem Mid.newSpan {kind : AstKind} {i j : Nat} {f : Nat → Parse β} (mid : Mid p k₀ N₀ pos₀ s pos k F)
    (range : pos₀ ≤ i ∧ i ≤ j ∧ j < pos)
    (next : ∀ n s', Mid p k₀ N₀ pos₀ s' pos k (.cons n i (j + 1) .nil .nil :: F) → wp (f n) s' Q (Keeps N₀)) :
    wp (p.newNode kind (p.tokAt i).start (p.tokAt j).stop >>= f) s Q (Keeps N₀) :=
  mid.newNode rfl (.inl rfl) (by omega) next

/-- A change of one sibling of a loose chain. -/
theorem Mid.setSibling {x kids rest : Chain} {id a b a' b' : Nat} {g : AstNode → AstNode} {f : Unit → Parse β}
    (mid : Mid p k₀ N₀ pos₀ s pos k (x.append (.cons id a b kids rest) :: F)) (links : KeepsLinks g)
    (facts : ∀ n, p.Fits a b n → p.Fits a' b' (g n)) (left : pos₀ ≤ a' ∧ a' ≤ a) (range : a' < b' ∧ b' ≤ pos)
    (next : ∀ s', Mid p k₀ N₀ pos₀ s' pos k (x.append (.cons id a' b' kids rest) :: F) → wp (f ()) s' Q E) :
    wp (p.setNode id g >>= f) s Q E := by
  refine next _ ⟨mid.ends, mid.owns.modify links facts, mid.here, mid.after, mid.inside, mid.depth, ?_⟩
  intro c member
  rcases List.mem_cons.mp member with rfl | old
  · have window := Chain.within_append.mp (mid.window _ (List.mem_cons_self ..))
    have inner := window.2.2.1.mono left.2 (Nat.le_refl pos)
    exact Chain.within_append.mpr ⟨window.1, ⟨left.1, range⟩, inner, window.2.2.2⟩
  · exact mid.window c (List.mem_cons_of_mem _ old)

theorem Mid.setNode {kids rest : Chain} {id a b a' b' : Nat} {g : AstNode → AstNode} {f : Unit → Parse β}
    (mid : Mid p k₀ N₀ pos₀ s pos k (.cons id a b kids rest :: F)) (links : KeepsLinks g)
    (facts : ∀ n, p.Fits a b n → p.Fits a' b' (g n)) (left : pos₀ ≤ a' ∧ a' ≤ a) (range : a' < b' ∧ b' ≤ pos)
    (next : ∀ s', Mid p k₀ N₀ pos₀ s' pos k (.cons id a' b' kids rest :: F) → wp (f ()) s' Q E) :
    wp (p.setNode id g >>= f) s Q E :=
  Mid.setSibling (x := .nil) mid links facts left range next

/-- A change that is neither of the range of a node nor of its links. -/
theorem Mid.touch {kids rest : Chain} {id a b : Nat} {g : AstNode → AstNode} {f : Unit → Parse β}
    (mid : Mid p k₀ N₀ pos₀ s pos k (.cons id a b kids rest :: F))
    (same : ∀ n, ((g n).start = n.start ∧ (g n).stop = n.stop) ∧
      (g n).firstChild = n.firstChild ∧ (g n).nextSibling = n.nextSibling)
    (next : ∀ s', Mid p k₀ N₀ pos₀ s' pos k (.cons id a b kids rest :: F) → wp (f ()) s' Q E) :
    wp (p.setNode id g >>= f) s Q E := by
  have range := mid.range
  refine mid.setNode (fun n => (same n).2) (fun n facts => ?_) ⟨range.1, Nat.le_refl a⟩ range.2 next
  exact ⟨(same n).1.1.trans facts.1, (same n).1.2.symm ▸ facts.2⟩

theorem Mid.touchIf {c : Prop} [Decidable c] {kids rest : Chain} {id a b : Nat} {g : AstNode → AstNode}
    {f : Unit → Parse β} (mid : Mid p k₀ N₀ pos₀ s pos k (.cons id a b kids rest :: F))
    (same : ∀ n, ((g n).start = n.start ∧ (g n).stop = n.stop) ∧
      (g n).firstChild = n.firstChild ∧ (g n).nextSibling = n.nextSibling)
    (next : ∀ s', Mid p k₀ N₀ pos₀ s' pos k (.cons id a b kids rest :: F) → wp (f ()) s' Q E) :
    wp (if c then p.setNode id g >>= f else f ()) s Q E :=
  wp_ite (fun _ => mid.touch same next) fun _ => next s mid

theorem Mid.setEnd {kids rest : Chain} {id a b b' stop : Nat} {f : Unit → Parse β}
    (mid : Mid p k₀ N₀ pos₀ s pos k (.cons id a b kids rest :: F)) (stops : p.Stops a b' stop)
    (range : a < b' ∧ b' ≤ pos)
    (next : ∀ s', Mid p k₀ N₀ pos₀ s' pos k (.cons id a b' kids rest :: F) → wp (f ()) s' Q E) :
    wp (p.setEnd id stop >>= f) s Q E :=
  mid.setNode (fun _ => ⟨rfl, rfl⟩) (fun _ facts => ⟨facts.1, stops⟩) ⟨mid.range.1, Nat.le_refl a⟩ range next

/-- A node is made to end with a token that the production has taken. -/
theorem Mid.endAt {kids rest : Chain} {id a b j : Nat} {f : Unit → Parse β}
    (mid : Mid p k₀ N₀ pos₀ s pos k (.cons id a b kids rest :: F)) (range : a ≤ j ∧ j < pos)
    (next : ∀ s', Mid p k₀ N₀ pos₀ s' pos k (.cons id a (j + 1) kids rest :: F) → wp (f ()) s' Q E) :
    wp (p.setEnd id (p.tokAt j).stop >>= f) s Q E :=
  mid.setEnd (.inl rfl) (by omega) next

theorem Mid.fitsAt {kids : Chain} {id a b : Nat} (mid : Mid p k₀ N₀ pos₀ s pos k F)
    (has : ∃ c ∈ F, c.Has id a b kids) : p.Fits a b (Parser.nodeAt s.nodes id) := by
  obtain ⟨c, member, has⟩ := has
  obtain ⟨_, ⟨n, here, facts, _, _⟩, _, _⟩ := (mid.owns.holds c member).of_has has
  rwa [nodeAt_of_getElem? here]

theorem Mid.node {kids : Chain} {id a b : Nat} {f : AstNode → Parse β} (mid : Mid p k₀ N₀ pos₀ s pos k F)
    (has : ∃ c ∈ F, c.Has id a b kids) (next : ∀ n, p.Fits a b n → wp (f n) s Q E) :
    wp (p.node id >>= f) s Q E := next _ (mid.fitsAt has)

/-- A loose chain becomes the last children of a sibling in another one. -/
theorem Mid.addToSibling {x kids rest kids' rest' : Chain} {id a b id' a' b' : Nat} {f : Unit → Parse β}
    (mid : Mid p k₀ N₀ pos₀ s pos k (.cons id' a' b' kids' rest' :: x.append (.cons id a b kids rest) :: F))
    (nested : (Chain.cons id' a' b' kids' rest').Nested a pos)
    (next : ∀ s', Mid p k₀ N₀ pos₀ s' pos k
      (x.append (.cons id a b (kids.append (.cons id' a' b' kids' rest')) rest) :: F) → wp (f ()) s' Q E) :
    wp (p.addChild id id' >>= f) s Q E := by
  obtain ⟨N', run, owns⟩ := mid.swap.owns.addChild p p.fits_linkBlind
  rw [wp_bind, wp, run]
  refine next _ ⟨mid.ends, owns, mid.here, mid.after, mid.inside, mid.depth, ?_⟩
  intro c member
  rcases List.mem_cons.mp member with rfl | old
  · have window := Chain.within_append.mp (mid.swap.window _ (List.mem_cons_self ..))
    exact Chain.within_append.mpr ⟨window.1, window.2.1, Chain.nested_append.mpr ⟨window.2.2.1, nested⟩, window.2.2.2⟩
  · exact mid.window c (by simp [old])

/-- A loose tree becomes the last child of the root of another one. -/
theorem Mid.addChild {kids rest kids' : Chain} {id a b id' a' b' : Nat} {f : Unit → Parse β}
    (mid : Mid p k₀ N₀ pos₀ s pos k (.cons id' a' b' kids' .nil :: .cons id a b kids rest :: F))
    (left : a ≤ a') (nested : kids'.Nested a' b')
    (next : ∀ s', Mid p k₀ N₀ pos₀ s' pos k
      (.cons id a b (kids.append (.cons id' a' b' kids' .nil)) rest :: F) → wp (f ()) s' Q E) :
    wp (p.addChild id id' >>= f) s Q E :=
  Mid.addToSibling (x := .nil) mid ⟨⟨left, mid.range.2⟩, nested, trivial⟩ next

/-- A loose chain goes on with another one. -/
theorem Mid.link {y kids rest : Chain} {id a b : Nat} {f : Unit → Parse β}
    (mid : Mid p k₀ N₀ pos₀ s pos k (y :: .cons id a b kids rest :: F))
    (next : ∀ s', Mid p k₀ N₀ pos₀ s' pos k (.cons id a b kids (rest.append y) :: F) → wp (f ()) s' Q E) :
    wp (p.setNode (Chain.lastFrom id rest) (fun n => { n with nextSibling := y.head }) >>= f) s Q E := by
  refine next _ ⟨mid.ends, mid.owns.link p.fits_linkBlind, mid.here, mid.after, mid.inside, mid.depth, ?_⟩
  intro c member
  rcases List.mem_cons.mp member with rfl | old
  · obtain ⟨range, inner, later⟩ := mid.window _ (List.mem_cons_of_mem _ (List.mem_cons_self ..))
    exact ⟨range, inner, Chain.within_append.mpr ⟨later, mid.window y (List.mem_cons_self ..)⟩⟩
  · exact mid.window c (List.mem_cons_of_mem _ (List.mem_cons_of_mem _ old))

theorem Mid.empty (mid : Mid p k₀ N₀ pos₀ s pos k F) : Mid p k₀ N₀ pos₀ s pos k (.nil :: F) := by
  refine ⟨mid.ends, mid.owns.empty, mid.here, mid.after, mid.inside, mid.depth, fun c member => ?_⟩
  rcases List.mem_cons.mp member with rfl | old
  · trivial
  · exact mid.window c old

/-- Going back to a saved state. -/
theorem Mid.rewind {f : Unit → Parse β} {saved : ParseState} {diag : ParseDiag}
    (mid : Mid p k₀ N₀ pos₀ saved pos k F) (kept : Keeps saved.nodes s)
    (next : ∀ s', Mid p k₀ N₀ pos₀ s' pos k F → s'.nodes = saved.nodes → wp (f ()) s' Q E) :
    wp (p.rewind saved diag >>= f) s Q E :=
  next _ (mid.congr (Kept.take kept) rfl) (Kept.take kept)

/-- A part whose result is a loose tree, and what follows it. -/
theorem wp_made {m : Parse Nat} {f : Nat → Parse β} {lo : Nat}
    (spec : wp m s (Made p k₀ N₀ pos₀ k F lo) E)
    (next : ∀ n s' pos' a b kids, Mid p k₀ N₀ pos₀ s' pos' k (.cons n a b kids .nil :: F) → lo ≤ a → a < b → b ≤ pos' →
      kids.Nested a b → wp (f n) s' Q E) : wp (m >>= f) s Q E :=
  wp_seq spec fun n s' ⟨pos', a, b, kids, mid, left, lt, right, nested⟩ =>
    next n s' pos' a b kids mid left lt right nested

/-- A part that adds to a tree, and what follows it. -/
theorem wp_grown {m : Parse α} {f : α → Parse β} {n a lo : Nat}
    (spec : wp m s (fun _ => Grown p k₀ N₀ pos₀ k F n a lo) E)
    (next : ∀ r s' pos' b kids, Mid p k₀ N₀ pos₀ s' pos' k (.cons n a b kids .nil :: F) → lo ≤ pos' →
      wp (f r) s' Q E) : wp (m >>= f) s Q E :=
  wp_seq spec fun r s' ⟨pos', b, kids, mid, later⟩ => next r s' pos' b kids mid later

theorem Mid.closed {m : Parse Nat} {j : Nat} (mid : Mid p k₀ N₀ pos₀ s pos k F) (closed : Closed p j m s)
    (le : j ≤ k) : wp m s (Made p k₀ N₀ pos₀ k F pos) (Keeps N₀) :=
  wp_mono closed (fun _ _ made => mid.join_made made le) fun _ kept => mid.owns.kept.trans kept

/-- Enters a production, and what follows it. -/
theorem Mid.enterAt {enter : Enter} {production : Production} {f : Nat → Parse β} {g : Nat}
    (mid : Mid p k₀ N₀ pos₀ s pos k F) (good : Good p enter g) (later : g < pos)
    (next : ∀ n s' pos' a b kids, Mid p k₀ N₀ pos₀ s' pos' k (.cons n a b kids .nil :: F) → pos ≤ a → a < b →
      b ≤ pos' → kids.Nested a b → wp (f n) s' Q (Keeps N₀))
    (le : production.level ≤ k) (starts : production.StartsAt (p.tokAt pos).kind) :
    wp (enter production >>= f) s Q (Keeps N₀) :=
  wp_made (mid.closed (good production s (mid.here ▸ later) (mid.here ▸ mid.inside) (mid.here ▸ starts)) le) next

/-- Enters a production that may stand anywhere, and what follows it. -/
theorem Mid.enter {enter : Enter} {production : Production} [anywhere : Fact production.Anywhere] {f : Nat → Parse β}
    {g : Nat} (mid : Mid p k₀ N₀ pos₀ s pos k F) (good : Good p enter g) (later : g < pos)
    (next : ∀ n s' pos' a b kids, Mid p k₀ N₀ pos₀ s' pos' k (.cons n a b kids .nil :: F) → pos ≤ a → a < b →
      b ≤ pos' → kids.Nested a b → wp (f n) s' Q (Keeps N₀)) : wp (enter production >>= f) s Q (Keeps N₀) :=
  mid.enterAt good later next (anywhere.out.1 ▸ Nat.zero_le k) (anywhere.out.2 _)

theorem Mid.made {n a b lo : Nat} {kids : Chain} (mid : Mid p k₀ N₀ pos₀ s pos k (.cons n a b kids .nil :: F))
    (left : lo ≤ a) (nested : kids.Nested a b) : wp (Pure.pure n) s (Made p k₀ N₀ pos₀ k F lo) E :=
  ⟨pos, a, b, kids, mid, left, mid.range.2.1, mid.range.2.2, nested⟩

theorem Mid.grown {n a b lo : Nat} {kids : Chain} (mid : Mid p k₀ N₀ pos₀ s pos k (.cons n a b kids .nil :: F))
    (later : lo ≤ pos) : Grown p k₀ N₀ pos₀ k F n a lo s := ⟨pos, b, kids, mid, later⟩

theorem wp_forEach {I : ParseState → Prop} {body : α → Parse Unit} {items : List α} (start : I s)
    (each : ∀ a ∈ items, ∀ s, I s → wp (body a) s (fun _ => I) E) :
    wp (Parser.forEach body items) s (fun _ => I) E := by
  induction items generalizing s with
  | nil => exact start
  | cons a rest ih =>
    refine wp_seq (each a (List.mem_cons_self ..) s start) fun _ s' keeps => ?_
    exact ih keeps fun a' member => each a' (List.mem_cons_of_mem _ member)

/-- A loop in which every round takes a token. -/
theorem Parser.wp_rounds {body : α → Parse (α ⊕ β)} {I : α → ParseState → Prop} {a : α}
    (start : I a s) (inside : ∀ a s, I a s → s.pos < p.tokLen)
    (round : ∀ a s, I a s → wp (body a) s
      (fun r s' => match r with
        | .inl a' => I a' s' ∧ s.pos < s'.pos
        | .inr b => Q b s') E) : wp (.loop body p.rounds a) s Q E := by
  refine wp_loop (d := fun _ s => p.tokLen - s.pos) (I := I) ?_ start (by simp only [Parser.rounds]; omega)
  intro a s keeps
  refine wp_mono (round a s keeps) ?_ fun _ fails => fails
  intro r s' result
  cases r with
  | inl a' =>
    obtain ⟨keeps', forward⟩ := result
    have small := inside a s keeps
    exact ⟨keeps', by omega⟩
  | inr b => exact result

theorem turns_comma {k : Nat} : Parser.Turns .COMMA k k := .plain rfl

/-- A list with commas whose items keep an invariant. -/
theorem Parser.wp_commaLoop {item : α → Parse α} {I : α → ParseState → Prop} {a : α} (start : I a s)
    (inside : ∀ a s, I a s → s.pos < p.tokLen)
    (comma : ∀ a s, I a s → (p.tokAt s.pos).kind = .COMMA → I a { s with pos := s.pos + 1 })
    (each : ∀ a s, I a s → wp (item a) s (fun a' s' => I a' s' ∧ s.pos ≤ s'.pos) E) :
    wp (p.commaLoop item a) s I E := by
  refine Parser.wp_rounds start inside fun a s keeps => ?_
  refine wp_seq (each a s keeps) fun a' s' ⟨keeps', forward⟩ => ?_
  have here : p.peekAt s'.pos = p.tokAt s'.pos := Parser.peekAt_inside (inside a' s' keeps')
  rw [wp_bind]
  change wp (if ((p.peekAt s'.pos).kind == .COMMA) = true then _ else _) s' _ _
  rw [here]
  refine wp_ite (fun same => ?_) fun _ => keeps'
  exact ⟨comma a' s' keeps' (by simpa using same), Nat.lt_succ_of_le forward⟩

/-- Further items of a list, each behind a comma, that keep an invariant. -/
theorem Parser.wp_whileComma {item : α → Parse α} {I : α → ParseState → Prop} {a : α} (start : I a s)
    (inside : ∀ a s, I a s → s.pos < p.tokLen)
    (comma : ∀ a s, I a s → (p.tokAt s.pos).kind = .COMMA → I a { s with pos := s.pos + 1 })
    (each : ∀ a s, I a s → wp (item a) s (fun a' s' => I a' s' ∧ s.pos ≤ s'.pos) E) :
    wp (p.whileComma item a) s I E := by
  refine Parser.wp_rounds start inside fun a s keeps => ?_
  have here : p.peekAt s.pos = p.tokAt s.pos := Parser.peekAt_inside (inside a s keeps)
  rw [wp_bind]
  change wp (if ((p.peekAt s.pos).kind == .COMMA) = true then _ else _) s _ _
  rw [here]
  refine wp_ite (fun same => ?_) fun _ => keeps
  refine (wp_ite (fun _ => ?_) fun no => absurd rfl no : wp (if true = true then _ else _) { s with pos := s.pos + 1 } _ _)
  refine wp_seq (each a _ (comma a s keeps (by simpa using same))) fun a' s' ⟨keeps', forward⟩ => ?_
  exact ⟨keeps', Nat.lt_of_succ_le forward⟩

/-- What a round of a loop does that takes a token when it goes on. -/
def OneRound (p : Parser) (k₀ : Nat) (N₀ : List AstNode) (pos₀ k : Nat) (F : List Chain) (n a lo pos : Nat) :
    α ⊕ β → ParseState → Prop
  | .inl _ => Grown p k₀ N₀ pos₀ k F n a (pos + 1)
  | .inr _ => Grown p k₀ N₀ pos₀ k F n a lo

/-- A loop whose rounds add to a tree. -/
theorem Mid.rounds {body : α → Parse (α ⊕ β)} {n a b : Nat} {kids : Chain}
    (mid : Mid p k₀ N₀ pos₀ s pos k (.cons n a b kids .nil :: F)) (r : α)
    (round : ∀ r s' pos' b kids, Mid p k₀ N₀ pos₀ s' pos' k (.cons n a b kids .nil :: F) → pos ≤ pos' →
      wp (body r) s' (OneRound p k₀ N₀ pos₀ k F n a pos pos') (Keeps N₀)) :
    wp (.loop body p.rounds r) s (fun _ => Grown p k₀ N₀ pos₀ k F n a pos) (Keeps N₀) := by
  refine Parser.wp_rounds (I := fun _ => Grown p k₀ N₀ pos₀ k F n a pos) (mid.grown (Nat.le_refl pos)) ?_ ?_
  · rintro _ s' ⟨pos', b', kids', mid', _⟩
    exact mid'.here ▸ mid'.inside
  · rintro r s' ⟨pos', b', kids', mid', later⟩
    refine wp_mono (round r s' pos' b' kids' mid' later) ?_ fun _ kept => kept
    rintro (_ | _) s'' result
    · obtain ⟨pos'', b'', kids'', mid'', forward⟩ := result
      have here := mid'.here
      have there := mid''.here
      exact ⟨⟨pos'', b'', kids'', mid'', by omega⟩, by omega⟩
    · exact result

/-- A list with commas whose items add to a tree. -/
theorem Mid.commaLoop {item : α → Parse α} {n a b : Nat} {kids : Chain}
    (mid : Mid p k₀ N₀ pos₀ s pos k (.cons n a b kids .nil :: F)) (r : α)
    (each : ∀ r s' pos' b kids, Mid p k₀ N₀ pos₀ s' pos' k (.cons n a b kids .nil :: F) → pos ≤ pos' →
      wp (item r) s' (fun _ => Grown p k₀ N₀ pos₀ k F n a pos') (Keeps N₀)) :
    wp (p.commaLoop item r) s (fun _ => Grown p k₀ N₀ pos₀ k F n a pos) (Keeps N₀) := by
  refine mid.rounds r fun r s₁ pos₁ b₁ kids₁ mid₁ later => ?_
  refine wp_grown (each r s₁ pos₁ b₁ kids₁ mid₁ later) fun r' s₂ pos₂ b₂ kids₂ mid₂ later₂ => ?_
  refine mid₂.ifMatch turns_comma (fun s₃ mid₃ _ => ?_) fun _ => ?_
  · exact mid₃.grown (by omega)
  · exact mid₂.grown (by omega)

end

end HopHop
