import HopHop.ParserListTree

namespace HopHop

open Prog

namespace Parser

section

variable {p : Parser} {enter : Enter} {k₀ k pos₀ pos g : Nat} {N₀ : List AstNode} {s : ParseState} {F : List Chain}
  {E : ParseState → Prop}

/-- The end of a statement: a semicolon, or the place before a closing brace. -/
def Terminated (p : Parser) (k₀ : Nat) (N₀ : List AstNode) (pos₀ pos k : Nat) (F : List Chain) :
    Option Token → ParseState → Prop
  | some semi, s => Mid p k₀ N₀ pos₀ s (pos + 1) k F ∧ semi = p.tokAt pos
  | none, s => Mid p k₀ N₀ pos₀ s pos k F ∧ (p.tokAt pos).kind = .RBRACE

theorem consumeStmtTerminator_spec (mid : Mid p k₀ N₀ pos₀ s pos (k + 1) F) :
    wp p.consumeStmtTerminator s (Terminated p k₀ N₀ pos₀ pos (k + 1) F) (Keeps N₀) := by
  refine mid.ifAt (fun semicolon => mid.peek ?_) fun _ => mid.ifAt (fun brace => ⟨mid, brace⟩) fun _ => mid.failWith
  exact mid.advance semicolon .semicolon fun s₁ mid₁ => ⟨mid₁, rfl⟩

theorem finishStmt_spec {n a b lo : Nat} {kids : Chain}
    (mid : Mid p k₀ N₀ pos₀ s pos (k + 1) (.cons n a b kids .nil :: F)) (left : lo ≤ a) (nested : kids.Nested a b) :
    wp (p.finishStmt n) s (Made p k₀ N₀ pos₀ (k + 1) F lo) (Keeps N₀) := by
  have range := mid.range
  refine wp_seq (consumeStmtTerminator_spec mid) ?_
  rintro (_ | semi) s₁ result
  · exact result.1.made left nested
  · obtain ⟨mid₁, rfl⟩ := result
    exact mid₁.endAt (by omega) fun s₂ mid₂ => mid₂.made left mid₂.kids

theorem parseInit_spec {nameCount : Nat} (mid : Mid p k₀ N₀ pos₀ s pos k F) (good : Good p enter g) (behind : g < pos) :
    wp (p.parseInit enter nameCount) s (Made p k₀ N₀ pos₀ k F pos) (Keeps N₀) := by
  refine wp_ite (fun _ => ?_) fun _ => parseExprList_spec mid good behind
  exact mid.closed (good _ s (mid.here ▸ behind) (mid.here ▸ mid.inside) trivial) (Nat.zero_le _)

/-- A discarded initializer, with the statement around it when it stands as one. -/
theorem parseDiscard_spec {a : Nat} {hole : Token} {requireSemi : Bool} (mid : Mid p k₀ N₀ pos₀ s pos (k + 1) F)
    (left : pos₀ ≤ a ∧ a < pos) (good : Good p enter g) (behind : g ≤ pos) :
    wp (p.parseDiscard enter (p.tokAt a).start hole requireSemi) s (Made p k₀ N₀ pos₀ (k + 1) F a) (Keeps N₀) := by
  refine mid.ifMatch (.plain rfl) (fun s₁ mid₁ _ => ?_) fun _ => mid.keeps
  refine mid₁.enter good (by omega) fun init s₂ pos₂ c d kids mid₂ left₂ lt right nested => ?_
  refine wp_ite (fun _ => mid₂.made (by omega) nested) fun _ => ?_
  refine wp_seq (consumeStmtTerminator_spec mid₂) ?_
  rintro (_ | semi) s₃ result
  · refine result.1.node ⟨_, List.mem_cons_self .., Chain.has_self⟩ fun _ fits => ?_
    refine result.1.newNode rfl (fits.2.mono (show a ≤ _ by omega)) (by omega) fun n s₄ mid₄ => ?_
    refine mid₄.swap.addChild (by omega) nested fun s₅ mid₅ => ?_
    exact mid₅.made (Nat.le_refl a) ⟨⟨by omega, lt, Nat.le_refl d⟩, nested, trivial⟩
  · obtain ⟨mid₃, rfl⟩ := result
    refine mid₃.node ⟨_, List.mem_cons_self .., Chain.has_self⟩ fun _ _ => ?_
    refine mid₃.newSpan (by omega) fun n s₄ mid₄ => ?_
    refine mid₄.swap.addChild (by omega) nested fun s₅ mid₅ => ?_
    exact mid₅.made (Nat.le_refl a) mid₅.kids

/-- The type and the initializer of a declaration, one behind the other. -/
theorem parseTypeAndInit_spec {names : List Token} (mid : Mid p k₀ N₀ pos₀ s pos k F) (good : Good p enter g)
    (behind : g < pos) :
    wp (p.parseTypeAndInit enter names) s (fun r s' => ∃ pos' cs, Mid p k₀ N₀ pos₀ s' pos' k (cs ++ F) ∧
      RowIn pos pos' (r.1.toList ++ (r.2.toList ++ [])) cs ∧ Sorted cs ∧ r.1.toList ++ (r.2.toList ++ []) ≠ [] ∧
      pos ≤ pos') (Keeps N₀) := by
  refine mid.ifMatch (.plain rfl) (fun s₁ mid₁ _ => ?_) fun _ => ?_
  · refine wp_made (parseInit_spec mid₁ good (by omega)) fun init s₂ pos₂ a b kids mid₂ left lt right nested => ?_
    exact ⟨pos₂, [.cons init a b kids .nil], mid₂, .cons ⟨a, b, kids, rfl, by omega, lt, right, nested⟩ .nil,
      List.pairwise_singleton _ _, by simp, by omega⟩
  · split
    · exact mid.keeps
    · refine mid.enter good behind fun type s₁ pos₁ a b kids mid₁ left lt right nested => ?_
      refine mid₁.ifMatch (.plain rfl) (fun s₂ mid₂ _ => ?_) fun _ => ?_
      · refine wp_made (parseInit_spec mid₂ good (by omega)) fun init s₃ pos₃ c d kids₃ mid₃ left₃ lt₃ right₃ nested₃ => ?_
        refine ⟨pos₃, [.cons type a b kids .nil, .cons init c d kids₃ .nil], mid₃.swap,
          .cons ⟨a, b, kids, rfl, left, lt, by omega, nested⟩ (.cons ⟨c, d, kids₃, rfl, by omega, lt₃, right₃, nested₃⟩ .nil),
          ?_, by simp, by omega⟩
        refine List.pairwise_pair.mpr ?_
        exact (by omega : b ≤ c)
      · exact ⟨pos₁, [.cons type a b kids .nil], mid₁, .cons ⟨a, b, kids, rfl, left, lt, right, nested⟩ .nil,
          List.pairwise_singleton _ _, by simp, by omega⟩

/-- A declaration ends with the last of its type and its initializer. -/
theorem declEnd_stops {nodes : List AstNode} {type init : Option Nat} {last d a e : Nat} :
    (type.toList ++ (init.toList ++ [])).getLast? = some last → p.Stops a e (nodeAt nodes last).stop →
    p.Stops a e (match init, type with
      | some init, _ => (nodeAt nodes init).stop
      | none, some type => (nodeAt nodes type).stop
      | none, none => d) := by
  cases init <;> cases type <;> simp +contextual

theorem parseVarLikeStmt_spec {kind : AstKind} {requireSemi allowHole : Bool} (mid : Mid p k₀ N₀ pos₀ s pos (k + 1) F)
    (turns : Turns (p.tokAt pos).kind (k + 1) (k + 1)) (good : Good p enter g) (behind : g ≤ pos) :
    wp (p.parseVarLikeStmt enter kind requireSemi allowHole) s (Made p k₀ N₀ pos₀ (k + 1) F pos) (Keeps N₀) := by
  have after := mid.after
  refine mid.peek (mid.advance rfl turns fun s₁ mid₁ => ?_)
  refine wp_seq (parseDeclNameList_spec mid₁) ?_
  rintro names s₂ ⟨pos₂, mid₂, later, among, nonempty⟩
  refine wp_ite (fun _ => parseDiscard_spec mid₂ (by omega) good (by omega)) fun _ => ?_
  refine wp_seq (parseTypeAndInit_spec mid₂ good (by omega)) ?_
  rintro ⟨type, init⟩ s₃ ⟨pos₃, cs, mid₃, row, sorted, nonempty₃, later₃⟩
  refine wp_get_bind ?_
  dsimp only at row nonempty₃
  obtain ⟨first, last, c, _, c', e, _, kids', _, atEnd, _, memLast, left, order, right, lt, row'⟩ := row.narrow sorted nonempty₃
  have fits := mid₃.fitsAt ⟨_, List.mem_append_left F memLast, Chain.has_self⟩
  refine mid₃.newNode rfl (declEnd_stops atEnd (fits.2.mono (show pos ≤ _ by omega))) (by omega) fun n s₄ mid₄ => ?_
  refine mid₄.touch (fun _ => ⟨⟨rfl, rfl⟩, rfl, rfl⟩) fun s₅ mid₅ => ?_
  have finish {s' : ParseState} {kids : Chain} (mid' : Mid p k₀ N₀ pos₀ s' pos₃ (k + 1) (.cons n pos e kids .nil :: (cs ++ F)))
      (nested : kids.Nested pos e) :
      wp (p.addOptionalChild n type >>= fun _ => p.addOptionalChild n init >>= fun _ =>
        if requireSemi = true then p.finishStmt n else Pure.pure n) s' (Made p k₀ N₀ pos₀ (k + 1) F pos) (Keeps N₀) := by
    refine addOptionalChild_mid (row'.lower (by omega)) (mid'.perm List.perm_middle.symm) nested
      fun s₆ cs₆ kids₆ row₆ mid₆ nested₆ => ?_
    refine addOptionalChild_mid row₆ mid₆ nested₆ fun s₇ cs₇ kids₇ row₇ mid₇ nested₇ => ?_
    cases row₇
    exact wp_ite (fun _ => finishStmt_spec mid₇ (Nat.le_refl pos) nested₇) fun _ => mid₇.made (Nat.le_refl pos) nested₇
  refine wp_ite (fun _ => ?_) fun _ => finish mid₅ trivial
  refine buildNameListNode_mid mid₅ among nonempty (by omega) later₃ fun nameList s₆ x y kids₆ mid₆ left₆ lt₆ right₆ nested₆ => ?_
  refine mid₆.addChild (by omega) nested₆ fun s₇ mid₇ => ?_
  exact finish mid₇ ⟨⟨by omega, lt₆, by omega⟩, nested₆, trivial⟩

theorem parseShortAssignStmt_spec {requireSemi : Bool} (mid : Mid p k₀ N₀ pos₀ s pos (k + 1) F) (good : Good p enter g)
    (behind : g ≤ pos) :
    wp (p.parseShortAssignStmt enter requireSemi) s (Made p k₀ N₀ pos₀ (k + 1) F pos) (Keeps N₀) := by
  have after := mid.after
  refine wp_seq (parseDeclNameList_spec mid) ?_
  rintro names s₁ ⟨pos₁, mid₁, later, among, nonempty⟩
  refine mid₁.expect (.plain rfl) fun s₂ mid₂ _ => ?_
  refine wp_made (parseExprList_spec mid₂ good (by omega)) fun rhs s₃ pos₃ c d kids₃ mid₃ left lt right nested => ?_
  refine buildNameListNode_mid mid₃ among nonempty after (by omega) fun lhs s₄ a b kids₄ mid₄ left₄ lt₄ right₄ nested₄ => ?_
  refine mid₄.node ⟨_, List.mem_cons_self .., Chain.has_self⟩ fun _ lhsFits => ?_
  refine mid₄.node ⟨_, List.mem_cons_of_mem _ (List.mem_cons_self ..), Chain.has_self⟩ fun _ rhsFits => ?_
  refine mid₄.newNode lhsFits.1 (rhsFits.2.mono (show a ≤ c by omega)) (by omega) fun n s₅ mid₅ => ?_
  refine mid₅.swap.addChild (Nat.le_refl a) nested₄ fun s₆ mid₆ => ?_
  refine mid₆.swap.addChild (by omega) nested fun s₇ mid₇ => ?_
  have whole : ((Chain.nil.append (.cons lhs a b kids₄ .nil)).append (.cons rhs c d kids₃ .nil)).Nested a d :=
    ⟨⟨Nat.le_refl a, lt₄, by omega⟩, nested₄, ⟨by omega, lt, Nat.le_refl d⟩, nested, trivial⟩
  exact wp_ite (fun _ => finishStmt_spec mid₇ left₄ whole) fun _ => mid₇.made left₄ whole

theorem isShortAssignStart_mid {β : Type} {f : Bool → Parse β} {Q : β → ParseState → Prop}
    (mid : Mid p k₀ N₀ pos₀ s pos k F) (next : ∀ found, wp (f found) s Q E) :
    wp (p.isShortAssignStart >>= f) s Q E := by
  rw [wp_bind]
  exact wp_get_bind (mid.ifAt (fun _ => next _) fun _ => next false)

theorem matchElse_mid {x y : Parse Nat} {Q : Nat → ParseState → Prop} (mid : Mid p k₀ N₀ pos₀ s pos (k + 1) F)
    (yes : ∀ s' pos', Mid p k₀ N₀ pos₀ s' pos' (k + 1) F → pos < pos' → wp x s' Q E)
    (no : ∀ s', Mid p k₀ N₀ pos₀ s' pos (k + 1) F → wp y s' Q E) :
    wp (p.matchElse >>= fun b => if b = true then x else y) s Q E := by
  rw [wp_bind]
  refine wp_get_bind (mid.ifMatch_nodes .semicolon (fun s₁ mid₁ same => ?_) fun _ => ?_)
  · refine mid₁.ifMatch (.plain rfl) (fun s₂ mid₂ _ => ?_) fun _ => ?_
    · exact yes s₂ _ mid₂ (by omega)
    · exact no _ (mid.congr same rfl)
  · refine wp_bind.mp ?_
    exact mid.ifMatch (.plain rfl) (fun s₁ mid₁ _ => yes s₁ _ mid₁ (by omega)) fun _ => no s mid

/-- A loose tree joins a node that ends behind its other children, and the node is made to end with it. -/
theorem addLast_mid {n child a b c d e : Nat} {kids kids' : Chain} {β : Type} {f : Unit → Parse β}
    {Q : β → ParseState → Prop} (mid : Mid p k₀ N₀ pos₀ s pos k (.cons child c d kids' .nil :: .cons n a b kids .nil :: F))
    (left : a ≤ c) (nested' : kids'.Nested c d) (nested : kids.Nested a e) (order : e ≤ d)
    (next : ∀ s' kids, Mid p k₀ N₀ pos₀ s' pos k (.cons n a d kids .nil :: F) → kids.Nested a d → wp (f ()) s' Q E) :
    wp (p.addChild n child >>= fun _ => p.node child >>= fun node => p.setEnd n node.stop >>= f) s Q E := by
  have range := mid.range
  refine mid.addChild left nested' fun s₁ mid₁ => ?_
  refine mid₁.node ⟨_, List.mem_cons_self .., .inr (.inl (Chain.has_append.mpr (.inr Chain.has_self)))⟩ fun _ fits => ?_
  refine mid₁.setEnd (fits.2.mono left) (by omega) fun s₂ mid₂ => next s₂ _ mid₂ ?_
  exact (nested.mono (Nat.le_refl a) order).append ⟨⟨left, range.2.1, Nat.le_refl d⟩, nested', trivial⟩

theorem parseIfStmt_spec (mid : Mid p k₀ N₀ pos₀ s pos (k + 1) F) (turns : Turns (p.tokAt pos).kind (k + 1) (k + 1))
    (good : Good p enter g) (behind : g ≤ pos) :
    wp (p.parseIfStmt enter) s (Made p k₀ N₀ pos₀ (k + 1) F pos) (Keeps N₀) := by
  have after := mid.after
  refine mid.peek (mid.advance rfl turns fun s₁ mid₁ => ?_)
  refine mid₁.enter good (by omega) fun cond s₂ pos₂ a b kids₂ mid₂ left lt right nested => ?_
  refine wp_made (parseBlock_spec mid₂ good (by omega)) fun block s₃ pos₃ c d kids₃ mid₃ left₃ lt₃ right₃ nested₃ => ?_
  refine mid₃.node ⟨_, List.mem_cons_self .., Chain.has_self⟩ fun _ fits => ?_
  refine mid₃.newNode rfl (fits.2.mono (show pos ≤ c by omega)) (by omega) fun n s₄ mid₄ => ?_
  refine (mid₄.perm (perm_front [_, _])).addChild (by omega) nested fun s₅ mid₅ => ?_
  refine mid₅.swap.addChild (by omega) nested₃ fun s₆ mid₆ => ?_
  have whole : ((Chain.nil.append (.cons cond a b kids₂ .nil)).append (.cons block c d kids₃ .nil)).Nested pos d :=
    ⟨⟨by omega, lt, by omega⟩, nested, ⟨by omega, lt₃, Nat.le_refl d⟩, nested₃, trivial⟩
  refine matchElse_mid mid₆ (fun s₇ pos₇ mid₇ later => ?_) fun s₇ mid₇ => mid₇.made (Nat.le_refl pos) whole
  have other {s' : ParseState} {pos' n' x y : Nat} {kids kids' : Chain}
      (mid' : Mid p k₀ N₀ pos₀ s' pos' (k + 1) (.cons n' x y kids' .nil :: .cons n pos d kids .nil :: F))
      (left' : pos₇ ≤ x) (nested' : kids'.Nested x y) (whole : kids.Nested pos d) :
      wp (p.addChild n n' >>= fun _ => p.node n' >>= fun els => p.setEnd n els.stop >>= fun _ => Pure.pure n) s'
        (Made p k₀ N₀ pos₀ (k + 1) F pos) (Keeps N₀) := by
    have range := mid'.range
    refine addLast_mid mid' (by omega) nested' whole (by omega) fun s₈ kids₈ mid₈ nested₈ => ?_
    exact mid₈.made (Nat.le_refl pos) nested₈
  refine mid₇.ifAt (fun keyword => ?_) fun _ => ?_
  · refine mid₇.enterAt good (by omega) (fun n' s₈ pos₈ x y kids₈ mid₈ left₈ lt₈ right₈ nested₈ => ?_) (Nat.le_add_left 1 k) keyword
    exact other mid₈ left₈ nested₈ whole
  · refine wp_made (parseBlock_spec mid₇ good (by omega)) fun n' s₈ pos₈ x y kids₈ mid₈ left₈ lt₈ right₈ nested₈ => ?_
    exact other mid₈ left₈ nested₈ whole

/-- What may have been made from a place on: one tree or nothing. -/
def Optional (p : Parser) (k₀ : Nat) (N₀ : List AstNode) (pos₀ pos k : Nat) (F : List Chain) :
    Option Nat → ParseState → Prop
  | none, s => ∃ pos', Mid p k₀ N₀ pos₀ s pos' k F ∧ pos ≤ pos'
  | some n, s => Made p k₀ N₀ pos₀ k F pos n s

/-- The parts of a statement so far, one behind the other in the source. -/
def Parts (p : Parser) (k₀ : Nat) (N₀ : List AstNode) (pos₀ k : Nat) (F : List Chain) (lo later : Nat)
    (items : List Nat) (s : ParseState) : Prop :=
  ∃ pos cs, Mid p k₀ N₀ pos₀ s pos k (cs ++ F) ∧ RowIn lo pos items cs ∧ later ≤ pos

theorem Parts.add {cs : List Chain} {items : List Nat} {lo later : Nat} (made : Option Nat) (row : RowIn lo pos items cs)
    (more : Optional p k₀ N₀ pos₀ pos k (cs ++ F) made s) (le : lo ≤ pos) (forward : later ≤ pos) :
    Parts p k₀ N₀ pos₀ k F lo later (items ++ made.toList) s := by
  cases made with
  | none =>
    obtain ⟨pos', mid, further⟩ := more
    exact ⟨pos', cs, mid, by simpa using row.mono further, by omega⟩
  | some n =>
    obtain ⟨pos', a, b, kids, mid, left, lt, right, nested⟩ := more
    have wider : RowIn lo pos' items cs := row.mono (by omega)
    refine ⟨pos', cs ++ [.cons n a b kids .nil], mid.perm ?_,
      List.rel_append wider (.cons ⟨a, b, kids, rfl, by omega, lt, right, nested⟩ .nil), by omega⟩
    rw [List.append_assoc]
    exact (perm_front cs).symm

theorem leaf_optional {kind : AstKind} {i lo : Nat} {flags : UInt32} (mid : Mid p k₀ N₀ pos₀ s pos k F)
    (range : pos₀ ≤ i ∧ i < pos) (left : lo ≤ i) :
    wp (p.newLeaf kind (p.tokAt i) >>= fun n => Pure.pure (n, flags)) s
      (fun r => Made p k₀ N₀ pos₀ k F lo r.1) (Keeps N₀) :=
  newLeaf_mid mid range fun _ _ mid' => mid'.made (E := Keeps N₀) left trivial

theorem parseForInKeyBinding_spec (mid : Mid p k₀ N₀ pos₀ s pos k F) :
    wp p.parseForInKeyBinding s (fun r => Made p k₀ N₀ pos₀ k F pos r.1) (Keeps N₀) := by
  have after := mid.after
  refine mid.matchTok (.plain rfl) (fun s₁ mid₁ _ => ?_) fun _ => ?_
  · exact mid₁.expectDeclName fun s₂ mid₂ _ => leaf_optional mid₂ (by omega) (by omega)
  · exact mid.expectDeclName fun s₂ mid₂ _ => leaf_optional mid₂ (by omega) (by omega)

theorem parseForInValueBinding_spec (mid : Mid p k₀ N₀ pos₀ s pos k F) :
    wp p.parseForInValueBinding s (fun r => Made p k₀ N₀ pos₀ k F pos r.1) (Keeps N₀) := by
  have after := mid.after
  have named {s' : ParseState} {pos' : Nat} (byRef : Bool) (mid' : Mid p k₀ N₀ pos₀ s' pos' k F) (later : pos ≤ pos') :
      wp (p.expectDeclName true >>= fun name =>
        if p.isHoleName name = true then
          (if byRef = true then p.failWith .UNEXPECTED_TOKEN
          else p.newLeaf .IDENT name >>= fun n => Pure.pure (n, AstFlag.FOR_IN_VALUE_DISCARD))
        else p.newLeaf .IDENT name >>= fun n => Pure.pure (n, if byRef = true then AstFlag.FOR_IN_VALUE_REF else 0)) s'
        (fun r => Made p k₀ N₀ pos₀ k F pos r.1) (Keeps N₀) := by
    refine mid'.expectDeclName fun s₁ mid₁ _ => wp_ite (fun _ => wp_ite (fun _ => mid₁.failWith) fun _ => ?_) fun _ => ?_
    · exact leaf_optional mid₁ (by omega) later
    · exact leaf_optional mid₁ (by omega) later
  refine mid.matchTok (.plain rfl) (fun s₁ mid₁ _ => ?_) fun _ => ?_
  · exact named true mid₁ (by omega)
  · exact named false mid (Nat.le_refl pos)

/-- The parts of a `for` statement, the last of which is its body. -/
def ForParts (p : Parser) (k₀ : Nat) (N₀ : List AstNode) (pos₀ k : Nat) (F : List Chain) (lo : Nat)
    (children : List Nat) (s : ParseState) : Prop :=
  ∃ pos cs items body x y kids, Mid p k₀ N₀ pos₀ s pos k (.cons body x y kids .nil :: (cs ++ F)) ∧
    children = items ++ [body] ∧ RowIn lo x items cs ∧ lo ≤ x ∧ x < y ∧ kids.Nested x y

/-- A body ends the parts of a `for` statement. -/
theorem forBody_spec (cs : List Chain) {items : List Nat} {lo : Nat} (mid : Mid p k₀ N₀ pos₀ s pos k (cs ++ F))
    (row : RowIn lo pos items cs) (le : lo ≤ pos) (good : Good p enter g) (behind : g ≤ pos) :
    wp (p.parseBlock enter) s (fun body => ForParts p k₀ N₀ pos₀ k F lo (items ++ [body])) (Keeps N₀) := by
  refine wp_mono (parseBlock_spec mid good behind) ?_ fun _ kept => kept
  rintro body s₁ ⟨pos₁, x, y, kids, mid₁, left, lt, right, nested⟩
  exact ⟨pos₁, cs, items, body, x, y, kids, mid₁, rfl, row.mono left, by omega, lt, nested⟩

theorem parseForInTail_spec {cs : List Chain} {items : List Nat} {lo : Nat}
    (mid : Mid p k₀ N₀ pos₀ s pos k (cs ++ F)) (row : RowIn lo pos items cs) (le : lo ≤ pos) (good : Good p enter g)
    (behind : g ≤ pos) :
    wp (p.parseForInTail enter) s (fun r => ForParts p k₀ N₀ pos₀ k F lo (items ++ [r.1] ++ [r.2])) (Keeps N₀) := by
  refine mid.ifMatch (.plain rfl) (fun s₁ mid₁ _ => ?_) fun _ => mid.failWith
  refine wp_seq (mid₁.closed (good (.expr 1) s₁ (by rw [mid₁.here]; omega) (by rw [mid₁.here]; exact mid₁.inside) trivial)
    (Nat.zero_le k)) fun source s₂ made => ?_
  obtain ⟨pos₂, cs₂, mid₂, row₂, later₂⟩ := Parts.add (some source) (row.mono (Nat.le_succ pos)) made
    (Nat.le_succ_of_le le) (Nat.le_refl (pos + 1))
  exact wp_seq (forBody_spec cs₂ mid₂ row₂ (by omega) good (by omega)) fun body s₃ parts => parts

theorem parseForInKey_spec (mid : Mid p k₀ s.nodes pos₀ s pos k []) :
    wp p.parseForInKey s (fun r => Made p k₀ s.nodes pos₀ k [] pos r.1) (Keeps s.nodes) := by
  refine wp_seq (parseForInKeyBinding_spec mid) ?_
  rintro ⟨key, flags⟩ s₁ ⟨pos₁, a, b, kids, mid₁, left, lt, right, nested⟩
  refine mid₁.ifMatch turns_comma (fun s₂ mid₂ _ => ?_) fun _ => mid₁.keeps
  exact ⟨pos₁ + 1, a, b, kids, mid₂, left, lt, by omega, nested⟩

theorem parseForInClause_spec (mid : Mid p k₀ N₀ pos₀ s pos k F) (good : Good p enter g) (behind : g ≤ pos) :
    wp (p.parseForInClause enter) s (fun r => ForParts p k₀ N₀ pos₀ k F pos r.1) (Keeps N₀) := by
  have value {s' : ParseState} {pos' : Nat} (cs : List Chain) (items : List Nat)
      (out : Nat → UInt32 → Nat → Nat → List Nat × UInt32)
      (mid' : Mid p k₀ N₀ pos₀ s' pos' k (cs ++ F)) (row : RowIn pos pos' items cs) (later : pos ≤ pos')
      (parts : ∀ v f source body, (out v f source body).1 = items ++ [v] ++ [source] ++ [body]) :
      wp (p.parseForInValueBinding >>= fun v => p.parseForInTail enter >>= fun r =>
        Pure.pure (out v.1 v.2 r.1 r.2)) s' (fun r => ForParts p k₀ N₀ pos₀ k F pos r.1) (Keeps N₀) := by
    refine wp_seq (parseForInValueBinding_spec mid') fun v s₁ made => ?_
    obtain ⟨pos₁, cs₁, mid₁, row₁, later₁⟩ := Parts.add (some v.1) row made later (Nat.le_refl pos')
    refine wp_seq (parseForInTail_spec mid₁ row₁ (by omega) good (by omega)) fun r s₂ ready => ?_
    change ForParts p k₀ N₀ pos₀ k F pos (out v.1 v.2 r.1 r.2).1 s₂
    rw [parts]
    exact ready
  refine wp_get_bind (wp_try (parseForInKey_spec mid.fresh) (fun r s₁ made => ?_) fun s₁ kept => ?_)
  · obtain ⟨pos₁, cs₁, mid₁, row₁, later₁⟩ := Parts.add (some r.1) (.nil : RowIn pos pos [] [])
      (mid.made_fresh made (Nat.le_refl pos)) (Nat.le_refl pos) (Nat.le_refl pos)
    obtain ⟨key, keyFlags⟩ := r
    exact value cs₁ [key] (fun v f source body => ([key, v, source, body],
      AstFlag.FOR_IN ||| AstFlag.FOR_IN_HAS_KEY ||| keyFlags ||| f)) mid₁ row₁ later₁ fun _ _ _ _ => rfl
  · refine mid.rewind kept fun s₂ mid₂ _ => ?_
    exact value [] [] (fun v f source body => ([v, source, body], AstFlag.FOR_IN ||| f)) mid₂ .nil (Nat.le_refl pos)
      fun _ _ _ _ => rfl

theorem parseForInit_spec (mid : Mid p k₀ N₀ pos₀ s pos (k + 1) F) (good : Good p enter g) (behind : g < pos) :
    wp (p.parseForInit enter) s (Optional p k₀ N₀ pos₀ pos (k + 1) F) (Keeps N₀) := by
  refine mid.ifAt (fun semicolon => ?_) fun _ => mid.ifAt (fun keyword => ?_) fun _ => ?_
  · exact mid.advance semicolon .semicolon fun s₁ mid₁ => ⟨pos + 1, mid₁, by omega⟩
  · have turns : Turns (p.tokAt pos).kind (k + 1) (k + 1) := keyword ▸ ⟨by decide, fun _ => rfl⟩
    exact wp_seq (parseVarLikeStmt_spec mid turns good (Nat.le_of_lt behind)) fun n s₁ made => made
  · refine isShortAssignStart_mid mid fun found => wp_ite (fun _ => ?_) fun _ => ?_
    · exact wp_seq (parseShortAssignStmt_spec mid good (Nat.le_of_lt behind)) fun n s₁ made => made
    · refine mid.enter good behind fun n s₁ pos₁ a b kids mid₁ left lt right nested => ?_
      exact ⟨pos₁, a, b, kids, mid₁, left, lt, right, nested⟩

theorem parseOptionalExpr_spec {stop : TokenKind} (mid : Mid p k₀ N₀ pos₀ s pos k F) (good : Good p enter g)
    (behind : g < pos) :
    wp (p.parseOptionalExpr enter stop) s (Optional p k₀ N₀ pos₀ pos k F) (Keeps N₀) := by
  refine mid.ifAt (fun _ => ⟨pos, mid, Nat.le_refl pos⟩) fun _ => ?_
  refine mid.enter good behind fun n s₁ pos₁ a b kids mid₁ left lt right nested => ?_
  exact ⟨pos₁, a, b, kids, mid₁, left, lt, right, nested⟩

theorem parseForClauses_spec (mid : Mid p k₀ N₀ pos₀ s pos (k + 1) F) (good : Good p enter g) (behind : g < pos) :
    wp (p.parseForClauses enter) s (ForParts p k₀ N₀ pos₀ (k + 1) F pos) (Keeps N₀) := by
  refine wp_seq (parseForInit_spec mid good behind) fun init s₁ made => ?_
  obtain ⟨pos₁, cs₁, mid₁, row₁, later₁⟩ := Parts.add init (.nil : RowIn pos pos [] []) made (Nat.le_refl pos)
    (Nat.le_refl pos)
  rw [List.nil_append] at row₁
  refine mid₁.ifMatch .semicolon (fun s₂ mid₂ _ => ?_) fun _ => ?_
  · refine wp_seq (parseOptionalExpr_spec mid₂ good (by omega)) fun cond s₃ made => ?_
    obtain ⟨pos₃, cs₃, mid₃, row₃, later₃⟩ := Parts.add cond (row₁.mono (Nat.le_succ pos₁)) made (by omega)
      (Nat.le_refl (pos₁ + 1))
    refine mid₃.ifMatch .semicolon (fun s₄ mid₄ _ => ?_) fun _ => mid₃.failWith
    refine wp_seq (parseOptionalExpr_spec mid₄ good (by omega)) fun post s₅ made => ?_
    obtain ⟨pos₅, cs₅, mid₅, row₅, later₅⟩ := Parts.add post (row₃.mono (Nat.le_succ pos₃)) made (by omega)
      (Nat.le_refl (pos₃ + 1))
    exact wp_pure_bind <| wp_seq (forBody_spec cs₅ mid₅ row₅ (by omega) good (by omega)) fun body s₆ parts => parts
  · exact wp_pure_bind <| wp_seq (forBody_spec cs₁ mid₁ row₁ (by omega) good (by omega)) fun body s₂ parts => parts

theorem forEach_append {α : Type} {body : α → Parse Unit} {xs ys : List α} {Q : Unit → ParseState → Prop}
    (run : wp (forEach body xs) s (fun _ s' => wp (forEach body ys) s' Q E) E) :
    wp (forEach body (xs ++ ys)) s Q E := by
  induction xs generalizing s with
  | nil => exact run
  | cons x xs ih => exact wp_bind.mpr (wp_mono (wp_bind.mp run) (fun _ s' next => ih next) fun _ fails => fails)

theorem parseForStmt_spec (mid : Mid p k₀ N₀ pos₀ s pos (k + 1) F) (kind : (p.tokAt pos).kind = .FOR)
    (good : Good p enter g) (behind : g ≤ pos) :
    wp (p.parseForStmt enter) s (Made p k₀ N₀ pos₀ (k + 1) F pos) (Keeps N₀) := by
  have after := mid.after
  refine mid.peek (mid.advance kind (.plain rfl) fun s₁ mid₁ => ?_)
  refine mid₁.newSpan (by omega) fun n s₂ mid₂ => wp_get_bind ?_
  have finish {s' : ParseState} {children : List Nat}
      (parts : ForParts p k₀ N₀ pos₀ (k + 1) (.cons n pos (pos + 1) .nil .nil :: F) (pos + 1) children s') :
      wp (p.addChildren n children >>= fun _ => p.node (children.getLastD n) >>= fun body =>
        p.setEnd n body.stop >>= fun _ => Pure.pure n) s' (Made p k₀ N₀ pos₀ (k + 1) F pos) (Keeps N₀) := by
    obtain ⟨pos', cs, items, body, x, y, kids, mid', rfl, row, left, lt, nested⟩ := parts
    have range := mid'.range
    have front := mid'.perm ((perm_front cs).symm.trans ((List.Perm.swap _ _ F).append_left cs))
    refine wp_bind.mpr (forEach_append (wp_mono (addChildrenIn_spec (row.lower (Nat.le_succ pos)) front trivial) ?_
      fun _ kept => kept))
    rintro _ s₃ ⟨kids₃, mid₃, nested₃⟩
    refine mid₃.swap.addChild (by omega) nested fun s₄ mid₄ => wp_pure.mpr ?_
    rw [List.getLastD_concat]
    refine mid₄.node ⟨_, List.mem_cons_self .., .inr (.inl (Chain.has_append.mpr (.inr Chain.has_self)))⟩ fun _ fits => ?_
    refine mid₄.setEnd (fits.2.mono (by omega)) (by omega) fun s₅ mid₅ => mid₅.made (Nat.le_refl pos) ?_
    exact (nested₃.mono (Nat.le_refl pos) (by omega)).append ⟨⟨by omega, lt, Nat.le_refl y⟩, nested, trivial⟩
  refine mid₂.ifAt (fun _ => ?_) fun _ => wp_ite (fun _ => ?_) fun _ => ?_
  · exact wp_seq (forBody_spec [] mid₂ .nil (Nat.le_refl _) good (by omega)) fun body s₃ parts =>
      wp_pure_bind (finish parts)
  · refine wp_seq (parseForInClause_spec mid₂ good (by omega)) ?_
    rintro ⟨children, flags⟩ s₃ ⟨pos₃, cs, items, body, x, y, kids, mid₃, same, row, left, lt, nested⟩
    refine (mid₃.perm (perm_front (_ :: cs))).touch (fun _ => ⟨⟨rfl, rfl⟩, rfl, rfl⟩) fun s₄ mid₄ => ?_
    exact wp_pure_bind (finish ⟨pos₃, cs, items, body, x, y, kids, mid₄.perm (perm_front (_ :: cs)).symm, same, row,
      left, lt, nested⟩)
  · exact wp_seq (parseForClauses_spec mid₂ good (by omega)) fun children s₃ parts => finish parts

/-- A dotted name, built while the nodes that were there stay. -/
theorem parseVariantPath_spec (mid : Mid p k₀ N₀ pos₀ s pos k []) :
    wp p.parseVariantPath s (fun r s' => match r with
      | some (n, _) => Made p k₀ N₀ pos₀ k [] pos n s'
      | none => Keeps N₀ s') (Keeps N₀) := by
  have after := mid.after
  refine mid.expect turns_ident fun s₁ mid₁ _ => newLeaf_mid mid₁ (by omega) fun first s₂ mid₂ => ?_
  refine wp_rounds (I := fun r s' => Made p k₀ N₀ pos₀ k [] pos r.1 s')
    ⟨pos + 1, pos, pos + 1, .nil, mid₂, Nat.le_refl pos, by omega, by omega, trivial⟩ ?_ ?_
  · rintro _ s' ⟨pos', a, b, kids, mid', _⟩
    exact mid'.here ▸ mid'.inside
  · rintro ⟨n, dotted⟩ s' ⟨pos', a, b, kids, mid', left, lt, right, nested⟩
    have before := mid'.here
    refine mid'.ifMatch (.plain rfl) (fun s₃ mid₃ _ => ?_) fun _ => ?_
    · have segment : wp (p.expect .IDENT .EXPECTED_EXPR) s₃
          (fun seg s₄ => Mid p k₀ N₀ pos₀ s₄ (pos' + 1 + 1) k [.cons n a b kids .nil] ∧ seg = p.tokAt (pos' + 1))
          (Keeps s₃.nodes) := by
        refine wp_bind_pure.mp (mid₃.fresh.expect turns_ident fun s₄ mid₄ _ => ?_)
        exact ⟨mid₃.join_fresh mid₄ (by omega), rfl⟩
      refine wp_try segment ?_ fun s₄ kept => mid₃.owns.kept.trans kept
      rintro _ s₄ ⟨mid₄, rfl⟩
      refine mid₄.node ⟨_, List.mem_cons_self .., Chain.has_self⟩ fun base fits => ?_
      rw [fits.1]
      have range := mid₄.range
      refine mid₄.newSpan (by omega) fun field s₅ mid₅ => ?_
      refine mid₅.swap.addChild (Nat.le_refl a) nested fun s₆ mid₆ => ?_
      refine mid₆.touch (fun _ => ⟨⟨rfl, rfl⟩, rfl, rfl⟩) fun s₇ mid₇ => ?_
      have behind := mid₇.here
      exact ⟨⟨_, a, _, _, mid₇, left, by omega, by omega, mid₇.kids⟩, by omega⟩
    · exact ⟨pos', a, b, kids, mid', left, lt, right, nested⟩

theorem parseCaseAlias_spec (mid : Mid p k₀ N₀ pos₀ s pos k F) :
    wp p.parseCaseAlias s (fun r s' => match r with
      | some named => Optional p k₀ N₀ pos₀ pos k F named s'
      | none => Keeps N₀ s') (Keeps N₀) := by
  have after := mid.after
  refine mid.ifMatch (.plain rfl) (fun s₁ mid₁ _ => ?_) fun _ => ⟨pos, mid, Nat.le_refl pos⟩
  have name : wp (p.expectDeclName false) s₁
      (fun t s₂ => Mid p k₀ N₀ pos₀ s₂ (pos + 1 + 1) k F ∧ t = p.tokAt (pos + 1)) (Keeps s₁.nodes) := by
    refine wp_bind_pure.mp (mid₁.fresh.expectDeclName fun s₂ mid₂ _ => ?_)
    exact ⟨mid₁.join_fresh mid₂ (by omega), rfl⟩
  refine wp_try name ?_ fun s₂ kept => mid₁.owns.kept.trans kept
  rintro _ s₂ ⟨mid₂, rfl⟩
  refine newLeaf_mid mid₂ (by omega) fun n s₃ mid₃ => ?_
  exact mid₃.made (E := Keeps N₀) (by omega) trivial

/-- A case label around its pattern and the name it gives to it. -/
theorem newCasePattern_spec {pattern a b lo q : Nat} {kids : Chain} {named : Option Nat}
    (mid : Mid p k₀ N₀ pos₀ s q k (.cons pattern a b kids .nil :: F))
    {s' : ParseState} (made : Optional p k₀ N₀ pos₀ q k (.cons pattern a b kids .nil :: F) named s') (left : lo ≤ a)
    (nested : kids.Nested a b) :
    wp (p.newCasePattern pattern named) s' (Made p k₀ N₀ pos₀ k F lo) (Keeps N₀) := by
  have range := mid.range
  refine wp_get_bind ?_
  cases named with
  | none =>
    obtain ⟨pos', mid', later⟩ := made
    have fits := mid'.fitsAt ⟨_, List.mem_cons_self .., Chain.has_self⟩
    refine mid'.newNode fits.1 fits.2 (by omega) fun n s₁ mid₁ => ?_
    refine mid₁.swap.addChild (Nat.le_refl a) nested fun s₂ mid₂ => ?_
    exact mid₂.made left ⟨⟨Nat.le_refl a, range.2.1, Nat.le_refl b⟩, nested, trivial⟩
  | some named =>
    obtain ⟨pos', c, d, kids', mid', left', lt, right, nested'⟩ := made
    have fits := mid'.fitsAt ⟨_, List.mem_cons_of_mem _ (List.mem_cons_self ..), Chain.has_self⟩
    have aliasFits := mid'.fitsAt ⟨_, List.mem_cons_self .., Chain.has_self⟩
    refine mid'.newNode fits.1 (aliasFits.2.mono (show a ≤ c by omega)) (by omega) fun n s₁ mid₁ => ?_
    refine (mid₁.perm (perm_front [_, _])).addChild (Nat.le_refl a) nested fun s₂ mid₂ => ?_
    refine mid₂.swap.addChild (by omega) nested' fun s₃ mid₃ => ?_
    exact mid₃.made left ⟨⟨Nat.le_refl a, range.2.1, by omega⟩, nested, ⟨by omega, lt, Nat.le_refl d⟩, nested', trivial⟩

theorem parseVariantPattern_spec (mid : Mid p k₀ s.nodes pos₀ s pos k []) :
    wp p.parseVariantPattern s (fun r s' => match r with
      | some n => Made p k₀ s.nodes pos₀ k [] pos n s'
      | none => Keeps s.nodes s') (Keeps s.nodes) := by
  refine mid.ifAt (fun _ => ?_) fun _ => mid.keeps
  refine wp_seq (parseVariantPath_spec mid) ?_
  rintro (_ | ⟨n, dotted⟩) s₁ result
  · exact result
  · obtain ⟨pos₁, a, b, kids, mid₁, left, lt, right, nested⟩ := result
    cases dotted with
    | false => exact mid₁.keeps
    | true =>
      refine wp_seq (parseCaseAlias_spec mid₁) ?_
      rintro (_ | named) s₂ result
      · exact result
      · have place : ∃ pos₂ G, Mid p k₀ s.nodes pos₀ s₂ pos₂ k G := by
          cases named with
          | none =>
            obtain ⟨pos₂, mid₂, _⟩ := result
            exact ⟨pos₂, _, mid₂⟩
          | some named =>
            obtain ⟨pos₂, _, _, _, mid₂, _⟩ := result
            exact ⟨pos₂, _, mid₂⟩
        obtain ⟨pos₂, G, mid₂⟩ := place
        refine mid₂.peek (wp_ite (fun _ => ?_) fun _ => mid₂.keeps)
        exact wp_seq (newCasePattern_spec mid₁ result left nested) fun n s₃ made => made

theorem parseCaseLabel_spec {label a b : Nat} {kids : Chain}
    (mid : Mid p k₀ N₀ pos₀ s pos k (.cons label a b kids .nil :: F)) (good : Good p enter g) (behind : g < pos) :
    wp (p.parseCaseLabel enter label) s (fun _ => Grown p k₀ N₀ pos₀ k F label a pos) (Keeps N₀) := by
  have range := mid.range
  have add {s' : ParseState} {n : Nat} (made : Made p k₀ N₀ pos₀ k (.cons label a b kids .nil :: F) pos n s') :
      wp (p.addChild label n) s' (fun _ => Grown p k₀ N₀ pos₀ k F label a pos) (Keeps N₀) := by
    obtain ⟨pos', c, d, kids', mid', left, lt, right, nested⟩ := made
    refine wp_bind_pure.mp (mid'.addChild (by omega) nested fun s₁ mid₁ => ?_)
    exact mid₁.grown (by omega)
  refine wp_get_bind ?_
  refine wp_seq (wp_mono (parseVariantPattern_spec mid.fresh) (fun _ _ made => made)
    fun _ kept => mid.owns.kept.trans kept) ?_
  rintro (_ | n) s₁ result
  · refine mid.rewind result fun s₂ mid₂ _ => ?_
    refine mid₂.enter good behind fun expr s₃ pos₃ c d kids₃ mid₃ left lt right nested => ?_
    have alone : Optional p k₀ N₀ pos₀ pos₃ k (.cons expr c d kids₃ .nil :: .cons label a b kids .nil :: F) none s₃ :=
      ⟨pos₃, mid₃, Nat.le_refl pos₃⟩
    exact wp_seq (newCasePattern_spec mid₃ alone left nested) fun n s₄ made => add made
  · exact wp_pure_bind (add (mid.made_fresh result (Nat.le_refl pos)))

theorem parseClauseBody_spec {sw clause a b c d : Nat} {kids kids' : Chain}
    (mid : Mid p k₀ N₀ pos₀ s pos k (.cons clause c d kids' .nil :: .cons sw a b kids .nil :: F)) (left : a ≤ c)
    (good : Good p enter g) (behind : g ≤ pos) :
    wp (p.parseClauseBody enter sw clause) s (fun _ => Grown p k₀ N₀ pos₀ k F sw a pos) (Keeps N₀) := by
  have range := mid.range
  have old := mid.kids
  refine wp_made (parseBlock_spec mid good behind) fun body s₁ pos₁ x y kids₁ mid₁ left₁ lt right nested => ?_
  refine addLast_mid mid₁ (by omega) nested old (by omega) fun s₂ kids₂ mid₂ nested₂ => ?_
  refine wp_bind_pure.mp (mid₂.addChild left nested₂ fun s₃ mid₃ => ?_)
  exact mid₃.grown (by omega)

theorem parseSwitchClause_spec {sw a b : Nat} {kids : Chain} {sawDefault : Bool}
    (mid : Mid p k₀ N₀ pos₀ s pos k (.cons sw a b kids .nil :: F)) (good : Good p enter g) (behind : g ≤ pos) :
    wp (p.parseSwitchClause enter sw sawDefault) s (fun _ => Grown p k₀ N₀ pos₀ k F sw a (pos + 1)) (Keeps N₀) := by
  have range := mid.range
  refine mid.ifMatch (.plain rfl) (fun s₁ mid₁ _ => mid₁.prev ?_) fun _ => ?_
  · refine mid₁.newSpan (by omega) fun clause s₂ mid₂ => ?_
    refine wp_grown (mid₂.commaLoop () ?_) fun _ s₃ pos₃ b₃ kids₃ mid₃ later => ?_
    · intro _ s' pos' b' kids' mid' later
      exact parseCaseLabel_spec mid' good (by omega)
    · refine wp_grown (parseClauseBody_spec mid₃ (by omega) good (by omega)) fun _ s₄ pos₄ b₄ kids₄ mid₄ later₄ => ?_
      exact mid₄.grown (by omega)
  · refine mid.ifMatch (.plain rfl) (fun s₁ mid₁ _ => ?_) fun _ => mid.failWith
    refine wp_ite (fun _ => mid₁.failWith) fun _ => mid₁.prev (mid₁.newSpan (by omega) fun clause s₂ mid₂ => ?_)
    refine wp_grown (parseClauseBody_spec mid₂ (by omega) good (by omega)) fun _ s₃ pos₃ b₃ kids₃ mid₃ later => ?_
    exact mid₃.grown (by omega)

theorem parseSwitchStmt_spec (mid : Mid p k₀ N₀ pos₀ s pos (k + 1) F) (kind : (p.tokAt pos).kind = .SWITCH)
    (good : Good p enter g) (behind : g ≤ pos) :
    wp (p.parseSwitchStmt enter) s (Made p k₀ N₀ pos₀ (k + 1) F pos) (Keeps N₀) := by
  have after := mid.after
  refine mid.peek (mid.advance kind (.plain rfl) fun s₁ mid₁ => ?_)
  refine mid₁.newSpan (by omega) fun sw s₂ mid₂ => ?_
  have clauses {s' : ParseState} {pos' : Nat} {kids : Chain}
      (mid' : Mid p k₀ N₀ pos₀ s' pos' (k + 1) (.cons sw pos (pos + 1) kids .nil :: F)) (later : pos < pos') :
      wp (p.expect .LBRACE .UNEXPECTED_TOKEN >>= fun _ =>
        Prog.loop (fun sawDefault => do
          if (← p.isAt .RBRACE) || (← p.isAt .EOF) then Pure.pure (Sum.inr ())
          else if ← p.matchTok .SEMICOLON then Pure.pure (.inl sawDefault)
          else
            let sawDefault ← p.parseSwitchClause enter sw sawDefault
            Pure.pure (.inl sawDefault)) p.rounds false >>= fun _ =>
        p.expect .RBRACE .UNEXPECTED_TOKEN >>= fun rb => p.setEnd sw rb.stop >>= fun _ => Pure.pure sw) s'
        (Made p k₀ N₀ pos₀ (k + 1) F pos) (Keeps N₀) := by
    refine mid'.expect .lbrace fun s₃ mid₃ _ => ?_
    refine wp_grown (mid₃.rounds false ?_) fun _ s₄ pos₄ b₄ kids₄ mid₄ later₄ => ?_
    · intro sawDefault s₄ pos₄ b₄ kids₄ mid₄ later₄
      refine mid₄.ifEither (mid₄.grown later₄) fun _ _ => ?_
      refine mid₄.ifMatch .semicolon (fun s₅ mid₅ _ => mid₅.grown (Nat.le_refl _)) fun _ => ?_
      exact wp_grown (parseSwitchClause_spec mid₄ good (by omega)) fun _ s₅ pos₅ b₅ kids₅ mid₅ later₅ => mid₅.grown later₅
    · refine mid₄.expect .rbrace fun s₅ mid₅ _ => mid₅.endAt (by omega) fun s₆ mid₆ => ?_
      exact mid₆.made (Nat.le_refl pos) mid₆.kids
  refine mid₂.ifNotAt (fun _ => ?_) fun _ => clauses mid₂ (by omega)
  refine mid₂.enter good (by omega) fun subject s₃ pos₃ c d kids₃ mid₃ left lt right nested => ?_
  refine mid₃.addChild (by omega) nested fun s₄ mid₄ => ?_
  exact mid₄.touch (fun _ => ⟨⟨rfl, rfl⟩, rfl, rfl⟩) fun s₅ mid₅ => clauses mid₅ (by omega)

theorem expectFnName_mid {β : Type} {f : Token → Parse β} {Q : β → ParseState → Prop}
    (mid : Mid p k₀ N₀ pos₀ s pos k F)
    (next : ∀ s', Mid p k₀ N₀ pos₀ s' (pos + 1) k F → wp (f (p.tokAt pos)) s' Q (Keeps N₀)) :
    wp (p.expectFnName >>= f) s Q (Keeps N₀) := by
  rw [wp_bind]
  refine mid.peek (wp_ite (fun sizeof => ?_) fun _ => ?_)
  · exact mid.advance sizeof (.plain rfl) fun s₁ mid₁ => next s₁ mid₁
  · exact wp_bind_pure.mp (mid.expectDeclName fun s₁ mid₁ _ => next s₁ mid₁)

theorem parseFunDecl_spec {allowBody : Bool} (mid : Mid p k₀ N₀ pos₀ s pos (k + 1) F)
    (kind : (p.tokAt pos).kind = .FN) (good : Good p enter g) (behind : g ≤ pos) :
    wp (p.parseFunDecl enter allowBody) s (Made p k₀ N₀ pos₀ (k + 1) F pos) (Keeps N₀) := by
  have after := mid.after
  refine mid.peek (mid.advance kind (.plain rfl) fun s₁ mid₁ => ?_)
  refine expectFnName_mid mid₁ fun s₂ mid₂ => ?_
  refine typeParams_mid mid₂ (by omega) fun fn s₃ pos₃ b₃ kids₃ mid₃ later₃ => ?_
  refine mid₃.expect .lparen fun s₄ mid₄ _ => ?_
  refine wp_grown (parseParams_spec mid₄ good (by omega)) fun _ s₅ pos₅ b₅ kids₅ mid₅ later₅ => ?_
  refine mid₅.expect .rparen fun s₆ mid₆ _ => mid₆.endAt (by omega) fun s₇ mid₇ => ?_
  have finish {s' : ParseState} {pos' b : Nat} {kids : Chain}
      (mid' : Mid p k₀ N₀ pos₀ s' pos' (k + 1) (.cons fn pos b kids .nil :: F)) (later : pos < pos') :
      wp (p.isAt .LBRACE >>= fun found => if found = true then
          if (!allowBody) = true then p.failWith .UNEXPECTED_TOKEN
          else p.parseFnBody enter fn >>= fun _ => Pure.pure fn
        else p.expect .SEMICOLON .UNEXPECTED_TOKEN >>= fun semi => p.setEnd fn semi.stop >>= fun _ => Pure.pure fn) s'
        (Made p k₀ N₀ pos₀ (k + 1) F pos) (Keeps N₀) := by
    refine mid'.ifAt (fun _ => wp_ite (fun _ => mid'.failWith) fun _ => ?_) fun _ => ?_
    · refine wp_seq (parseFnBody_spec mid' good (by omega)) ?_
      rintro _ s'' ⟨pos'', b'', kids'', mid'', nested⟩
      exact mid''.made (Nat.le_refl pos) nested
    · refine mid'.expect .semicolon fun s'' mid'' _ => mid''.endAt (by omega) fun s₃ mid₃ => ?_
      exact mid₃.made (Nat.le_refl pos) mid₃.kids
  refine mid₇.isAt (mid₇.isAt (wp_ite (fun _ => ?_) fun _ => finish mid₇ (by omega)))
  exact wp_grown (parseFnResult_spec mid₇ good (by omega)) fun _ s₈ pos₈ b₈ kids₈ mid₈ later₈ =>
    finish mid₈ (by omega)

/-- Looking for a body changes nothing. -/
theorem fnHasBody_mid {fn a b : Nat} {kids rest : Chain} {β : Type} {f : Bool → Parse β} {Q : β → ParseState → Prop}
    (mid : Mid p k₀ N₀ pos₀ s pos k (.cons fn a b kids rest :: F)) (next : ∀ found, wp (f found) s Q E) :
    wp (fnHasBody fn >>= f) s Q E := by
  obtain ⟨found, run⟩ := children_found (fun n => n.kind = .BLOCK) (hasBlock s.nodes)
    (fun room child => hasBlock.eq_def s.nodes room child) mid
  have result : fnHasBody fn s = .ok found s := by simp only [fnHasBody, run]
  rw [wp_bind, wp, result]
  exact next found

theorem parseLocalFn_spec (mid : Mid p k₀ N₀ pos₀ s pos (k + 1) F) (kind : (p.tokAt pos).kind = .FN)
    (good : Good p enter g) (behind : g ≤ pos) :
    wp (p.parseLocalFn enter) s (Made p k₀ N₀ pos₀ (k + 1) F pos) (Keeps N₀) := by
  refine wp_made (parseFunDecl_spec mid kind good behind) fun fn s₁ pos₁ a b kids mid₁ left lt right nested => ?_
  refine mid₁.touch (fun _ => ⟨⟨rfl, rfl⟩, rfl, rfl⟩) fun s₂ mid₂ => fnHasBody_mid mid₂ fun found => ?_
  exact wp_ite (fun _ => mid₂.made left nested) fun _ => mid₂.failWith

theorem parseConstStmt_spec (mid : Mid p k₀ N₀ pos₀ s pos (k + 1) F) (kind : (p.tokAt pos).kind = .CONST)
    (good : Good p enter g) (behind : g ≤ pos) :
    wp (p.parseConstStmt enter) s (Made p k₀ N₀ pos₀ (k + 1) F pos) (Keeps N₀) := by
  have after := mid.after
  refine wp_get_bind (mid.peek (wp_ite (fun _ => ?_) fun _ => ?_))
  · refine mid.advance kind (.plain rfl) fun s₁ mid₁ => ?_
    refine mid₁.newSpan (by omega) fun n s₂ mid₂ => ?_
    refine wp_made (parseBlock_spec mid₂ good (by omega)) fun block s₃ pos₃ c d kids mid₃ left lt right nested => ?_
    refine addLast_mid mid₃ (by omega) nested trivial (show pos + 1 ≤ d by omega) fun s₄ kids₄ mid₄ nested₄ => ?_
    exact mid₄.made (Nat.le_refl pos) nested₄
  · exact parseVarLikeStmt_spec mid (kind ▸ .plain rfl) good behind

theorem parseReturnStmt_spec (mid : Mid p k₀ N₀ pos₀ s pos (k + 1) F) (kind : (p.tokAt pos).kind = .RETURN)
    (good : Good p enter g) (behind : g ≤ pos) :
    wp (p.parseReturnStmt enter) s (Made p k₀ N₀ pos₀ (k + 1) F pos) (Keeps N₀) := by
  have after := mid.after
  refine mid.peek (mid.advance kind (.plain rfl) fun s₁ mid₁ => ?_)
  refine mid₁.newSpan (by omega) fun n s₂ mid₂ => ?_
  refine mid₂.ifNotAt (fun _ => ?_) fun _ => finishStmt_spec mid₂ (Nat.le_refl pos) trivial
  refine mid₂.enter good (by omega) fun first s₃ pos₃ a b kids₃ mid₃ left lt right nested => ?_
  have finish {s' : ParseState} {expr pos' c d : Nat} {kids : Chain}
      (mid' : Mid p k₀ N₀ pos₀ s' pos' (k + 1) (.cons expr c d kids .nil :: .cons n pos (pos + 1) .nil .nil :: F))
      (left' : pos + 1 ≤ c) (nested' : kids.Nested c d) :
      wp (p.addChild n expr >>= fun _ => p.node expr >>= fun node => p.setEnd n node.stop >>= fun _ => p.finishStmt n) s'
        (Made p k₀ N₀ pos₀ (k + 1) F pos) (Keeps N₀) := by
    have range := mid'.range
    refine addLast_mid mid' (by omega) nested' trivial (show pos + 1 ≤ d by omega) fun s'' kids'' mid'' nested'' => ?_
    exact finishStmt_spec mid'' (Nat.le_refl pos) nested''
  refine mid₃.ifMatch turns_comma (fun s₄ mid₄ _ => ?_) fun _ => wp_pure_bind (finish mid₃ left nested)
  have rising : Rising p k₀ N₀ pos₀ (k + 1) (.cons n pos (pos + 1) .nil .nil :: F) (pos + 1) (pos₃ + 1) [first] s₄ :=
    .one mid₄ left nested (Nat.le_refl _)
  refine wp_seq (commaRising_spec good (by omega) (by omega) rising) ?_
  rintro items s₅ ⟨pos₅, cs, mid₅, row, sorted, nonempty, later⟩
  refine buildListNode_mid mid₅ row sorted nonempty (by omega) (Nat.le_refl pos₅) ?_
  exact fun expr s₆ c d kids₆ mid₆ left₆ _ _ nested₆ => finish mid₆ left₆ nested₆

theorem parseJumpStmt_spec {kind : AstKind} (mid : Mid p k₀ N₀ pos₀ s pos (k + 1) F)
    (turns : Turns (p.tokAt pos).kind (k + 1) (k + 1)) :
    wp (p.parseJumpStmt kind) s (Made p k₀ N₀ pos₀ (k + 1) F pos) (Keeps N₀) := by
  have after := mid.after
  refine mid.peek (mid.advance rfl turns fun s₁ mid₁ => mid₁.newSpan (by omega) fun n s₂ mid₂ => ?_)
  exact finishStmt_spec mid₂ (Nat.le_refl pos) trivial

theorem parseDeferStmt_spec (mid : Mid p k₀ N₀ pos₀ s pos (k + 1) F) (kind : (p.tokAt pos).kind = .DEFER)
    (good : Good p enter g) (behind : g ≤ pos) :
    wp (p.parseDeferStmt enter) s (Made p k₀ N₀ pos₀ (k + 1) F pos) (Keeps N₀) := by
  have after := mid.after
  refine mid.peek (mid.advance kind (.plain rfl) fun s₁ mid₁ => ?_)
  refine mid₁.newSpan (by omega) fun n s₂ mid₂ => ?_
  have finish {s' : ParseState} {body pos' c d : Nat} {kids : Chain}
      (mid' : Mid p k₀ N₀ pos₀ s' pos' (k + 1) (.cons body c d kids .nil :: .cons n pos (pos + 1) .nil .nil :: F))
      (left : pos + 1 ≤ c) (nested : kids.Nested c d) :
      wp (p.addChild n body >>= fun _ => p.node body >>= fun node => p.setEnd n node.stop >>= fun _ => Pure.pure n) s'
        (Made p k₀ N₀ pos₀ (k + 1) F pos) (Keeps N₀) := by
    have range := mid'.range
    refine addLast_mid mid' (by omega) nested trivial (show pos + 1 ≤ d by omega) fun s'' kids'' mid'' nested'' => ?_
    exact mid''.made (Nat.le_refl pos) nested''
  refine mid₂.ifAt (fun _ => ?_) fun _ => ?_
  · refine wp_made (parseBlock_spec mid₂ good (by omega)) fun body s₃ pos₃ c d kids mid₃ left lt right nested => ?_
    exact finish mid₃ left nested
  · refine mid₂.enterAt good (by omega) (fun body s₃ pos₃ c d kids mid₃ left lt right nested => ?_) (Nat.le_add_left 1 k)
      trivial
    exact finish mid₃ left nested

/-- The same node seen as one of more tokens. -/
theorem widen_mid {n a b b' : Nat} {kids rest : Chain} (mid : Mid p k₀ N₀ pos₀ s pos k (.cons n a b kids rest :: F))
    (facts : ∀ node, p.Fits a b node → p.Fits a b' node) (range : a < b' ∧ b' ≤ pos) :
    Mid p k₀ N₀ pos₀ s pos k (.cons n a b' kids rest :: F) := by
  have owns := mid.owns.modify (x := .nil) (f := id) (fun _ => ⟨rfl, rfl⟩) facts
  rw [List.modify_id] at owns
  refine ⟨mid.ends, owns, mid.here, mid.after, mid.inside, mid.depth, fun c member => ?_⟩
  rcases List.mem_cons.mp member with rfl | old
  · have window := mid.window _ (List.mem_cons_self ..)
    exact ⟨⟨window.1.1, range⟩, window.2⟩
  · exact mid.window c (List.mem_cons_of_mem _ old)

/-- An `assert` statement that has taken the tokens behind its keyword, which leave as many brackets open as there
were. -/
def Asserted (p : Parser) (k₀ : Nat) (N₀ : List AstNode) (pos₀ k : Nat) (F : List Chain) (n pos : Nat)
    (s : ParseState) : Prop :=
  ∃ pos' kids, Mid p k₀ N₀ pos₀ s pos' k (.cons n pos (pos + 1) kids .nil :: F) ∧ p.Depth 0 (pos + 1) 0 pos' ∧ pos < pos'

theorem assertOperand_spec {n : Nat} (asserted : Asserted p k₀ N₀ pos₀ k F n pos s) (good : Good p enter g)
    (behind : g ≤ pos) :
    wp (enter (.expr 1) >>= fun expr => p.addChild n expr) s
      (fun _ s' => Asserted p k₀ N₀ pos₀ k F n pos s' ∧ s.pos ≤ s'.pos) (Keeps N₀) := by
  obtain ⟨pos₁, kids, mid, depth, later⟩ := asserted
  have here := mid.here
  refine wp_seq (wp_mono (good (.expr 1) s (by omega) (here ▸ mid.inside) trivial) (fun _ _ made => made)
    fun _ kept => mid.owns.kept.trans kept) ?_
  rintro expr s₁ ⟨pos₂, a, b, kids₁, fresh, left, lt, right, nested⟩
  have depth₁ := fresh.depth
  rw [here] at depth₁
  refine wp_bind_pure.mp ((mid.join fresh (Nat.zero_le k)).addChild (by omega) nested fun s₂ mid₂ => ?_)
  have there := mid₂.here
  exact ⟨⟨pos₂, _, mid₂, depth.trans depth₁ (Nat.zero_le 0), by omega⟩, by omega⟩

/-- An `assert` without a semicolon ends before a closing brace. Its node is left ending with the keyword. -/
theorem Asserted.unterminated {n pos' : Nat} {kids : Chain}
    (mid : Mid p k₀ N₀ pos₀ s pos' k (.cons n pos (pos + 1) kids .nil :: F)) (depth : p.Depth 0 (pos + 1) 0 pos')
    (later : pos < pos') (kind : (p.tokAt pos).kind = .ASSERT) (brace : (p.tokAt pos').kind = .RBRACE) :
    Mid p k₀ N₀ pos₀ s pos' k (.cons n pos pos' kids .nil :: F) := by
  have ended : stmtEnd 0 (p.kindsFrom (pos + 1)) = some .RBRACE := by
    rw [← Nat.zero_add 0, depth 0, kindsFrom_step mid.inside, stmtEnd, brace]
    rfl
  exact widen_mid mid (fun node fits => ⟨fits.1, .inr ⟨pos, Nat.le_refl pos, later, kind, ended⟩⟩)
    ⟨later, Nat.le_refl pos'⟩

theorem parseAssertStmt_spec (mid : Mid p k₀ N₀ pos₀ s pos (k + 1) F) (kind : (p.tokAt pos).kind = .ASSERT)
    (good : Good p enter g) (behind : g ≤ pos) :
    wp (p.parseAssertStmt enter) s (Made p k₀ N₀ pos₀ (k + 1) F pos) (Keeps N₀) := by
  have after := mid.after
  refine mid.peek (mid.advance kind (.plain rfl) fun s₁ mid₁ => ?_)
  refine mid₁.newSpan (by omega) fun n s₂ mid₂ => ?_
  have start : Asserted p k₀ N₀ pos₀ (k + 1) F n pos s₂ := ⟨pos + 1, .nil, mid₂, .refl 0 (pos + 1), Nat.lt_succ_self pos⟩
  refine wp_assoc.mp (wp_seq (assertOperand_spec start good behind) fun _ s₃ operand => ?_)
  refine wp_seq (wp_whileComma (I := fun _ => Asserted p k₀ N₀ pos₀ (k + 1) F n pos) operand.1 ?_ ?_ ?_) ?_
  · rintro _ s' ⟨pos', kids', mid', _⟩
    exact mid'.here ▸ mid'.inside
  · rintro _ s' ⟨pos', kids', mid', depth, later⟩ comma
    rw [mid'.here] at comma
    exact ⟨pos' + 1, kids', mid'.step comma turns_comma, depth.step mid'.inside comma turns_comma, by omega⟩
  · exact fun _ s' asserted => assertOperand_spec asserted good behind
  · rintro _ s₄ ⟨pos₄, kids₄, mid₄, depth, later⟩
    refine wp_seq (consumeStmtTerminator_spec mid₄) ?_
    rintro (_ | semi) s₅ result
    · have mid₅ := Asserted.unterminated result.1 depth later kind result.2
      exact mid₅.made (Nat.le_refl pos) mid₅.kids
    · obtain ⟨mid₅, rfl⟩ := result
      exact mid₅.endAt (by omega) fun s₆ mid₆ => mid₆.made (Nat.le_refl pos) mid₆.kids

/-- A node around the children it has so far. -/
def Around (p : Parser) (k₀ : Nat) (N₀ : List AstNode) (pos₀ k : Nat) (F : List Chain) (n a : Nat) (s : ParseState) :
    Prop :=
  ∃ pos b kids, Mid p k₀ N₀ pos₀ s pos k (.cons n a b kids .nil :: F) ∧ kids.Nested a b ∧ a < pos

theorem operand_spec {n a : Nat} (around : Around p k₀ N₀ pos₀ k F n a s) (good : Good p enter g) (behind : g ≤ a) :
    wp (enter (.expr 1) >>= fun expr => p.addChild n expr >>= fun _ => p.node expr >>= fun node =>
      p.setEnd n node.stop) s (fun _ s' => Around p k₀ N₀ pos₀ k F n a s' ∧ s.pos ≤ s'.pos) (Keeps N₀) := by
  obtain ⟨pos₁, b, kids, mid, nested, later⟩ := around
  have here := mid.here
  have range := mid.range
  refine mid.enter good (by omega) fun expr s₁ pos₂ c d kids₁ mid₁ left lt right nested₁ => ?_
  have last := addLast_mid (f := Pure.pure) (E := Keeps N₀) (Q := fun _ s' => Around p k₀ N₀ pos₀ k F n a s' ∧ s.pos ≤ s'.pos)
    mid₁ (by omega) nested₁ nested (show b ≤ d by omega) fun s₂ kids₂ mid₂ nested₂ => ?_
  · exact wp_bind_pure.mp (wp_assoc.mpr (wp_mono last (fun _ _ done => done) fun _ kept => kept))
  · have there := mid₂.here
    exact ⟨⟨pos₂, d, kids₂, mid₂, nested₂, by omega⟩, by omega⟩

theorem parseDeallocStmt_spec (mid : Mid p k₀ N₀ pos₀ s pos (k + 1) F) (kind : (p.tokAt pos).kind = .DEALLOC)
    (good : Good p enter g) (behind : g ≤ pos) :
    wp (p.parseDeallocStmt enter) s (Made p k₀ N₀ pos₀ (k + 1) F pos) (Keeps N₀) := by
  have after := mid.after
  refine mid.peek (mid.advance kind (.plain rfl) fun s₁ mid₁ => ?_)
  refine mid₁.newSpan (by omega) fun n s₂ mid₂ => ?_
  have start : Around p k₀ N₀ pos₀ (k + 1) F n pos s₂ :=
    ⟨pos + 1, pos + 1, .nil, mid₂, trivial, Nat.lt_succ_self pos⟩
  refine wp_seq (wp_commaLoop (I := fun _ => Around p k₀ N₀ pos₀ (k + 1) F n pos) start ?_ ?_ ?_) ?_
  · rintro _ s' ⟨pos', b', kids', mid', _⟩
    exact mid'.here ▸ mid'.inside
  · rintro _ s' ⟨pos', b', kids', mid', nested, later⟩ comma
    rw [mid'.here] at comma
    exact ⟨pos' + 1, b', kids', mid'.step comma turns_comma, nested, by omega⟩
  · exact fun _ s' around => operand_spec around good behind
  · rintro _ s₃ ⟨pos₃, b₃, kids₃, mid₃, nested₃, later₃⟩
    refine mid₃.ifMatch (.plain rfl) (fun s₄ mid₄ _ => ?_) fun _ => ?_
    · refine wp_seq (operand_spec ⟨_, b₃, kids₃, mid₄, nested₃, by omega⟩ good behind) ?_
      rintro _ s₅ ⟨⟨pos₅, b₅, kids₅, mid₅, nested₅, _⟩, _⟩
      exact mid₅.touch (fun _ => ⟨⟨rfl, rfl⟩, rfl, rfl⟩) fun s₆ mid₆ => finishStmt_spec mid₆ (Nat.le_refl pos) nested₅
    · exact finishStmt_spec mid₃ (Nat.le_refl pos) nested₃

theorem parseMultiAssign_spec {first a b lo : Nat} {kids : Chain}
    (mid : Mid p k₀ N₀ pos₀ s pos (k + 1) (.cons first a b kids .nil :: F)) (after : pos₀ ≤ lo)
    (left : lo ≤ a) (nested : kids.Nested a b) (good : Good p enter g) (behind : g < pos) :
    wp (p.parseMultiAssign enter first) s (Made p k₀ N₀ pos₀ (k + 1) F lo) (Keeps N₀) := by
  have range := mid.range
  refine mid.enter good behind fun second s₁ pos₁ c d kids₁ mid₁ left₁ lt₁ right₁ nested₁ => ?_
  have lhs : Rising p k₀ N₀ pos₀ (k + 1) F lo pos [first, second] s₁ := by
    refine ⟨pos₁, [.cons first a b kids .nil, .cons second c d kids₁ .nil], mid₁.swap,
      .cons ⟨a, b, kids, rfl, left, range.2.1, by omega, nested⟩
        (.cons ⟨c, d, kids₁, rfl, by omega, lt₁, right₁, nested₁⟩ .nil), ?_, by simp, by omega⟩
    exact List.pairwise_pair.mpr (show b ≤ c by omega)
  refine wp_seq (whileCommaRising_spec good behind (by omega) lhs) ?_
  rintro lhsExprs s₂ ⟨pos₂, cs, mid₂, row, sorted, nonempty, later⟩
  refine mid₂.ifMatch (.plain rfl) (fun s₃ mid₃ _ => ?_) fun _ => mid₂.failWith
  refine mid₃.enter good (by omega) fun rhs s₄ pos₄ x y kids₄ mid₄ left₄ lt₄ right₄ nested₄ => ?_
  have start : Rising p k₀ N₀ pos₀ (k + 1) (cs ++ F) (pos₂ + 1) (pos₂ + 1) [rhs] s₄ := .one mid₄ left₄ nested₄ (by omega)
  refine wp_seq (whileCommaRising_spec good (by omega) (Nat.le_refl _) start) ?_
  rintro rhsExprs s₅ ⟨pos₅, cs₅, mid₅, row₅, sorted₅, nonempty₅, later₅⟩
  have swapped : (cs₅ ++ (cs ++ F)).Perm (cs ++ (cs₅ ++ F)) := by
    rw [← List.append_assoc, ← List.append_assoc]
    exact List.perm_append_comm.append_right F
  refine buildListNode_mid (mid₅.perm swapped) row sorted nonempty (by omega) (show pos₂ ≤ pos₅ by omega)
    fun lhsList s₆ e f kids₆ mid₆ left₆ lt₆ right₆ nested₆ => ?_
  refine buildListNode_mid (mid₆.perm (perm_front cs₅).symm) row₅ sorted₅ nonempty₅ (by omega) (Nat.le_refl pos₅)
    fun rhsList s₇ e' f' kids₇ mid₇ left₇ lt₇ right₇ nested₇ => ?_
  refine mid₇.node ⟨_, List.mem_cons_of_mem _ (List.mem_cons_self ..), Chain.has_self⟩ fun _ lhsFits => ?_
  refine mid₇.node ⟨_, List.mem_cons_self .., Chain.has_self⟩ fun _ rhsFits => ?_
  refine mid₇.newNode lhsFits.1 (rhsFits.2.mono (show e ≤ e' by omega)) (by omega) fun n s₈ mid₈ => ?_
  refine (mid₈.perm (perm_front [_, _])).addChild (Nat.le_refl e) nested₆ fun s₉ mid₉ => ?_
  refine mid₉.swap.addChild (by omega) nested₇ fun s₁₀ mid₁₀ => ?_
  exact finishStmt_spec mid₁₀ left₆ ⟨⟨Nat.le_refl e, lt₆, by omega⟩, nested₆, ⟨by omega, lt₇, Nat.le_refl f'⟩, nested₇, trivial⟩

theorem parseExprStmt_spec (mid : Mid p k₀ N₀ pos₀ s pos (k + 1) F) (good : Good p enter g) (behind : g ≤ pos) :
    wp (p.parseExprStmt enter) s (Made p k₀ N₀ pos₀ (k + 1) F pos) (Keeps N₀) := by
  have after := mid.after
  refine isShortAssignStart_mid mid fun found => wp_ite (fun _ => parseShortAssignStmt_spec mid good behind) fun _ => ?_
  refine wp_made (parseExpr_spec mid good behind) fun expr s₁ pos₁ a b kids mid₁ left lt right nested => ?_
  refine mid₁.ifMatch turns_comma (fun s₂ mid₂ _ => parseMultiAssign_spec mid₂ after left nested good (by omega)) fun _ => ?_
  refine wp_seq (consumeStmtTerminator_spec mid₁) ?_
  rintro (_ | semi) s₂ result
  · refine result.1.node ⟨_, List.mem_cons_self .., Chain.has_self⟩ fun _ fits => ?_
    refine result.1.newNode fits.1 fits.2 (by omega) fun n s₃ mid₃ => ?_
    refine mid₃.swap.addChild (Nat.le_refl a) nested fun s₄ mid₄ => ?_
    exact mid₄.made left ⟨⟨Nat.le_refl a, lt, Nat.le_refl b⟩, nested, trivial⟩
  · obtain ⟨mid₂, rfl⟩ := result
    refine mid₂.node ⟨_, List.mem_cons_self .., Chain.has_self⟩ fun _ fits => ?_
    refine mid₂.newNode fits.1 (.inl rfl) (b := pos₁ + 1) (by omega) fun n s₃ mid₃ => ?_
    refine mid₃.swap.addChild (Nat.le_refl a) nested fun s₄ mid₄ => ?_
    exact mid₄.made left mid₄.kids

theorem parseStmt_spec (mid : Mid p k₀ N₀ pos₀ s pos (k + 1) F) (good : Good p enter g) (behind : g ≤ pos) :
    wp (p.parseStmt enter) s (Made p k₀ N₀ pos₀ (k + 1) F pos) (Keeps N₀) := by
  refine mid.peek ?_
  split
  · exact parseVarLikeStmt_spec mid (‹_ = TokenKind.VAR› ▸ .plain rfl) good behind
  · exact parseLocalFn_spec mid ‹_› good behind
  · exact parseConstStmt_spec mid ‹_› good behind
  · exact parseIfStmt_spec mid (‹_ = TokenKind.IF› ▸ .plain rfl) good behind
  · exact parseForStmt_spec mid ‹_› good behind
  · exact parseSwitchStmt_spec mid ‹_› good behind
  · exact parseReturnStmt_spec mid ‹_› good behind
  · exact parseJumpStmt_spec mid (‹_ = TokenKind.BREAK› ▸ .plain rfl)
  · exact parseJumpStmt_spec mid (‹_ = TokenKind.CONTINUE› ▸ .plain rfl)
  · exact parseDeferStmt_spec mid ‹_› good behind
  · exact parseAssertStmt_spec mid ‹_› good behind
  · exact parseDeallocStmt_spec mid ‹_› good behind
  · exact parseBlock_spec mid good behind
  · exact parseExprStmt_spec mid good behind

end

end Parser

end HopHop
