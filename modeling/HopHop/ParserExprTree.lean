import HopHop.ParserTypeTree

namespace HopHop

open Prog

namespace Parser

section

variable {p : Parser} {enter : Enter} {k₀ k pos₀ pos g : Nat} {N₀ : List AstNode} {s : ParseState} {F : List Chain}
  {E : ParseState → Prop}

/-- The path of a field is kept in its text only. -/
theorem parseFieldPath_spec {field a b : Nat} {kids : Chain}
    (mid : Mid p k₀ N₀ pos₀ s pos k (.cons field a b kids .nil :: F)) :
    wp (p.parseFieldPath field) s
      (fun _ s' => ∃ pos', Mid p k₀ N₀ pos₀ s' pos' k (.cons field a b kids .nil :: F) ∧ pos ≤ pos') (Keeps N₀) := by
  refine wp_rounds (I := fun _ s' => ∃ pos', Mid p k₀ N₀ pos₀ s' pos' k (.cons field a b kids .nil :: F) ∧ pos ≤ pos')
    ⟨pos, mid, Nat.le_refl pos⟩ ?_ ?_
  · rintro _ s' ⟨pos', mid', _⟩
    exact mid'.here ▸ mid'.inside
  · rintro dotted s' ⟨pos', mid', later⟩
    refine mid'.ifMatch (.plain rfl) (fun s₁ mid₁ _ => ?_) fun _ => ⟨pos', mid', later⟩
    refine mid₁.expect turns_ident fun s₂ mid₂ _ => mid₂.touch (fun _ => ⟨⟨rfl, rfl⟩, rfl, rfl⟩) fun s₃ mid₃ => ?_
    have before := mid'.here
    have behind := mid₃.here
    exact ⟨⟨_, mid₃, by omega⟩, by omega⟩

theorem moreItems_spec {close : TokenKind} (mid : Mid p k₀ N₀ pos₀ s pos (k + 1) F) :
    wp (p.moreItems close) s (fun more s' => ∃ pos', Mid p k₀ N₀ pos₀ s' pos' (k + 1) F ∧
      (if more = true then pos < pos' else pos ≤ pos')) (Keeps N₀) := by
  have separated {s' : ParseState} (mid' : Mid p k₀ N₀ pos₀ s' (pos + 1) (k + 1) F) :
      wp (p.isAt close >>= fun closed => Pure.pure (!closed)) s' (fun more s'' => ∃ pos',
        Mid p k₀ N₀ pos₀ s'' pos' (k + 1) F ∧ (if more = true then pos < pos' else pos ≤ pos')) (Keeps N₀) := by
    refine mid'.isAt ⟨pos + 1, mid', ?_⟩
    split <;> omega
  refine mid.ifMatch turns_comma (fun s₁ mid₁ _ => separated mid₁) fun _ => ?_
  refine mid.ifMatch .semicolon (fun s₁ mid₁ _ => separated mid₁) fun _ => ⟨pos, mid, by simp⟩

theorem parseCompoundField_spec {lit a b : Nat} {kids : Chain}
    (mid : Mid p k₀ N₀ pos₀ s pos k (.cons lit a b kids .nil :: F)) (good : Good p enter g) (behind : g ≤ pos) :
    wp (p.parseCompoundField enter lit) s (fun _ => Grown p k₀ N₀ pos₀ k F lit a (pos + 1)) (Keeps N₀) := by
  have range := mid.range
  refine mid.expect turns_ident fun s₁ mid₁ _ => mid₁.newSpan (by omega) fun field s₂ mid₂ => ?_
  refine mid₂.touch (fun _ => ⟨⟨rfl, rfl⟩, rfl, rfl⟩) fun s₃ mid₃ => ?_
  refine wp_seq (parseFieldPath_spec mid₃) ?_
  rintro dotted s₄ ⟨pos₄, mid₄, later⟩
  refine mid₄.ifMatch (.plain rfl) (fun s₅ mid₅ _ => ?_) fun _ => ?_
  · refine mid₅.enter good (by omega) fun expr s₆ pos₆ c d kids₆ mid₆ left lt right nested => ?_
    refine mid₆.addChild (by omega) nested fun s₇ mid₇ => ?_
    refine mid₇.node ⟨_, List.mem_cons_self .., .inr (.inl Chain.has_self)⟩ fun node fits => ?_
    refine mid₇.setEnd (fits.2.mono (by omega)) (by omega) fun s₈ mid₈ => ?_
    refine wp_bind_pure.mp (mid₈.addChild (by omega) ⟨⟨by omega, lt, Nat.le_refl d⟩, nested, trivial⟩ fun s₉ mid₉ => ?_)
    exact mid₉.grown (by omega)
  · refine wp_ite (fun _ => mid₄.failWith) fun _ => ?_
    refine mid₄.touch (fun _ => ⟨⟨rfl, rfl⟩, rfl, rfl⟩) fun s₅ mid₅ => ?_
    refine wp_bind_pure.mp (mid₅.addChild (by omega) trivial fun s₆ mid₆ => ?_)
    exact mid₆.grown (by omega)

theorem literalFields_spec {lit a b : Nat} {kids : Chain}
    (mid : Mid p k₀ N₀ pos₀ s pos (k + 1) (.cons lit a b kids .nil :: F)) (good : Good p enter g) (behind : g ≤ pos) :
    wp (Prog.loop (fun _ : Unit => do
      if (← p.isAt .RBRACE) || (← p.isAt .EOF) then Pure.pure (.inr ())
      else
        p.parseCompoundField enter lit
        if ← p.moreItems .RBRACE then Pure.pure (.inl ()) else Pure.pure (.inr ())) p.rounds ()) s
      (fun _ => Grown p k₀ N₀ pos₀ (k + 1) F lit a pos) (Keeps N₀) := by
  refine mid.rounds () fun _ s' pos' b kids mid later => ?_
  refine mid.ifEither (mid.grown later) fun _ _ => ?_
  refine wp_grown (parseCompoundField_spec mid good (by omega)) fun _ s₁ pos₁ b₁ kids₁ mid₁ later₁ => ?_
  refine wp_seq (moreItems_spec mid₁) ?_
  rintro more s₂ ⟨pos₂, mid₂, later₂⟩
  refine wp_ite (fun yes => ?_) fun no => ?_
  · simp only [yes, if_true] at later₂
    exact mid₂.grown (by omega)
  · have last : more = false := by simpa using no
    simp only [last, Bool.false_eq_true, if_false] at later₂
    exact mid₂.grown (by omega)

/-- A compound literal without a type in front. -/
theorem parseCompoundLiteralTail_spec (mid : Mid p k₀ N₀ pos₀ s pos k F) (good : Good p enter g) (behind : g ≤ pos) :
    wp (p.parseCompoundLiteralTail enter none) s (Made p k₀ N₀ pos₀ k F pos) (Keeps N₀) := by
  have after := mid.after
  refine mid.expect .lbrace fun s₁ mid₁ _ => mid₁.newSpan (by omega) fun lit s₂ mid₂ => ?_
  refine wp_grown (literalFields_spec mid₂ good (by omega)) fun _ s₃ pos₃ b₃ kids₃ mid₃ later => ?_
  refine mid₃.expect .rbrace fun s₄ mid₄ _ => mid₄.endAt (by omega) fun s₅ mid₅ => ?_
  exact mid₅.made (Nat.le_refl _) mid₅.kids

/-- A compound literal behind its type. -/
theorem parseCompoundLiteralTail_typed_spec {type c d : Nat} {kids : Chain}
    (mid : Mid p k₀ N₀ pos₀ s pos k (.cons type c d kids .nil :: F)) (nested : kids.Nested c d) (good : Good p enter g)
    (behind : g ≤ pos) :
    wp (p.parseCompoundLiteralTail enter (some type)) s (Made p k₀ N₀ pos₀ k F c) (Keeps N₀) := by
  have range := mid.range
  refine mid.expect .lbrace fun s₁ mid₁ _ => ?_
  refine mid₁.node ⟨_, List.mem_cons_self .., Chain.has_self⟩ fun node fits => ?_
  rw [fits.1]
  refine mid₁.newSpan (by omega) fun lit s₂ mid₂ => ?_
  refine mid₂.swap.addChild (Nat.le_refl c) nested fun s₃ mid₃ => ?_
  refine wp_grown (literalFields_spec mid₃ good (by omega)) fun _ s₄ pos₄ b₄ kids₄ mid₄ later => ?_
  refine mid₄.expect .rbrace fun s₅ mid₅ _ => mid₅.endAt (by omega) fun s₆ mid₆ => ?_
  exact mid₆.made (Nat.le_refl _) mid₆.kids

theorem parseArrayLiteral_spec (mid : Mid p k₀ N₀ pos₀ s pos k F) (good : Good p enter g) (behind : g ≤ pos) :
    wp (p.parseArrayLiteral enter) s (Made p k₀ N₀ pos₀ k F pos) (Keeps N₀) := by
  have after := mid.after
  refine mid.expect .lbrack fun s₁ mid₁ _ => mid₁.newSpan (by omega) fun lit s₂ mid₂ => ?_
  refine wp_grown (mid₂.rounds () ?_) fun _ s₃ pos₃ b₃ kids₃ mid₃ later => ?_
  · intro _ s' pos' b kids mid later
    refine mid.ifEither (mid.grown later) fun _ _ => ?_
    refine mid.enter good (by omega) fun elem s₃ pos₃ c d kids₃ mid₃ left lt right nested => ?_
    refine mid₃.addChild (by omega) nested fun s₄ mid₄ => ?_
    refine wp_seq (moreItems_spec mid₄) ?_
    rintro more s₅ ⟨pos₅, mid₅, later₅⟩
    have forward : pos₃ ≤ pos₅ := by split at later₅ <;> omega
    exact wp_ite (fun _ => mid₅.grown (by omega)) fun _ => mid₅.grown (by omega)
  · refine mid₃.expect .rbrack fun s₄ mid₄ _ => mid₄.endAt (by omega) fun s₅ mid₅ => ?_
    exact mid₅.made (Nat.le_refl _) mid₅.kids

/-- A type and a count in brackets, tried with the nodes there are. -/
theorem parseAllocCount_spec (mid : Mid p k₀ N₀ pos₀ s pos (k + 1) F) (good : Good p enter g) (behind : g < pos) :
    wp (p.parseAllocCount enter) s (fun r s' => ∃ pos' a b c d kids kids',
      Mid p k₀ N₀ pos₀ s' (pos' + 1) k (.cons r.2.1 c d kids' .nil :: .cons r.1 a b kids .nil :: F) ∧
      (pos ≤ a ∧ b ≤ pos' ∧ kids.Nested a b) ∧ (pos ≤ c ∧ d ≤ pos' ∧ kids'.Nested c d) ∧
      r.2.2 = p.tokAt pos') (Keeps N₀) := by
  refine mid.enter good behind fun type s₁ pos₁ a b kids₁ mid₁ left lt right nested => ?_
  refine mid₁.enter good (by omega) fun count s₂ pos₂ c d kids₂ mid₂ left₂ lt₂ right₂ nested₂ => ?_
  refine mid₂.expect .rbrack fun s₃ mid₃ _ => ?_
  exact ⟨pos₂, a, b, c, d, kids₁, kids₂, mid₃, ⟨left, by omega, nested⟩, ⟨by omega, right₂, nested₂⟩, rfl⟩

/-- Loose trees inside a range, as the children a node will get. -/
def RowIn (lo hi : Nat) : List Nat → List Chain → Prop :=
  List.Forall₂ fun n c => ∃ a b kids, c = .cons n a b kids .nil ∧ lo ≤ a ∧ a < b ∧ b ≤ hi ∧ kids.Nested a b

theorem RowIn.mono {lo hi hi' : Nat} {items : List Nat} {cs : List Chain} (row : RowIn lo hi items cs)
    (le : hi ≤ hi') : RowIn lo hi' items cs :=
  List.Forall₂.imp (fun _ _ ⟨a, b, kids, same, left, lt, right, nested⟩ =>
    ⟨a, b, kids, same, left, lt, Nat.le_trans right le, nested⟩) row

theorem addOptionalChild_mid {n a b : Nat} {kids : Chain} {child : Option Nat} {rest : List Nat} {cs : List Chain}
    {β : Type} {f : Unit → Parse β} {Q : β → ParseState → Prop} (row : RowIn a b (child.toList ++ rest) cs)
    (mid : Mid p k₀ N₀ pos₀ s pos k (cs ++ .cons n a b kids .nil :: F)) (nested : kids.Nested a b)
    (next : ∀ s' cs' kids', RowIn a b rest cs' → Mid p k₀ N₀ pos₀ s' pos k (cs' ++ .cons n a b kids' .nil :: F) →
      kids'.Nested a b → wp (f ()) s' Q E) : wp (p.addOptionalChild n child >>= f) s Q E := by
  cases child with
  | none => exact next s cs kids row mid nested
  | some child =>
    match cs, row with
    | _ :: cs, .cons ⟨c, d, kids', same, left, lt, right, nested'⟩ row =>
      subst same
      refine (mid.perm (List.perm_middle.cons _)).addChild left nested' fun s₁ mid₁ => ?_
      refine next s₁ cs _ row (mid₁.perm List.perm_middle.symm) (nested.append ?_)
      exact ⟨⟨left, lt, right⟩, nested', trivial⟩

/-- What an allocation has made before its allocator: a node with its end, and the children it will get. -/
def AllocParts (p : Parser) (k₀ : Nat) (N₀ : List AstNode) (pos₀ k : Nat) (F : List Chain) (n a lo : Nat)
    (r : Option Nat × Option Nat × Option Nat) (s : ParseState) : Prop :=
  ∃ pos b cs, Mid p k₀ N₀ pos₀ s pos k (cs ++ .cons n a b .nil .nil :: F) ∧
    RowIn a b (r.1.toList ++ (r.2.1.toList ++ (r.2.2.toList ++ []))) cs ∧ lo ≤ pos

theorem perm_three {x y z : Chain} : (x :: y :: z :: F).Perm (z :: y :: x :: F) :=
  (perm_front [x, y]).trans ((List.Perm.swap y x F).cons z)

theorem parseAllocTarget_spec {n a : Nat} (mid : Mid p k₀ N₀ pos₀ s pos k (.cons n a pos .nil .nil :: F))
    (good : Good p enter g) (behind : g < pos) :
    wp (p.parseAllocTarget enter n) s (AllocParts p k₀ N₀ pos₀ k F n a pos) (Keeps N₀) := by
  have range := mid.range
  refine wp_get_bind (mid.ifMatch_nodes .lbrack (fun s₁ mid₁ same => wp_get_bind ?_) fun _ => ?_)
  · have counted := parseAllocCount_spec mid₁.fresh good (by omega)
    refine wp_try counted ?_ fun s₂ kept => ?_
    · rintro ⟨type, count, rb⟩ s₂ ⟨pos₂, c, d, x, y, kids₂, kids₂', made, first, second, rfl⟩
      have mid₂ := mid₁.join_fresh made (by have inner := made.after; have outer := made.range; omega)
      have lt := mid₂.range
      have lt' := mid₂.swap.range
      refine (mid₂.perm (perm_front [_, _])).touch (fun _ => ⟨⟨rfl, rfl⟩, rfl, rfl⟩) fun s₃ mid₃ => ?_
      refine mid₃.endAt (by omega) fun s₄ mid₄ => ?_
      refine ⟨pos₂ + 1, pos₂ + 1, [.cons type c d kids₂ .nil, .cons count x y kids₂' .nil], mid₄.perm perm_three, ?_, by omega⟩
      exact .cons ⟨c, d, kids₂, rfl, by omega, lt'.2.1, by omega, first.2.2⟩
          (.cons ⟨x, y, kids₂', rfl, by omega, lt.2.1, by omega, second.2.2⟩ .nil)
    · have back : Mid p k₀ N₀ pos₀ { s₁ with pos := s.pos } pos k (.cons n a pos .nil .nil :: F) := mid.congr same rfl
      refine back.rewind kept fun s₃ mid₃ _ => ?_
      refine wp_made (parseArrayLiteral_spec mid₃ good (by omega)) fun init s₄ pos₄ c d kids₄ mid₄ left lt right nested => ?_
      refine mid₄.swap.touch (fun _ => ⟨⟨rfl, rfl⟩, rfl, rfl⟩) fun s₅ mid₅ => ?_
      refine mid₅.node ⟨_, List.mem_cons_of_mem _ (List.mem_cons_self ..), Chain.has_self⟩ fun node fits => ?_
      refine mid₅.setEnd (fits.2.mono (by omega)) (by omega) fun s₆ mid₆ => ?_
      exact ⟨pos₄, d, [.cons init c d kids₄ .nil], mid₆.swap, .cons ⟨c, d, kids₄, rfl, by omega, lt, Nat.le_refl d, nested⟩ .nil, by omega⟩
  · refine mid.enter good behind fun type s₁ pos₁ c d kids₁ mid₁ left lt right nested => ?_
    refine mid₁.node ⟨_, List.mem_cons_self .., Chain.has_self⟩ fun node fits => ?_
    refine mid₁.swap.setEnd (fits.2.mono (by omega)) (by omega) fun s₂ mid₂ => ?_
    refine mid₂.ifAt (fun _ => ?_) fun _ => ?_
    · refine wp_made (parseCompoundLiteralTail_spec mid₂ good (by omega)) fun init s₃ pos₃ x y kids₃ mid₃ left₃ lt₃ right₃ nested₃ => ?_
      refine mid₃.swap.touch (fun _ => ⟨⟨rfl, rfl⟩, rfl, rfl⟩) fun s₄ mid₄ => ?_
      refine mid₄.node ⟨_, List.mem_cons_of_mem _ (List.mem_cons_self ..), Chain.has_self⟩ fun node fits => ?_
      refine mid₄.setEnd (fits.2.mono (by omega)) (by omega) fun s₅ mid₅ => ?_
      refine ⟨pos₃, y, [.cons type c d kids₁ .nil, .cons init x y kids₃ .nil], mid₅.perm perm_three, ?_, by omega⟩
      exact .cons ⟨c, d, kids₁, rfl, by omega, lt, by omega, nested⟩
          (.cons ⟨x, y, kids₃, rfl, by omega, lt₃, Nat.le_refl y, nested₃⟩ .nil)
    · exact ⟨pos₁, d, [.cons type c d kids₁ .nil], mid₂.swap, .cons ⟨c, d, kids₁, rfl, by omega, lt, Nat.le_refl d, nested⟩ .nil, by omega⟩

theorem parseAllocExpr_spec (mid : Mid p k₀ N₀ pos₀ s (pos + 1) k F) (after : pos₀ ≤ pos) (good : Good p enter g)
    (behind : g ≤ pos) : wp (p.parseAllocExpr enter) s (Made p k₀ N₀ pos₀ k F pos) (Keeps N₀) := by
  refine mid.prev (mid.newSpan (by omega) fun n s₁ mid₁ => ?_)
  refine wp_seq (parseAllocTarget_spec mid₁ good (by omega)) ?_
  rintro ⟨type, count, init⟩ s₂ ⟨pos₂, b, cs, mid₂, row, later⟩
  have finish {s' : ParseState} {pos' b : Nat} {cs : List Chain} (alloc : Option Nat)
      (mid' : Mid p k₀ N₀ pos₀ s' pos' k (cs ++ .cons n pos b .nil .nil :: F))
      (row' : RowIn pos b (type.toList ++ (count.toList ++ (init.toList ++ (alloc.toList ++ [])))) cs) :
      wp (p.addOptionalChild n type >>= fun _ => p.addOptionalChild n count >>= fun _ =>
        p.addOptionalChild n init >>= fun _ => p.addOptionalChild n alloc >>= fun _ => Pure.pure n) s'
        (Made p k₀ N₀ pos₀ k F pos) (Keeps N₀) := by
    refine addOptionalChild_mid row' mid' trivial fun s₁ cs₁ kids₁ row₁ mid₁ nested₁ => ?_
    refine addOptionalChild_mid row₁ mid₁ nested₁ fun s₂ cs₂ kids₂ row₂ mid₂ nested₂ => ?_
    refine addOptionalChild_mid row₂ mid₂ nested₂ fun s₃ cs₃ kids₃ row₃ mid₃ nested₃ => ?_
    refine addOptionalChild_mid row₃ mid₃ nested₃ fun s₄ cs₄ kids₄ row₄ mid₄ nested₄ => ?_
    cases row₄
    exact mid₄.made (Nat.le_refl pos) nested₄
  refine mid₂.ifMatch (.plain rfl) (fun s₃ mid₃ _ => ?_) fun _ => finish none mid₂ ?_
  · have range := (mid₂.perm List.perm_middle).range
    refine mid₃.enter good (by omega) fun alloc s₄ pos₄ c d kids₄ mid₄ left lt right nested => ?_
    refine (mid₄.perm (perm_front (_ :: cs))).touch (fun _ => ⟨⟨rfl, rfl⟩, rfl, rfl⟩) fun s₅ mid₅ => ?_
    refine mid₅.node ⟨_, List.mem_cons_of_mem _ (List.mem_cons_self ..), Chain.has_self⟩ fun node fits => ?_
    refine mid₅.setEnd (fits.2.mono (by omega)) (by omega) fun s₆ mid₆ => ?_
    have same : (.cons n pos d .nil .nil :: (.cons alloc c d kids₄ .nil :: cs ++ F)).Perm
        ((cs ++ [.cons alloc c d kids₄ .nil]) ++ .cons n pos d .nil .nil :: F) := by
      rw [List.append_assoc]
      exact (perm_front (_ :: cs)).symm.trans (perm_front cs).symm
    refine finish (some alloc) (mid₆.perm same) ?_
    have earlier : RowIn pos b (type.toList ++ (count.toList ++ init.toList)) cs := by simpa using row
    have wider : RowIn pos d (type.toList ++ (count.toList ++ init.toList)) cs := earlier.mono (by omega)
    have all := List.rel_append wider (.cons ⟨c, d, kids₄, rfl, by omega, lt, Nat.le_refl d, nested⟩ .nil :
      RowIn pos d [alloc] [.cons alloc c d kids₄ .nil])
    simpa [RowIn, List.append_assoc] using all
  · simpa using row

/-- A walk along a chain of siblings that stops at the first node that passes a test ends. -/
theorem walk_found {N : List AstNode} {fits : Nat → Nat → AstNode → Prop} {c : Chain} {test : AstNode → Prop}
    [DecidablePred test] {walk : Nat → Int → Option Bool}
    (unfolds : ∀ room child, walk room child =
      if child < 0 then some false
      else if test (nodeAt N child.toNat) then some true
      else
        match room with
        | 0 => none
        | room + 1 => walk room (nodeAt N child.toNat).nextSibling)
    (holds : Holds fits N c) : ∀ {room : Nat}, c.count ≤ room → ∃ found, walk room c.head = some found := by
  induction c with
  | nil =>
    intro room _
    exact ⟨false, by rw [unfolds]; rfl⟩
  | cons id a b kids rest _ ih =>
    intro room enough
    obtain ⟨⟨n, here, _, _, next⟩, _, later⟩ := holds
    have nonneg : ¬((id : Int) < 0) := by omega
    rw [unfolds]
    simp only [Chain.head, if_neg nonneg, Int.toNat_natCast, nodeAt_of_getElem? here, next]
    split
    · exact ⟨true, rfl⟩
    · cases room with
      | zero => simp [Chain.count] at enough
      | succ room => exact ih later (by simpa [Chain.count] using enough)

/-- A walk along the children of a node has room for all of them. -/
theorem children_found {fn a b : Nat} {kids rest : Chain} (test : AstNode → Prop) [DecidablePred test]
    (walk : Nat → Int → Option Bool)
    (unfolds : ∀ room child, walk room child =
      if child < 0 then some false
      else if test (nodeAt s.nodes child.toNat) then some true
      else
        match room with
        | 0 => none
        | room + 1 => walk room (nodeAt s.nodes child.toNat).nextSibling)
    (mid : Mid p k₀ N₀ pos₀ s pos k (.cons fn a b kids rest :: F)) :
    ∃ found, walk s.nodes.length (nodeAt s.nodes fn).firstChild = some found := by
  obtain ⟨⟨n, here, _, first, _⟩, inner, _⟩ := mid.owns.head
  have distinct : kids.ids.Nodup := Chain.Has.nodup Chain.has_self (mid.owns.nodup (List.mem_cons_self ..))
  have small := inner.length_le distinct
  have counted := kids.count_le_ids
  rw [nodeAt_of_getElem? here, first]
  exact walk_found unfolds inner (by omega)

/-- Looking for a variadic parameter changes nothing. -/
theorem fnHasVariadicParam_mid {fn a b : Nat} {kids rest : Chain} {β : Type} {f : Bool → Parse β}
    {Q : β → ParseState → Prop} (mid : Mid p k₀ N₀ pos₀ s pos k (.cons fn a b kids rest :: F))
    (next : ∀ found, wp (f found) s Q E) : wp (fnHasVariadicParam fn >>= f) s Q E := by
  obtain ⟨found, run⟩ := children_found (fun n => n.kind = .PARAM ∧ n.has AstFlag.PARAM_VARIADIC) (anyVariadic s.nodes)
    (fun room child => anyVariadic.eq_def s.nodes room child) mid
  have result : fnHasVariadicParam fn s = .ok found s := by
    simp only [fnHasVariadicParam, run]
  rw [wp_bind, wp, result]
  exact next found

/-- Parameters without a type yet: nodes of one token each, linked in their order. -/
inductive ParamRow (lo hi : Nat) : List Nat → Chain → Prop
  | nil : ParamRow lo hi [] .nil
  | cons {param i : Nat} {params : List Nat} {rest : Chain} : lo ≤ i → i < hi → ParamRow lo hi params rest →
    ParamRow lo hi (param :: params) (.cons param i (i + 1) .nil rest)

theorem ParamRow.mono {lo hi hi' : Nat} {params : List Nat} {c : Chain} (row : ParamRow lo hi params c) (le : hi ≤ hi') :
    ParamRow lo hi' params c := by
  induction row with
  | nil => exact .nil
  | cons left right _ ih => exact .cons left (Nat.lt_of_lt_of_le right le) ih

theorem ParamRow.push {lo hi i param : Nat} {params : List Nat} {c : Chain} (row : ParamRow lo hi params c)
    (left : lo ≤ i) (right : i < hi) : ParamRow lo hi (params ++ [param]) (c.append (.cons param i (i + 1) .nil .nil)) := by
  induction row with
  | nil => exact .cons left right .nil
  | cons left' right' _ ih => exact .cons left' right' ih

theorem ParamRow.nested {lo hi : Nat} {params : List Nat} {c : Chain} (row : ParamRow lo hi params c) : c.Nested lo hi := by
  induction row with
  | nil => trivial
  | cons left right _ ih => exact ⟨⟨left, Nat.lt_succ_self _, right⟩, trivial, ih⟩

theorem ParamRow.getLast {lo hi param i : Nat} {params : List Nat} {rest : Chain}
    (row : ParamRow lo hi (param :: params) (.cons param i (i + 1) .nil rest)) :
    (param :: params).getLast? = some (Chain.lastFrom param rest) := by
  induction params generalizing param i rest with
  | nil =>
    cases row with
    | cons _ _ later => cases later; rfl
  | cons second params ih =>
    cases row with
    | cons _ _ later =>
      obtain ⟨j, rest', rfl⟩ : ∃ j rest', rest = .cons second j (j + 1) .nil rest' := by
        cases later with
        | cons _ _ _ => exact ⟨_, _, rfl⟩
      rw [List.getLast?_cons_cons, ih later]
      rfl

/-- The names of a group of parameters become linked nodes. -/
theorem parseParamNames_spec {isConstGroup : Bool} (mid : Mid p k₀ N₀ pos₀ s pos k F) :
    wp (p.parseParamNames isConstGroup) s (fun r s' => ∃ pos' c, Mid p k₀ N₀ pos₀ s' pos' k (c :: F) ∧
      ParamRow pos pos' r.1 c ∧ r.1 ≠ [] ∧ pos < pos') (Keeps N₀) := by
  refine wp_rounds (I := fun params s' => ∃ pos' c, Mid p k₀ N₀ pos₀ s' pos' k (c :: F) ∧ ParamRow pos pos' params c ∧
    pos ≤ pos') ⟨pos, .nil, mid.empty, .nil, Nat.le_refl pos⟩ ?_ ?_
  · rintro _ s' ⟨pos', c, mid', _⟩
    exact mid'.here ▸ mid'.inside
  · rintro params s' ⟨pos', c, mid', row, later⟩
    have range := mid.after
    have before := mid'.here
    refine mid'.expectDeclName fun s₁ mid₁ _ => mid₁.newSpan (by omega) fun param s₂ mid₂ => ?_
    refine mid₂.touch (fun _ => ⟨⟨rfl, rfl⟩, rfl, rfl⟩) fun s₃ mid₃ => ?_
    have row' : ParamRow pos (pos' + 1) (params ++ [param]) (c.append (.cons param pos' (pos' + 1) .nil .nil)) :=
      (row.mono (Nat.le_succ pos')).push later (Nat.lt_succ_self pos')
    have further {s₄ : ParseState} {Q : List Nat ⊕ (List Nat × Token) → ParseState → Prop}
        (mid₄ : Mid p k₀ N₀ pos₀ s₄ (pos' + 1) k (c.append (.cons param pos' (pos' + 1) .nil .nil) :: F))
        (again : ∀ s₅, Mid p k₀ N₀ pos₀ s₅ (pos' + 1 + 1) k (c.append (.cons param pos' (pos' + 1) .nil .nil) :: F) →
          Q (.inl (params ++ [param])) s₅) (done : Q (.inr (params ++ [param], p.tokAt pos')) s₄) :
        wp (p.matchTok .COMMA >>= fun b => if b = true then
            (if isConstGroup = true then p.failWith .CONST_PARAM_GROUPED_NAME_INVALID
            else p.isAt .IDENT >>= fun b => if b = true then Pure.pure (Sum.inl (params ++ [param]))
              else p.failWith .UNEXPECTED_TOKEN)
          else Pure.pure (Sum.inr (params ++ [param], p.tokAt pos'))) s₄ Q (Keeps N₀) := by
      refine mid₄.ifMatch turns_comma (fun s₅ mid₅ _ => wp_ite (fun _ => mid₅.failWith) fun _ => ?_) fun _ => done
      exact mid₅.ifAt (fun _ => again s₅ mid₅) fun _ => mid₅.failWith
    cases row with
    | nil =>
      refine further (mid₃.swap.drop trivial) (fun s₅ mid₅ => ?_) ⟨_, _, (mid₃.swap.drop trivial), row', by simp, by omega⟩
      have behind := mid₅.here
      exact ⟨⟨_, _, mid₅, row'.mono (Nat.le_succ _), by omega⟩, by omega⟩
    | cons left right rest =>
      rw [(ParamRow.cons left right rest).getLast]
      refine mid₃.link fun s₄ mid₄ => ?_
      refine further mid₄ (fun s₅ mid₅ => ?_) ⟨_, _, mid₄, row', by simp, by omega⟩
      have behind := mid₅.here
      exact ⟨⟨_, _, mid₅, row'.mono (Nat.le_succ _), by omega⟩, by omega⟩

/-- A parameter gets its type, which it then ends with. -/
theorem paramType_spec {type param i c d : Nat} {x kids rest : Chain} (flags : UInt32)
    (mid : Mid p k₀ N₀ pos₀ s pos k (.cons type c d kids .nil :: x.append (.cons param i (i + 1) .nil rest) :: F))
    (order : i < c) (nested : kids.Nested c d) (after : pos₀ ≤ i) :
    wp (p.addChild param type >>= fun _ => p.addFlags param flags >>= fun _ => p.node type >>= fun t =>
      p.setEnd param t.stop) s (fun _ s' => Mid p k₀ N₀ pos₀ s' pos k
        (x.append (.cons param i d (.cons type c d kids .nil) rest) :: F)) E := by
  have range := mid.range
  refine mid.addToSibling ⟨⟨Nat.le_of_lt order, range.2⟩, nested, trivial⟩ fun s₁ mid₁ => ?_
  refine mid₁.setSibling (fun _ => ⟨rfl, rfl⟩) (fun _ facts => facts) ⟨after, Nat.le_refl i⟩ (by omega) fun s₂ mid₂ => ?_
  refine mid₂.node ⟨_, List.mem_cons_self .., Chain.has_append.mpr (.inr (.inr (.inl Chain.has_self)))⟩ fun t fits => ?_
  refine wp_bind_pure.mp (mid₂.setSibling (fun _ => ⟨rfl, rfl⟩) (fun _ facts => ⟨facts.1, fits.2.mono (by omega)⟩)
    ⟨after, Nat.le_refl i⟩ (by omega) fun s₃ mid₃ => mid₃)

/-- The further parameters of a group get copies of the type of the first one. -/
theorem restTypes_spec {type c d lo : Nat} {kids y : Chain} {params : List Nat} (isVariadic isConstGroup : Bool)
    (row : ParamRow lo c params y) (nested : kids.Nested c d) (range : pos₀ ≤ c ∧ c < d ∧ d ≤ pos) (after : pos₀ ≤ lo) :
    ∀ {n : Nat} {s : ParseState} {x : Chain}, 0 < n → x.Has type c d kids →
      Mid p k₀ N₀ pos₀ s pos k (x.append y :: F) →
      wp (forEach (fun (param, i) => p.setParamType type isVariadic isConstGroup i param) (params.zipIdx n)) s
        (fun _ s' => ∃ z, Mid p k₀ N₀ pos₀ s' pos k (x.append z :: F) ∧ z.Nested lo d) (Keeps N₀) := by
  induction row with
  | nil => exact fun _ _ mid => ⟨.nil, mid, trivial⟩
  | @cons param i params rest left right _ ih =>
    intro n s x positive has mid
    refine wp_bind.mpr (wp_ite (fun zero => absurd zero (by omega)) fun _ => ?_)
    refine clone_mid mid ⟨_, List.mem_cons_self .., Chain.has_append.mpr (.inl has)⟩ nested range
      fun copy s₁ kids₁ mid₁ nested₁ => ?_
    refine wp_mono (paramType_spec _ mid₁ right nested₁ (by omega)) (fun _ s₂ mid₂ => ?_) fun _ kept => kept
    have joined : x.append (.cons param i d (.cons copy c d kids₁ .nil) rest) =
        (x.append (.cons param i d (.cons copy c d kids₁ .nil) .nil)).append rest := by
      rw [Chain.append_assoc]
      rfl
    rw [joined] at mid₂
    refine wp_mono (ih (by omega) (Chain.has_append.mpr (.inl has)) mid₂) ?_ fun _ kept => kept
    rintro _ s₃ ⟨z, mid₃, nested₃⟩
    rw [Chain.append_assoc] at mid₃
    exact ⟨_, mid₃, ⟨⟨left, by omega, Nat.le_refl d⟩, ⟨⟨by omega, range.2.1, Nat.le_refl d⟩, nested₁, trivial⟩, nested₃⟩⟩

/-- Flags of the parameters of a group without a type. -/
theorem paramFlags_spec {lo hi : Nat} {flags : UInt32} {params : List Nat} {y : Chain} (row : ParamRow lo hi params y)
    (after : pos₀ ≤ lo) (inside : hi ≤ pos) :
    ∀ {s : ParseState} {x : Chain}, Mid p k₀ N₀ pos₀ s pos k (x.append y :: F) →
      wp (forEach (fun param => p.addFlags param flags) params) s
        (fun _ s' => Mid p k₀ N₀ pos₀ s' pos k (x.append y :: F)) (Keeps N₀) := by
  induction row with
  | nil => exact fun mid => mid
  | @cons param i params rest left right _ ih =>
    intro s x mid
    refine mid.setSibling (fun _ => ⟨rfl, rfl⟩) (fun _ facts => facts) ⟨by omega, Nat.le_refl i⟩ (by omega)
      fun s₁ mid₁ => ?_
    have joined : x.append (.cons param i (i + 1) .nil rest) =
        (x.append (.cons param i (i + 1) .nil .nil)).append rest := by
      rw [Chain.append_assoc]
      rfl
    rw [joined] at mid₁ ⊢
    exact ih mid₁

theorem parseVariadicMark_spec {single hasExisting : Bool} (mid : Mid p k₀ N₀ pos₀ s pos k F) :
    wp (p.parseVariadicMark single hasExisting) s
      (fun _ s' => ∃ pos', Mid p k₀ N₀ pos₀ s' pos' k F ∧ pos ≤ pos') (Keeps N₀) := by
  refine mid.ifMatch (.plain rfl) (fun s₁ mid₁ _ => ?_) fun _ => ?_
  · exact wp_ite (fun _ => mid₁.failWith) fun _ => wp_ite (fun _ => mid₁.failWith) fun _ => ⟨_, mid₁, by omega⟩
  · exact wp_ite (fun _ => mid.failWith) fun _ => ⟨pos, mid, Nat.le_refl pos⟩

theorem parseParamGroup_spec {fn a b : Nat} {kids : Chain} {allowMissingType : Bool}
    (mid : Mid p k₀ N₀ pos₀ s pos k (.cons fn a b kids .nil :: F)) (good : Good p enter g) (behind : g ≤ pos) :
    wp (p.parseParamGroup enter fn allowMissingType) s (fun _ => Grown p k₀ N₀ pos₀ k F fn a (pos + 1)) (Keeps N₀) := by
  have range := mid.range
  have group {s₁ : ParseState} {pos₁ : Nat} (isConstGroup : Bool)
      (mid₁ : Mid p k₀ N₀ pos₀ s₁ pos₁ k (.cons fn a b kids .nil :: F)) (later : pos ≤ pos₁) :
      wp (fnHasVariadicParam fn >>= fun hasExisting => p.parseParamNames isConstGroup >>= fun r =>
        p.parseVariadicMark (r.1.length = 1) hasExisting >>= fun isVariadic => p.peek >>= fun t =>
        if (!isTypeStart t.kind) = true then
          if (allowMissingType && !isVariadic) = true then
            forEach (fun param => p.addFlags param (paramFlags false isConstGroup)) r.1 >>= fun _ =>
              p.addChild fn (r.1.headD 0)
          else Prog.failing fun s =>
            s.setDiagWithArg .PARAM_MISSING_TYPE r.2.start r.2.stop r.2.start r.2.stop
        else enter .type >>= fun type =>
          forEach (fun (param, i) => p.setParamType type isVariadic isConstGroup i param) r.1.zipIdx >>= fun _ =>
            p.addChild fn (r.1.headD 0)) s₁ (fun _ => Grown p k₀ N₀ pos₀ k F fn a (pos + 1)) (Keeps N₀) := by
    refine fnHasVariadicParam_mid mid₁ fun hasExisting => ?_
    refine wp_seq (parseParamNames_spec mid₁) ?_
    rintro ⟨params, lastName⟩ s₂ ⟨pos₂, y, mid₂, row, some, later₂⟩
    refine wp_seq (parseVariadicMark_spec mid₂) ?_
    rintro isVariadic s₃ ⟨pos₃, mid₃, later₃⟩
    obtain ⟨param, params, rfl⟩ := List.exists_cons_of_ne_nil some
    refine mid₃.peek (wp_ite (fun _ => wp_ite (fun _ => ?_) fun _ => mid₃.keeps) fun _ => ?_)
    · refine wp_seq (paramFlags_spec row (by omega) later₃ (x := .nil) mid₃) fun _ s₄ mid₄ => ?_
      have nested := row.nested
      cases row with
      | cons left right later =>
        refine wp_bind_pure.mp (Mid.addToSibling (x := .nil) mid₄ (nested.mono (by omega) later₃) fun s₅ mid₅ => ?_)
        exact mid₅.grown (by omega)
    · cases row with
      | @cons _ i _ rest left right later =>
        refine mid₃.enter good (by omega) fun type s₄ pos₄ c d kids₄ mid₄ left₄ lt₄ right₄ nested₄ => ?_
        have first := paramType_spec (x := .nil) (E := Keeps N₀) (paramFlags isVariadic isConstGroup) mid₄
          (by omega) nested₄ (by omega)
        have rest' (s₅ : ParseState) (mid₅ : Mid p k₀ N₀ pos₀ s₅ pos₄ k
            ((Chain.cons param i d (.cons type c d kids₄ .nil) .nil).append rest :: .cons fn a b kids .nil :: F)) :=
          restTypes_spec isVariadic isConstGroup (later.mono (show _ ≤ c by omega))
            nested₄ ⟨by omega, lt₄, right₄⟩ (by omega) (n := 1)
            (x := .cons param i d (.cons type c d kids₄ .nil) .nil) Nat.one_pos (.inr (.inl Chain.has_self)) mid₅
        have head : wp (p.setParamType type isVariadic isConstGroup 0 param) s₄
            (fun _ s' => Mid p k₀ N₀ pos₀ s' pos₄ k
              (.cons param i d (.cons type c d kids₄ .nil) rest :: .cons fn a b kids .nil :: F)) (Keeps N₀) := by
          unfold setParamType
          exact wp_ite (fun _ => first) fun no => absurd rfl no
        have both := wp_seq head fun _ s₅ mid₅ => rest' s₅ mid₅
        refine wp_seq both ?_
        rintro _ s₆ ⟨z, mid₆, nested₆⟩
        have range₆ := (mid₆.window _ (List.mem_cons_self ..)).1
        have nested : (Chain.cons param i d (.cons type c d kids₄ .nil) z).Nested a pos₄ :=
          ⟨by omega, ⟨⟨by omega, lt₄, Nat.le_refl d⟩, nested₄, trivial⟩, nested₆.mono (by omega) right₄⟩
        refine wp_bind_pure.mp (Mid.addToSibling (x := .nil) mid₆ nested fun s₇ mid₇ => ?_)
        exact mid₇.grown (by omega)
  refine mid.matchTok (.plain rfl) (fun s₁ mid₁ _ => ?_) fun _ => ?_
  · exact group true mid₁ (Nat.le_succ pos)
  · exact group false mid (Nat.le_refl pos)

/-- The parameters between the parentheses of a function. -/
theorem parseParams_spec {fn a b : Nat} {kids : Chain} {allowMissingType : Bool}
    (mid : Mid p k₀ N₀ pos₀ s pos k (.cons fn a b kids .nil :: F)) (good : Good p enter g) (behind : g ≤ pos) :
    wp (p.parseParams enter fn allowMissingType) s (fun _ => Grown p k₀ N₀ pos₀ k F fn a pos) (Keeps N₀) := by
  refine mid.ifNotAt (fun _ => ?_) fun _ => mid.grown (Nat.le_refl pos)
  refine mid.commaLoop () fun _ s' pos' b kids mid later => ?_
  refine wp_mono (parseParamGroup_spec mid good (by omega)) ?_ fun _ kept => kept
  rintro _ s₁ ⟨pos₁, b₁, kids₁, mid₁, later₁⟩
  exact mid₁.grown (by omega)

theorem parseFnResult_spec {fn a b : Nat} {kids : Chain}
    (mid : Mid p k₀ N₀ pos₀ s pos k (.cons fn a b kids .nil :: F)) (good : Good p enter g) (behind : g < pos) :
    wp (p.parseFnResult enter fn) s (fun _ => Grown p k₀ N₀ pos₀ k F fn a pos) (Keeps N₀) := by
  have range := mid.range
  refine mid.ifAt (fun _ => parseFnResultClause_spec mid good (by omega)) fun _ => ?_
  refine mid.enter good behind fun type s₁ pos₁ c d kids₁ mid₁ left lt right nested => ?_
  refine mid₁.touch (fun _ => ⟨⟨rfl, rfl⟩, rfl, rfl⟩) fun s₂ mid₂ => ?_
  refine mid₂.addChild (by omega) nested fun s₃ mid₃ => ?_
  refine mid₃.node ⟨_, List.mem_cons_self .., .inr (.inl (Chain.has_append.mpr (.inr Chain.has_self)))⟩ fun n fits => ?_
  refine wp_bind_pure.mp (mid₃.setEnd (fits.2.mono (by omega)) (by omega) fun s₄ mid₄ => ?_)
  exact mid₄.grown (by omega)

theorem parseBlock_spec (mid : Mid p k₀ N₀ pos₀ s pos k F) (good : Good p enter g) (behind : g ≤ pos) :
    wp (p.parseBlock enter) s (Made p k₀ N₀ pos₀ k F pos) (Keeps N₀) := by
  have after := mid.after
  refine mid.expect .lbrace fun s₁ mid₁ _ => mid₁.newSpan (by omega) fun block s₂ mid₂ => ?_
  refine wp_grown (mid₂.rounds () ?_) fun _ s₃ pos₃ b₃ kids₃ mid₃ later => ?_
  · intro _ s' pos' b kids mid later
    refine mid.ifEither (mid.grown later) fun _ _ => mid.ifAt (fun semicolon => ?_) fun _ => ?_
    · exact mid.advance semicolon .semicolon fun s₃ mid₃ => mid₃.grown (Nat.le_refl _)
    · refine mid.enterAt good (by omega) (fun stmt s₃ pos₃ c d kids₃ mid₃ left lt right nested => ?_) (Nat.le_add_left 1 k)
        trivial
      refine mid₃.addChild (by omega) nested fun s₄ mid₄ => ?_
      exact mid₄.grown (by omega)
  · refine mid₃.expect .rbrace fun s₄ mid₄ _ => mid₄.endAt (by omega) fun s₅ mid₅ => ?_
    exact mid₅.made (Nat.le_refl _) mid₅.kids

/-- The body of a function is its last child, with which it ends. -/
theorem parseFnBody_spec {fn a b : Nat} {kids : Chain} (mid : Mid p k₀ N₀ pos₀ s pos k (.cons fn a b kids .nil :: F))
    (good : Good p enter g) (behind : g ≤ pos) :
    wp (p.parseFnBody enter fn) s (fun _ s' => ∃ pos' b kids, Mid p k₀ N₀ pos₀ s' pos' k (.cons fn a b kids .nil :: F) ∧
      kids.Nested a b) (Keeps N₀) := by
  have range := mid.range
  have old := mid.kids
  refine wp_made (parseBlock_spec mid good behind) fun body s₁ pos₁ c d kids₁ mid₁ left lt right nested => ?_
  refine mid₁.addChild (by omega) nested fun s₂ mid₂ => ?_
  refine mid₂.node ⟨_, List.mem_cons_self .., .inr (.inl (Chain.has_append.mpr (.inr Chain.has_self)))⟩ fun n fits => ?_
  refine wp_bind_pure.mp (mid₂.setEnd (fits.2.mono (by omega)) (by omega) fun s₃ mid₃ => ?_)
  refine ⟨pos₁, d, _, mid₃, (old.mono (Nat.le_refl a) (by omega)).append ⟨⟨by omega, lt, Nat.le_refl d⟩, nested, trivial⟩⟩

theorem parseAnonFnExpr_spec (mid : Mid p k₀ N₀ pos₀ s pos k F) (good : Good p enter g) (behind : g ≤ pos) :
    wp (p.parseAnonFnExpr enter) s (Made p k₀ N₀ pos₀ k F pos) (Keeps N₀) := by
  have after := mid.after
  refine mid.expect (.plain rfl) fun s₁ mid₁ _ => mid₁.newSpan (by omega) fun fn s₂ mid₂ => ?_
  refine mid₂.expect .lparen fun s₃ mid₃ _ => ?_
  refine wp_grown (parseParams_spec mid₃ good (by omega)) fun _ s₄ pos₄ b₄ kids₄ mid₄ later₄ => ?_
  refine mid₄.expect .rparen fun s₅ mid₅ _ => mid₅.endAt (by omega) fun s₆ mid₆ => ?_
  have body {s' : ParseState} {pos' b : Nat} {kids : Chain} (mid' : Mid p k₀ N₀ pos₀ s' pos' k (.cons fn pos b kids .nil :: F))
      (later : pos ≤ pos') :
      wp (p.parseFnBody enter fn >>= fun _ => Pure.pure fn) s' (Made p k₀ N₀ pos₀ k F pos) (Keeps N₀) := by
    refine wp_seq (parseFnBody_spec mid' good (by omega)) ?_
    rintro _ s'' ⟨pos'', b'', kids'', mid'', nested⟩
    exact mid''.made (Nat.le_refl pos) nested
  refine mid₆.ifNotAt (fun _ => ?_) fun _ => body mid₆ (by omega)
  refine wp_grown (parseFnResult_spec mid₆ good (by omega)) fun _ s₇ pos₇ b₇ kids₇ mid₇ later₇ => body mid₇ (by omega)

/-- A node for one token. -/
theorem newLeaf_mid {kind : AstKind} {i : Nat} {β : Type} {f : Nat → Parse β} {Q : β → ParseState → Prop}
    (mid : Mid p k₀ N₀ pos₀ s pos k F) (range : pos₀ ≤ i ∧ i < pos)
    (next : ∀ n s', Mid p k₀ N₀ pos₀ s' pos k (.cons n i (i + 1) .nil .nil :: F) → wp (f n) s' Q (Keeps N₀)) :
    wp (p.newLeaf kind (p.tokAt i) >>= f) s Q (Keeps N₀) := by
  rw [wp_bind]
  refine mid.newSpan (by omega) fun n s₁ mid₁ => ?_
  exact mid₁.touch (fun _ => ⟨⟨rfl, rfl⟩, rfl, rfl⟩) fun s₂ mid₂ => next n s₂ mid₂

theorem newLeaf_made {kind : AstKind} {i lo : Nat} (mid : Mid p k₀ N₀ pos₀ s pos k F) (range : pos₀ ≤ i ∧ i < pos)
    (left : lo ≤ i) : wp (p.newLeaf kind (p.tokAt i)) s (Made p k₀ N₀ pos₀ k F lo) (Keeps N₀) :=
  wp_bind_pure.mp (newLeaf_mid mid range fun _ _ mid' => mid'.made left trivial)

/-- A literal with a type in front, or the state as it was. -/
theorem parseTypedLiteral_spec (mid : Mid p k₀ N₀ pos₀ s pos k F) (good : Good p enter g) (behind : g ≤ pos) :
    wp (p.parseTypedLiteral enter) s (MadeOption p k₀ N₀ pos₀ pos k F) (Keeps N₀) := by
  have here := mid.here
  have name : Closed p 0 (p.parseTypeName enter) s :=
    parseTypeName_closed mid.ends (here ▸ mid.inside) (good.mono (by omega))
  refine wp_get_bind (wp_try name (fun type s₁ made => wp_get_bind ?_) fun s₁ kept => ?_)
  · obtain ⟨pos₁, a, b, kids, fresh, left, lt, right, nested⟩ := made
    have mid₁ := mid.join fresh (Nat.zero_le k)
    refine mid₁.peek (wp_ite (fun _ => ?_) fun _ => ?_)
    · refine wp_made (parseCompoundLiteralTail_typed_spec mid₁ nested good (by omega)) ?_
      intro n s₂ pos₂ c d kids₂ mid₂ left₂ lt₂ right₂ nested₂
      exact ⟨pos₂, c, d, kids₂, mid₂, by omega, lt₂, right₂, nested₂⟩
    · exact mid.rewind fresh.owns.kept fun s₂ mid₂ _ => mid₂
  · exact mid.rewind kept fun s₂ mid₂ _ => mid₂

theorem parseParen_spec (mid : Mid p k₀ N₀ pos₀ s (pos + 1) (k + 1) F) (after : pos₀ ≤ pos) (good : Good p enter g)
    (behind : g ≤ pos) : wp (p.parseParen enter) s (Made p k₀ N₀ pos₀ k F pos) (Keeps N₀) := by
  refine mid.prev (mid.enter good (by omega) fun first s₁ pos₁ a b kids mid₁ left lt right nested => ?_)
  refine mid₁.ifNotMatch turns_comma (fun _ => ?_) fun s₂ mid₂ _ => ?_
  · refine mid₁.expect .rparen fun s₂ mid₂ _ => mid₂.touch (fun _ => ⟨⟨rfl, rfl⟩, rfl, rfl⟩) fun s₃ mid₃ => ?_
    exact mid₃.made (by omega) nested
  · have listed : Listed p k₀ N₀ pos₀ (k + 1) F pos (pos + 1) [first] s₂ :=
      ⟨_, [_], mid₂, .cons ⟨a, b, kids, rfl, by omega, nested⟩ .nil, by omega⟩
    refine wp_seq (commaItems_spec good (by omega) (by omega) listed) ?_
    rintro items s₃ ⟨pos₃, cs, mid₃, row, later⟩
    refine mid₃.expect .rparen fun s₄ mid₄ _ => mid₄.newSpan (by omega) fun n s₅ mid₅ => ?_
    refine wp_seq (addChildren_spec row (mid₅.perm (perm_front cs).symm)) ?_
    rintro _ s₆ ⟨kids₆, mid₆⟩
    exact mid₆.made (Nat.le_refl _) mid₆.kids

/-- A type before a closing parenthesis, tried with the nodes there are. -/
theorem parseSizeofType_spec (mid : Mid p k₀ s.nodes pos₀ s pos k []) (good : Good p enter g) (behind : g < pos) :
    wp (p.parseSizeofType enter) s (fun r s' => match r with
      | some n => Made p k₀ s.nodes pos₀ k [] pos n s'
      | none => Keeps s.nodes s') (Keeps s.nodes) := by
  have type := mid.closed (good .type s (by rw [mid.here]; omega) (by rw [mid.here]; exact mid.inside) trivial) (Nat.zero_le _)
  refine wp_try type (fun n s₁ made => ?_) fun s₁ kept => kept
  obtain ⟨pos₁, a, b, kids, mid₁, rest⟩ := made
  exact mid₁.ifAt (fun _ => ⟨pos₁, a, b, kids, mid₁, rest⟩) fun _ => mid₁.keeps

theorem parseSizeof_spec (mid : Mid p k₀ N₀ pos₀ s (pos + 1) k F) (after : pos₀ ≤ pos) (good : Good p enter g)
    (behind : g ≤ pos) : wp (p.parseSizeof enter) s (Made p k₀ N₀ pos₀ k F pos) (Keeps N₀) := by
  refine mid.prev (mid.expect .lparen fun s₁ mid₁ _ => mid₁.newSpan (by omega) fun n s₂ mid₂ => wp_get_bind ?_)
  have add {s' : ParseState} {pos' inner c d : Nat} {kids : Chain} {flags : UInt32}
      (mid' : Mid p k₀ N₀ pos₀ s' pos' (k + 1) (.cons inner c d kids .nil :: .cons n pos (pos + 1 + 1) .nil .nil :: F))
      (left : pos ≤ c) (nested : kids.Nested c d) (later : pos < pos') :
      wp (p.setFlags n flags >>= fun _ => p.addChild n inner >>= fun _ => p.expect .RPAREN .EXPECTED_EXPR >>= fun rp =>
        p.setEnd n rp.stop >>= fun _ => Pure.pure n) s' (Made p k₀ N₀ pos₀ k F pos) (Keeps N₀) := by
    refine mid'.swap.touch (fun _ => ⟨⟨rfl, rfl⟩, rfl, rfl⟩) fun s₃ mid₃ => ?_
    refine mid₃.swap.addChild left nested fun s₄ mid₄ => ?_
    refine mid₄.expect .rparen fun s₅ mid₅ _ => mid₅.endAt (by omega) fun s₆ mid₆ => ?_
    exact mid₆.made (Nat.le_refl pos) mid₆.kids
  refine wp_seq (wp_mono (parseSizeofType_spec mid₂.fresh good (by omega)) (fun _ _ made => made)
    fun _ kept => mid₂.owns.kept.trans kept) ?_
  rintro (_ | inner) s₃ result
  · refine mid₂.rewind result fun s₄ mid₄ _ => ?_
    refine mid₄.enter good (by omega) fun inner s₅ pos₅ c d kids mid₅ left lt right nested => ?_
    exact add mid₅ (by omega) nested (by omega)
  · obtain ⟨pos₃, c, d, kids, mid₃, left, lt, right, nested⟩ := mid₂.made_fresh result (Nat.le_refl _)
    exact add mid₃ (by omega) nested (by omega)

theorem parseTypeValue_spec (mid : Mid p k₀ N₀ pos₀ s pos k F) (kind : (p.tokAt pos).kind = .TYPE)
    (good : Good p enter g) (behind : g ≤ pos) :
    wp (p.parseTypeValue enter) s (Made p k₀ N₀ pos₀ k F pos) (Keeps N₀) := by
  have after := mid.after
  refine mid.advance kind (.plain rfl) fun s₁ mid₁ => mid₁.prev ?_
  refine mid₁.newSpan (by omega) fun n s₂ mid₂ => ?_
  refine mid₂.enter good (by omega) fun type s₃ pos₃ c d kids mid₃ left lt right nested => ?_
  refine mid₃.node ⟨_, List.mem_cons_self .., Chain.has_self⟩ fun node fits => ?_
  refine mid₃.swap.setEnd (fits.2.mono (by omega)) (by omega) fun s₄ mid₄ => ?_
  refine mid₄.swap.addChild (by omega) nested fun s₅ mid₅ => ?_
  exact mid₅.made (Nat.le_refl pos) ⟨⟨by omega, lt, Nat.le_refl d⟩, nested, trivial⟩

theorem parseStructLiteral_spec (mid : Mid p k₀ N₀ pos₀ s (pos + 1) k F) (after : pos₀ ≤ pos) (good : Good p enter g)
    (behind : g ≤ pos) : wp (p.parseStructLiteral enter) s (Made p k₀ N₀ pos₀ k F pos) (Keeps N₀) := by
  refine mid.prev ?_
  refine wp_made (parseCompoundLiteralTail_spec mid good (by omega)) fun lit s₁ pos₁ a b kids mid₁ left lt right nested => ?_
  refine mid₁.setNode (fun _ => ⟨rfl, rfl⟩) (fun _ facts => ⟨rfl, facts.2.mono (by omega)⟩) (by omega)
    (by omega) fun s₂ mid₂ => ?_
  refine mid₂.touch (fun _ => ⟨⟨rfl, rfl⟩, rfl, rfl⟩) fun s₃ mid₃ => ?_
  exact mid₃.made (Nat.le_refl pos) (nested.mono (by omega) (Nat.le_refl b))

theorem literalKind_turns {kind : TokenKind} {made : AstKind} (literal : literalKind kind = some made) {k : Nat} :
    Turns kind k k := by
  unfold literalKind at literal
  split at literal
  case h_7 => exact nomatch literal
  all_goals exact ⟨by decide, fun _ => rfl⟩

theorem parsePrimaryToken_spec (mid : Mid p k₀ N₀ pos₀ s pos k F) (good : Good p enter g) (behind : g ≤ pos) :
    wp (p.parsePrimaryToken enter) s (Made p k₀ N₀ pos₀ k F pos) (Keeps N₀) := by
  have after := mid.after
  refine mid.peek (wp_get_bind (wp_ite (fun _ => parseCompoundLiteralTail_spec mid good behind) fun _ => ?_))
  refine mid.ifMatch (.plain rfl)
    (fun s₁ mid₁ _ => parseStructLiteral_spec mid₁ after good behind) fun _ => ?_
  refine wp_ite (fun typed => parseTypeValue_spec mid typed.1 good behind) fun _ => wp_ite (fun named => ?_) fun _ => ?_
  · have turns : Turns (p.tokAt pos).kind k k := by
      rcases named with same | same <;> rw [same] <;> exact ⟨by decide, fun _ => rfl⟩
    exact mid.advance rfl turns fun s₁ mid₁ => mid₁.prev (newLeaf_made mid₁ (by omega) (Nat.le_refl pos))
  split
  case h_1 kind literal =>
    exact mid.advance rfl (literalKind_turns literal) fun s₁ mid₁ => newLeaf_made mid₁ (by omega) (Nat.le_refl pos)
  case h_2 =>
    refine mid.ifMatch (.plain rfl) (fun s₁ mid₁ _ => mid₁.prev ?_) fun _ => ?_
    · exact wp_bind_pure.mp (mid₁.newSpan (by omega) fun n s₂ mid₂ => mid₂.made (Nat.le_refl pos) trivial)
    refine mid.ifMatch .lparen (fun s₁ mid₁ _ => parseParen_spec mid₁ after good behind) fun _ => ?_
    refine mid.ifAt (fun _ => parseArrayLiteral_spec mid good behind) fun _ => ?_
    refine mid.ifAt (fun _ => parseAnonFnExpr_spec mid good behind) fun _ => ?_
    refine mid.ifMatch (.plain rfl)
      (fun s₁ mid₁ _ => parseSizeof_spec mid₁ after good behind) fun _ => ?_
    refine mid.ifMatch (.plain rfl)
      (fun s₁ mid₁ _ => parseAllocExpr_spec mid₁ after good behind) fun _ => mid.failWith

theorem parsePrimary_spec (mid : Mid p k₀ N₀ pos₀ s pos k F) (good : Good p enter g) (behind : g ≤ pos) :
    wp (p.parsePrimary enter) s (Made p k₀ N₀ pos₀ k F pos) (Keeps N₀) := by
  refine mid.ifAt (fun _ => ?_) fun _ => parsePrimaryToken_spec mid good behind
  refine wp_seq (parseTypedLiteral_spec mid good behind) ?_
  rintro (_ | lit) s₁ result
  · exact parsePrimaryToken_spec result good behind
  · exact result

/-- The label of an argument, when it has one. -/
theorem label_mid {labelled : Prop} [Decidable labelled] {β : Type} {f : Unit → Parse β} {Q : β → ParseState → Prop}
    (mid : Mid p k₀ N₀ pos₀ s pos k F)
    (kinds : labelled → (p.tokAt pos).kind = .IDENT ∧ (p.tokAt (pos + 1)).kind = .COLON)
    (next : ∀ s' pos', Mid p k₀ N₀ pos₀ s' pos' k F → pos ≤ pos' → wp (f ()) s' Q E) :
    wp (if labelled then p.advance >>= fun _ => p.advance >>= f else f ()) s Q E := by
  refine wp_ite (fun yes => ?_) fun _ => next s pos mid (Nat.le_refl pos)
  refine mid.advance (kinds yes).1 turns_ident fun s₁ mid₁ => ?_
  refine mid₁.advance (kinds yes).2 (.plain rfl) fun s₂ mid₂ => next s₂ _ mid₂ (by omega)

theorem parseCallArg_spec {n a b : Nat} {kids : Chain} (mid : Mid p k₀ N₀ pos₀ s pos k (.cons n a b kids .nil :: F))
    (good : Good p enter g) (behind : g < pos) :
    wp (p.parseCallArg enter n) s (fun _ => Grown p k₀ N₀ pos₀ k F n a pos) (Keeps N₀) := by
  have range := mid.range
  refine wp_get_bind (mid.peek ?_)
  rw [mid.here]
  refine label_mid mid (fun labelled => ⟨labelled.1, labelled.2.2⟩) fun s₁ pos₁ mid₁ later => ?_
  refine mid₁.enter good (by omega) fun arg s₂ pos₂ c d kids₂ mid₂ left lt right nested => ?_
  have attach {s' : ParseState} {pos' argNode e : Nat} (mid' : Mid p k₀ N₀ pos₀ s' pos' k
        (.cons argNode pos e .nil .nil :: .cons arg c d kids₂ .nil :: .cons n a b kids .nil :: F))
      (right' : d ≤ e) (later' : pos ≤ pos') :
      wp (p.addChild argNode arg >>= fun _ => p.addChild n argNode) s' (fun _ => Grown p k₀ N₀ pos₀ k F n a pos)
        (Keeps N₀) := by
    refine mid'.swap.addChild (by omega) nested fun s₃ mid₃ => ?_
    refine wp_bind_pure.mp (mid₃.addChild (by omega) ⟨⟨by omega, lt, right'⟩, nested, trivial⟩ fun s₄ mid₄ => ?_)
    exact mid₄.grown later'
  refine mid₂.matchTok (.plain rfl) (fun s₃ mid₃ _ => ?_) fun _ => ?_
  · refine mid₃.prev (mid₃.node ⟨_, List.mem_cons_self .., Chain.has_self⟩ fun _ fits => ?_)
    refine mid₃.newSpan (by omega) fun argNode s₄ mid₄ => ?_
    refine mid₄.touchIf (fun _ => ⟨⟨rfl, rfl⟩, rfl, rfl⟩) fun s₅ mid₅ => ?_
    refine mid₅.touchIf (fun _ => ⟨⟨rfl, rfl⟩, rfl, rfl⟩) fun s₆ mid₆ => attach mid₆ (by omega) (by omega)
  · obtain ⟨q, rfl⟩ : ∃ q, pos₂ = q + 1 := ⟨pos₂ - 1, by omega⟩
    refine mid₂.prev (mid₂.node ⟨_, List.mem_cons_self .., Chain.has_self⟩ fun _ fits => ?_)
    refine mid₂.newNode rfl (fits.2.mono (show pos ≤ _ by omega)) (by omega) fun argNode s₃ mid₃ => ?_
    refine mid₃.touchIf (fun _ => ⟨⟨rfl, rfl⟩, rfl, rfl⟩) fun s₄ mid₄ => ?_
    refine mid₄.touchIf (fun _ => ⟨⟨rfl, rfl⟩, rfl, rfl⟩) fun s₅ mid₅ => attach mid₅ (Nat.le_refl d) (by omega)

/-- A tree has been made and the place is behind `later`. -/
def Formed (p : Parser) (k₀ : Nat) (N₀ : List AstNode) (pos₀ k : Nat) (F : List Chain) (lo later n : Nat)
    (s : ParseState) : Prop := Made p k₀ N₀ pos₀ k F lo n s ∧ later < s.pos

theorem formed_mid {n a b lo later : Nat} {kids : Chain} (mid : Mid p k₀ N₀ pos₀ s pos k (.cons n a b kids .nil :: F))
    (left : lo ≤ a) (nested : kids.Nested a b) (further : later < pos) :
    wp (Pure.pure n) s (Formed p k₀ N₀ pos₀ k F lo later) E :=
  ⟨mid.made (E := E) left nested, mid.here ▸ further⟩

/-- A postfix form starts with its operand, which is its first child. -/
theorem newPostfix_mid {kind : AstKind} {expr a b : Nat} {kids : Chain} {β : Type} {f : Nat → Parse β}
    {Q : β → ParseState → Prop} (mid : Mid p k₀ N₀ pos₀ s (pos + 1) k (.cons expr a b kids .nil :: F))
    (before : b ≤ pos) (nested : kids.Nested a b)
    (next : ∀ n s' kids, Mid p k₀ N₀ pos₀ s' (pos + 1) k (.cons n a (pos + 1) kids .nil :: F) →
      kids.Nested a (pos + 1) → wp (f n) s' Q (Keeps N₀)) :
    wp (p.newPostfix kind expr >>= f) s Q (Keeps N₀) := by
  have range := mid.range
  rw [wp_bind]
  refine mid.node ⟨_, List.mem_cons_self .., Chain.has_self⟩ fun operand fits => mid.prev ?_
  rw [fits.1]
  refine mid.newSpan (by omega) fun n s₁ mid₁ => mid₁.swap.addChild (Nat.le_refl a) nested fun s₂ mid₂ => ?_
  exact next n s₂ _ mid₂ mid₂.kids

theorem closePostfix_spec {n a b lo later : Nat} {kids : Chain} {close : TokenKind} (turns : Turns close (k + 1) k)
    (mid : Mid p k₀ N₀ pos₀ s pos (k + 1) (.cons n a b kids .nil :: F)) (left : lo ≤ a) (further : later ≤ pos) :
    wp (p.closePostfix n close) s (Formed p k₀ N₀ pos₀ k F lo later) (Keeps N₀) := by
  have range := mid.range
  refine mid.expect turns fun s₁ mid₁ _ => mid₁.endAt (by omega) fun s₂ mid₂ => ?_
  exact formed_mid mid₂ left mid₂.kids (by omega)

theorem parseFieldAccess_spec {expr a b : Nat} {kids : Chain}
    (mid : Mid p k₀ N₀ pos₀ s (pos + 1) k (.cons expr a b kids .nil :: F)) (before : b ≤ pos) (nested : kids.Nested a b) :
    wp (p.parseFieldAccess expr) s (Formed p k₀ N₀ pos₀ k F a pos) (Keeps N₀) := by
  have range := mid.range
  refine newPostfix_mid mid before nested fun n s₁ kids₁ mid₁ _ => ?_
  refine mid₁.expect turns_ident fun s₂ mid₂ _ => mid₂.touch (fun _ => ⟨⟨rfl, rfl⟩, rfl, rfl⟩) fun s₃ mid₃ => ?_
  exact mid₃.endAt (by omega) fun s₄ mid₄ => formed_mid mid₄ (Nat.le_refl a) mid₄.kids (by omega)

theorem parseCast_spec {expr a b : Nat} {kids : Chain}
    (mid : Mid p k₀ N₀ pos₀ s (pos + 1) k (.cons expr a b kids .nil :: F)) (before : b ≤ pos) (nested : kids.Nested a b)
    (good : Good p enter g) (behind : g ≤ pos) : wp (p.parseCast enter expr) s (Formed p k₀ N₀ pos₀ k F a pos) (Keeps N₀) := by
  have range := mid.range
  refine newPostfix_mid mid before nested fun n s₁ kids₁ mid₁ old => ?_
  refine mid₁.touch (fun _ => ⟨⟨rfl, rfl⟩, rfl, rfl⟩) fun s₂ mid₂ => ?_
  refine mid₂.enter good (by omega) fun type s₃ pos₃ c d kids₃ mid₃ left lt right nested₃ => ?_
  refine mid₃.addChild (by omega) nested₃ fun s₄ mid₄ => ?_
  refine mid₄.node ⟨_, List.mem_cons_self .., .inr (.inl (Chain.has_append.mpr (.inr Chain.has_self)))⟩ fun node fits => ?_
  refine mid₄.setEnd (fits.2.mono (by omega)) (by omega) fun s₅ mid₅ => ?_
  refine formed_mid mid₅ (Nat.le_refl a) ((old.mono (Nat.le_refl a) (by omega)).append ?_) (by omega)
  exact ⟨⟨by omega, lt, Nat.le_refl d⟩, nested₃, trivial⟩

theorem parseSliceEnd_spec {n a b : Nat} {kids : Chain}
    (mid : Mid p k₀ N₀ pos₀ s pos k (.cons n a b kids .nil :: F)) (good : Good p enter g) (behind : g < pos) :
    wp (p.parseSliceEnd enter n) s (fun _ => Grown p k₀ N₀ pos₀ k F n a pos) (Keeps N₀) := by
  have range := mid.range
  refine mid.ifNotAt (fun _ => ?_) fun _ => mid.grown (Nat.le_refl pos)
  refine mid.enter good behind fun expr s₁ pos₁ c d kids₁ mid₁ left lt right nested => ?_
  refine mid₁.swap.touch (fun _ => ⟨⟨rfl, rfl⟩, rfl, rfl⟩) fun s₂ mid₂ => ?_
  refine wp_bind_pure.mp (mid₂.swap.addChild (by omega) nested fun s₃ mid₃ => ?_)
  exact mid₃.grown (by omega)

theorem parseIndex_spec {expr a b : Nat} {kids : Chain}
    (mid : Mid p k₀ N₀ pos₀ s (pos + 1) (k + 1) (.cons expr a b kids .nil :: F)) (before : b ≤ pos)
    (nested : kids.Nested a b) (good : Good p enter g) (behind : g ≤ pos) :
    wp (p.parseIndex enter expr) s (Formed p k₀ N₀ pos₀ k F a pos) (Keeps N₀) := by
  have range := mid.range
  refine newPostfix_mid mid before nested fun n s₁ kids₁ mid₁ old => ?_
  refine mid₁.ifMatch (.plain rfl) (fun s₂ mid₂ _ => ?_) fun _ => ?_
  · refine mid₂.touch (fun _ => ⟨⟨rfl, rfl⟩, rfl, rfl⟩) fun s₃ mid₃ => ?_
    refine wp_grown (parseSliceEnd_spec mid₃ good (by omega)) fun _ s₄ pos₄ b₄ kids₄ mid₄ later => ?_
    exact closePostfix_spec .rbrack mid₄ (Nat.le_refl a) (by omega)
  · refine mid₁.enter good (by omega) fun first s₂ pos₂ c d kids₂ mid₂ left lt right nested₂ => ?_
    refine mid₂.ifMatch (.plain rfl) (fun s₃ mid₃ _ => ?_) fun _ => ?_
    · refine mid₃.swap.touch (fun _ => ⟨⟨rfl, rfl⟩, rfl, rfl⟩) fun s₄ mid₄ => ?_
      refine mid₄.swap.addChild (by omega) nested₂ fun s₅ mid₅ => ?_
      refine wp_grown (parseSliceEnd_spec mid₅ good (by omega)) fun _ s₆ pos₆ b₆ kids₆ mid₆ later => ?_
      exact closePostfix_spec .rbrack mid₆ (Nat.le_refl a) (by omega)
    · refine mid₂.addChild (by omega) nested₂ fun s₃ mid₃ => ?_
      exact closePostfix_spec .rbrack mid₃ (Nat.le_refl a) (by omega)

theorem parseCall_spec {expr a b : Nat} {kids : Chain}
    (mid : Mid p k₀ N₀ pos₀ s (pos + 1) (k + 1) (.cons expr a b kids .nil :: F)) (before : b ≤ pos)
    (nested : kids.Nested a b) (good : Good p enter g) (behind : g ≤ pos) :
    wp (p.parseCall enter expr) s (Formed p k₀ N₀ pos₀ k F a pos) (Keeps N₀) := by
  refine newPostfix_mid mid before nested fun n s₁ kids₁ mid₁ _ => ?_
  refine mid₁.ifNotAt (fun _ => ?_) fun _ => closePostfix_spec .rparen mid₁ (Nat.le_refl a) (by omega)
  refine wp_grown (mid₁.commaLoop () ?_) fun _ s₂ pos₂ b₂ kids₂ mid₂ later => closePostfix_spec .rparen mid₂ (Nat.le_refl a) (by omega)
  intro _ s' pos' b' kids' mid' later
  exact parseCallArg_spec mid' good (by omega)

/-- What a step around a tree does: it goes on with a larger one, behind more tokens, or stays. -/
def Stepped (p : Parser) (k₀ : Nat) (N₀ : List AstNode) (pos₀ k : Nat) (F : List Chain) (lo later : Nat) :
    Nat ⊕ Nat → ParseState → Prop
  | .inl n => Formed p k₀ N₀ pos₀ k F lo later n
  | .inr n => Made p k₀ N₀ pos₀ k F lo n

/-- A loop of steps around a tree. -/
theorem steps_spec {step : Nat → Parse (Nat ⊕ Nat)} {n lo : Nat} (start : Made p k₀ N₀ pos₀ k F lo n s)
    (each : ∀ n s pos a b kids, Mid p k₀ N₀ pos₀ s pos k (.cons n a b kids .nil :: F) → lo ≤ a → kids.Nested a b →
      wp (step n) s (Stepped p k₀ N₀ pos₀ k F lo pos) (Keeps N₀)) :
    wp (.loop step p.rounds n) s (Made p k₀ N₀ pos₀ k F lo) (Keeps N₀) := by
  refine wp_rounds start ?_ ?_
  · rintro n s ⟨pos, a, b, kids, mid, _⟩
    exact mid.here ▸ mid.inside
  · rintro n s ⟨pos, a, b, kids, mid, left, lt, right, nested⟩
    refine wp_mono (each n s pos a b kids mid left nested) ?_ fun _ kept => kept
    rintro (_ | _) s' result
    · exact ⟨result.1, mid.here ▸ result.2⟩
    · exact result

/-- One postfix form around an operand, or the operand itself. -/
theorem parsePostfixStep_spec {expr lo a b : Nat} {kids : Chain}
    (mid : Mid p k₀ N₀ pos₀ s pos k (.cons expr a b kids .nil :: F)) (left : lo ≤ a) (nested : kids.Nested a b)
    (good : Good p enter g) (behind : g ≤ pos) :
    wp (p.parsePostfixStep enter expr) s (Stepped p k₀ N₀ pos₀ k F lo pos) (Keeps N₀) := by
  have range := mid.range
  have wrap {s' : ParseState} {m : Parse Nat} (form : wp m s' (Formed p k₀ N₀ pos₀ k F a pos) (Keeps N₀)) :
      wp (m >>= fun n => Pure.pure (.inl n)) s' (Stepped p k₀ N₀ pos₀ k F lo pos) (Keeps N₀) := by
    refine wp_seq form fun n s'' ⟨⟨pos'', c, d, kids'', mid'', left'', rest⟩, further⟩ => ?_
    exact ⟨⟨pos'', c, d, kids'', mid'', Nat.le_trans left left'', rest⟩, further⟩
  refine mid.ifMatch .lparen (fun s₁ mid₁ _ => wrap (parseCall_spec mid₁ range.2.2 nested good behind)) fun _ => ?_
  refine mid.ifMatch .lbrack (fun s₁ mid₁ _ => wrap (parseIndex_spec mid₁ range.2.2 nested good behind)) fun _ => ?_
  refine mid.ifMatch (.plain rfl)
    (fun s₁ mid₁ _ => wrap (parseFieldAccess_spec mid₁ range.2.2 nested)) fun _ => ?_
  refine mid.ifMatch (.plain rfl)
    (fun s₁ mid₁ _ => wrap (parseCast_spec mid₁ range.2.2 nested good behind)) fun _ => ?_
  refine mid.ifMatch (.plain rfl) (fun s₁ mid₁ _ => ?_) fun _ => ?_
  · refine newPostfix_mid mid₁ range.2.2 nested fun n s₂ kids₂ mid₂ nested₂ => ?_
    exact ⟨mid₂.made (E := Keeps N₀) left nested₂, by rw [mid₂.here]; exact Nat.lt_succ_self pos⟩
  · exact ⟨pos, a, b, kids, mid, left, range.2.1, range.2.2, nested⟩

theorem parsePrefix_spec (mid : Mid p k₀ N₀ pos₀ s pos k F) (good : Good p enter g) (behind : g ≤ pos) :
    wp (p.parsePrefix enter) s (Made p k₀ N₀ pos₀ k F pos) (Keeps N₀) := by
  have after := mid.after
  refine mid.peek (wp_ite (fun prefixed => ?_) fun _ => ?_)
  · have turns : Turns (p.tokAt pos).kind k k := by
      unfold isPrefixOp at prefixed
      simp only [Bool.or_eq_true, decide_eq_true_eq] at prefixed
      rcases prefixed with (((same | same) | same) | same) | same <;> rw [same] <;> exact ⟨by decide, fun _ => rfl⟩
    refine mid.advance rfl turns fun s₁ mid₁ => ?_
    refine mid₁.enter good (by omega) fun rhs s₂ pos₂ c d kids₂ mid₂ left lt right nested => ?_
    refine mid₂.node ⟨_, List.mem_cons_self .., Chain.has_self⟩ fun node fits => ?_
    refine mid₂.newNode rfl (fits.2.mono (show pos ≤ _ by omega)) (by omega) fun n s₃ mid₃ => ?_
    refine mid₃.touch (fun _ => ⟨⟨rfl, rfl⟩, rfl, rfl⟩) fun s₄ mid₄ => ?_
    refine mid₄.swap.addChild (by omega) nested fun s₅ mid₅ => ?_
    exact mid₅.made (Nat.le_refl pos) ⟨⟨by omega, lt, Nat.le_refl d⟩, nested, trivial⟩
  · refine wp_seq (parsePrimary_spec mid good behind) fun n s₁ made => ?_
    refine steps_spec made fun n s' pos' a b kids mid' left nested => ?_
    have forward := mid'.range
    exact parsePostfixStep_spec mid' left nested good (by omega)

theorem binPrec_turns {kind : TokenKind} (binary : binPrec kind ≠ 0) {k : Nat} : Turns kind k k := by
  unfold binPrec at binary
  split at binary
  case isTrue assign => cases kind <;> first | exact ⟨by decide, fun _ => rfl⟩ | exact absurd assign (by decide)
  case isFalse =>
    split at binary
    case h_19 => exact absurd rfl binary
    all_goals exact ⟨by decide, fun _ => rfl⟩

theorem parseBinaryStep_spec {minPrec lhs lo a b : Nat} {kids : Chain}
    (mid : Mid p k₀ N₀ pos₀ s pos k (.cons lhs a b kids .nil :: F)) (left : lo ≤ a) (nested : kids.Nested a b)
    (good : Good p enter g) (behind : g ≤ pos) :
    wp (p.parseBinaryStep enter minPrec lhs) s (Stepped p k₀ N₀ pos₀ k F lo pos) (Keeps N₀) := by
  have range := mid.range
  refine mid.peek (wp_get_bind (wp_ite (fun _ => mid.keeps) fun _ => wp_ite (fun _ => ?_) fun binds => ?_))
  · exact ⟨pos, a, b, kids, mid, left, range.2.1, range.2.2, nested⟩
  · have turns : Turns (p.tokAt pos).kind k k := binPrec_turns fun none => binds (.inr none)
    refine mid.advance rfl turns fun s₁ mid₁ => ?_
    refine mid₁.enter good (by omega) fun rhs s₂ pos₂ c d kids₂ mid₂ left₂ lt₂ right₂ nested₂ => ?_
    refine mid₂.node ⟨_, List.mem_cons_of_mem _ (List.mem_cons_self ..), Chain.has_self⟩ fun lhsNode lhsFits => ?_
    refine mid₂.node ⟨_, List.mem_cons_self .., Chain.has_self⟩ fun rhsNode rhsFits => ?_
    refine mid₂.newNode lhsFits.1 (rhsFits.2.mono (show a ≤ _ by omega)) (by omega) fun n s₃ mid₃ => ?_
    refine mid₃.touch (fun _ => ⟨⟨rfl, rfl⟩, rfl, rfl⟩) fun s₄ mid₄ => ?_
    refine (mid₄.perm (perm_front [_, _])).addChild (Nat.le_refl a) nested fun s₅ mid₅ => ?_
    refine mid₅.swap.addChild (by omega) nested₂ fun s₆ mid₆ => ?_
    refine ⟨mid₆.made (E := Keeps N₀) left ?_, by rw [mid₆.here]; omega⟩
    exact ⟨⟨Nat.le_refl a, by omega, by omega⟩, nested, ⟨by omega, lt₂, Nat.le_refl d⟩, nested₂, trivial⟩

theorem parseExpr_spec {minPrec : Nat} (mid : Mid p k₀ N₀ pos₀ s pos k F) (good : Good p enter g) (behind : g ≤ pos) :
    wp (p.parseExpr enter minPrec) s (Made p k₀ N₀ pos₀ k F pos) (Keeps N₀) := by
  refine wp_seq (parsePrefix_spec mid good behind) fun lhs s₁ made => ?_
  refine steps_spec made fun n s' pos' a b kids mid' left nested => ?_
  have forward := mid'.range
  exact parseBinaryStep_spec mid' left nested good (by omega)

end

end Parser

end HopHop
