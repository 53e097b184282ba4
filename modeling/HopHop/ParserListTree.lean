import HopHop.ParserExprTree

namespace HopHop

open Prog

namespace Parser

section

variable {p : Parser} {enter : Enter} {k₀ k pos₀ pos g : Nat} {N₀ : List AstNode} {s : ParseState} {F : List Chain}
  {E : ParseState → Prop}

/-- The place of a chain's first token. -/
def Chain.left : Chain → Nat
  | .nil => 0
  | .cons _ a .. => a

/-- The place behind the last token of a chain's first node. -/
def Chain.right : Chain → Nat
  | .nil => 0
  | .cons _ _ b .. => b

/-- Trees one behind the other. -/
def Sorted (cs : List Chain) : Prop := cs.Pairwise fun c d => Chain.right c ≤ Chain.left d

/-- The items of a list, one behind the other, at a place from `later` on. -/
def Rising (p : Parser) (k₀ : Nat) (N₀ : List AstNode) (pos₀ k : Nat) (F : List Chain) (lo later : Nat)
    (items : List Nat) (s : ParseState) : Prop :=
  ∃ pos cs, Mid p k₀ N₀ pos₀ s pos k (cs ++ F) ∧ RowIn lo pos items cs ∧ Sorted cs ∧ items ≠ [] ∧ later ≤ pos

theorem Rising.one {lo later n a b : Nat} {kids : Chain} (mid : Mid p k₀ N₀ pos₀ s pos k (.cons n a b kids .nil :: F))
    (left : lo ≤ a) (nested : kids.Nested a b) (forward : later ≤ pos) : Rising p k₀ N₀ pos₀ k F lo later [n] s :=
  ⟨pos, [.cons n a b kids .nil], mid, .cons ⟨a, b, kids, rfl, left, mid.range.2.1, mid.range.2.2, nested⟩ .nil,
    List.pairwise_singleton _ _, by simp, forward⟩

theorem Rising.inside {lo later : Nat} {items : List Nat} (rising : Rising p k₀ N₀ pos₀ k F lo later items s) :
    s.pos < p.tokLen := by
  obtain ⟨pos, cs, mid, _⟩ := rising
  exact mid.here ▸ mid.inside

theorem Rising.comma {lo later : Nat} {items : List Nat} (rising : Rising p k₀ N₀ pos₀ k F lo later items s)
    (comma : (p.tokAt s.pos).kind = .COMMA) : Rising p k₀ N₀ pos₀ k F lo later items { s with pos := s.pos + 1 } := by
  obtain ⟨pos, cs, mid, row, sorted, nonempty, forward⟩ := rising
  rw [mid.here] at comma
  exact ⟨pos + 1, cs, mid.step comma turns_comma, row.mono (Nat.le_succ pos), sorted, nonempty, by omega⟩

theorem RowIn.right_le {lo hi : Nat} {items : List Nat} {cs : List Chain} (row : RowIn lo hi items cs) :
    ∀ c ∈ cs, Chain.right c ≤ hi := by
  induction row with
  | nil => simp
  | cons item _ ih =>
    obtain ⟨a, b, kids, rfl, _, _, right, _⟩ := item
    intro c member
    rcases List.mem_cons.mp member with rfl | later
    · exact right
    · exact ih c later

/-- One more item behind the others. -/
theorem risingItem_spec {production : Production} [Fact production.Anywhere] {items : List Nat} {lo later : Nat} (good : Good p enter g)
    (behind : g < later) (le : lo ≤ later)
    (rising : Rising p k₀ N₀ pos₀ k F lo later items s) :
    wp (p.pushItem (enter production) items) s
      (fun items' s' => Rising p k₀ N₀ pos₀ k F lo later items' s' ∧ s.pos ≤ s'.pos) (Keeps N₀) := by
  obtain ⟨pos, cs, mid, row, sorted, _, forward⟩ := rising
  have here := mid.here
  refine wp_ite (fun _ => mid.failWith) fun _ => ?_
  refine mid.enter good (by omega) (fun n s₁ pos₁ a b kids mid₁ left lt right nested => ?_)
  have there := mid₁.here
  have same : (.cons n a b kids .nil :: (cs ++ F)).Perm ((cs ++ [.cons n a b kids .nil]) ++ F) := by
    rw [List.append_assoc]
    exact (perm_front cs).symm
  have wider : RowIn lo pos₁ items cs := row.mono (by omega)
  refine ⟨⟨pos₁, _, mid₁.perm same,
    List.rel_append wider (.cons ⟨a, b, kids, rfl, by omega, lt, right, nested⟩ .nil), ?_, by simp, by omega⟩, by omega⟩
  refine List.pairwise_append.mpr ⟨sorted, List.pairwise_singleton _ _, fun c member d last => ?_⟩
  rw [List.mem_singleton.mp last]
  exact Nat.le_trans (row.right_le c member) left

theorem whileCommaRising_spec {production : Production} [Fact production.Anywhere] {items : List Nat} {lo later : Nat} (good : Good p enter g)
    (behind : g < later) (le : lo ≤ later) (rising : Rising p k₀ N₀ pos₀ k F lo later items s) :
    wp (p.whileComma (p.pushItem (enter production)) items) s (Rising p k₀ N₀ pos₀ k F lo later) (Keeps N₀) :=
  wp_whileComma rising (fun _ _ => Rising.inside) (fun _ _ => Rising.comma)
    fun _ _ => risingItem_spec good behind le

theorem commaRising_spec {production : Production} [Fact production.Anywhere] {items : List Nat} {lo later : Nat} (good : Good p enter g)
    (behind : g < later) (le : lo ≤ later) (rising : Rising p k₀ N₀ pos₀ k F lo later items s) :
    wp (p.commaLoop (p.pushItem (enter production)) items) s (Rising p k₀ N₀ pos₀ k F lo later) (Keeps N₀) :=
  wp_commaLoop rising (fun _ _ => Rising.inside) (fun _ _ => Rising.comma)
    fun _ _ => risingItem_spec good behind le

/-- Trees inside a range become the children of a node. -/
theorem addChildrenIn_spec {n a b hi : Nat} {kids : Chain} {items : List Nat} {cs : List Chain} (row : RowIn a hi items cs)
    (mid : Mid p k₀ N₀ pos₀ s pos k (cs ++ .cons n a b kids .nil :: F)) (nested : kids.Nested a hi) :
    wp (p.addChildren n items) s (fun _ s' => ∃ kids, Mid p k₀ N₀ pos₀ s' pos k (.cons n a b kids .nil :: F) ∧
      kids.Nested a hi) E := by
  induction row generalizing s kids with
  | nil => exact ⟨kids, mid, nested⟩
  | cons item row ih =>
    obtain ⟨c, d, kids', rfl, left, lt, right, nested'⟩ := item
    refine (mid.perm (List.perm_middle.cons _)).addChild left nested' fun s₁ mid₁ => ?_
    exact ih (mid₁.perm List.perm_middle.symm) (nested.append ⟨⟨left, lt, right⟩, nested', trivial⟩)

theorem RowIn.lower {lo lo' hi : Nat} {items : List Nat} {cs : List Chain} (row : RowIn lo hi items cs)
    (le : lo' ≤ lo) : RowIn lo' hi items cs :=
  List.Forall₂.imp (fun _ _ ⟨a, b, kids, same, left, rest⟩ => ⟨a, b, kids, same, Nat.le_trans le left, rest⟩) row

/-- A sorted row lies between the start of its first and the end of its last tree. -/
theorem RowIn.narrow {lo hi : Nat} {items : List Nat} {cs : List Chain} (row : RowIn lo hi items cs) (sorted : Sorted cs)
    (nonempty : items ≠ []) : ∃ first last a b c d kids kids', items.head? = some first ∧ items.getLast? = some last ∧
      .cons first a b kids .nil ∈ cs ∧ .cons last c d kids' .nil ∈ cs ∧ lo ≤ a ∧ a ≤ c ∧ d ≤ hi ∧ a < d ∧
      RowIn a d items cs := by
  induction row with
  | nil => exact absurd rfl nonempty
  | @cons first chain items cs item rest ih =>
    obtain ⟨a, b, kids, rfl, left, lt, right, nested⟩ := item
    obtain ⟨ordered, sortedRest⟩ := List.pairwise_cons.mp sorted
    rcases List.eq_nil_or_concat items with rfl | ⟨_, _, more⟩
    · cases rest
      exact ⟨first, first, a, b, a, b, kids, kids, rfl, rfl, List.mem_cons_self .., List.mem_cons_self .., left,
        Nat.le_refl a, right, lt, .cons ⟨a, b, kids, rfl, Nat.le_refl a, lt, Nat.le_refl b, nested⟩ .nil⟩
    · have nonemptyRest : items ≠ [] := by simp [more]
      obtain ⟨second, last, a', b', c, d, kids', kids'', _, atEnd, memSecond, memLast, _, order, right', lt', row'⟩ :=
        ih sortedRest nonemptyRest
      have before : b ≤ a' := ordered _ memSecond
      refine ⟨first, last, a, b, c, d, kids, kids'', rfl, ?_, List.mem_cons_self .., List.mem_cons_of_mem _ memLast, left,
        by omega, right', by omega, .cons ⟨a, b, kids, rfl, Nat.le_refl a, lt, by omega, nested⟩ (row'.lower (by omega))⟩
      rw [List.getLast?_cons, atEnd, Option.getD_some]

/-- A node around a list of trees. -/
theorem buildListNode_mid {kind : AstKind} {lo hi : Nat} {items : List Nat} {cs : List Chain} {β : Type}
    {f : Nat → Parse β} {Q : β → ParseState → Prop} (mid : Mid p k₀ N₀ pos₀ s pos k (cs ++ F))
    (row : RowIn lo hi items cs) (sorted : Sorted cs) (nonempty : items ≠ []) (after : pos₀ ≤ lo) (inside : hi ≤ pos)
    (next : ∀ n s' a b kids, Mid p k₀ N₀ pos₀ s' pos k (.cons n a b kids .nil :: F) → lo ≤ a → a < b → b ≤ hi →
      kids.Nested a b → wp (f n) s' Q (Keeps N₀)) :
    wp (p.buildListNode kind items >>= f) s Q (Keeps N₀) := by
  obtain ⟨first, last, a, b, c, d, kids, kids', atStart, atEnd, memFirst, memLast, left, order, right, lt, row'⟩ :=
    row.narrow sorted nonempty
  rw [wp_bind]
  unfold buildListNode
  simp only [atStart, atEnd]
  refine mid.node ⟨_, List.mem_append_left F memFirst, Chain.has_self⟩ fun firstNode firstFits => ?_
  refine mid.node ⟨_, List.mem_append_left F memLast, Chain.has_self⟩ fun lastNode lastFits => ?_
  refine mid.newNode firstFits.1 (lastFits.2.mono order) (by omega) fun n s₁ mid₁ => ?_
  refine wp_seq (addChildrenIn_spec row' (mid₁.perm List.perm_middle.symm) trivial) ?_
  rintro _ s₂ ⟨kids₂, mid₂, nested⟩
  exact next n s₂ a d kids₂ mid₂ left lt right nested

theorem parseExprList_spec (mid : Mid p k₀ N₀ pos₀ s pos k F) (good : Good p enter g) (behind : g < pos) :
    wp (p.parseExprList enter) s (Made p k₀ N₀ pos₀ k F pos) (Keeps N₀) := by
  have after := mid.after
  refine mid.enter good behind fun first s₁ pos₁ a b kids mid₁ left lt right nested => ?_
  have rising : Rising p k₀ N₀ pos₀ k F pos pos [first] s₁ := .one mid₁ left nested (by omega)
  refine wp_seq (whileCommaRising_spec good behind (Nat.le_refl pos) rising) ?_
  rintro items s₂ ⟨pos₂, cs, mid₂, row, sorted, nonempty, later⟩
  refine wp_bind_pure.mp (buildListNode_mid mid₂ row sorted nonempty after (Nat.le_refl pos₂) ?_)
  exact fun n s₃ c d kids₃ mid₃ left₃ _ _ nested₃ => mid₃.made left₃ nested₃

theorem parseDeclNameList_spec {allowHole : Bool} (mid : Mid p k₀ N₀ pos₀ s pos k F) :
    wp (p.parseDeclNameList allowHole) s (Named p k₀ N₀ pos₀ k F pos) (Keeps N₀) := by
  refine names_spec mid fun names s' pos' mid' => wp_ite (fun _ => mid'.failWith) fun _ => ?_
  refine mid'.ifAt (fun _ => ?_) fun _ => mid'.failWith
  exact mid'.expectDeclName fun s'' mid'' _ => ⟨mid'', rfl⟩

/-- A leaf for each name of a list. -/
theorem newNameNodes_spec {lo hi : Nat} {places : List Nat} (bounds : ∀ i ∈ places, lo ≤ i ∧ i < hi)
    (sorted : places.Pairwise (· < ·)) (after : pos₀ ≤ lo) (inside : hi ≤ pos) :
    ∀ {s : ParseState} {F : List Chain}, Mid p k₀ N₀ pos₀ s pos k F →
      wp (p.newNameNodes (places.map p.tokAt)) s
        (fun items s' => ∃ cs, Mid p k₀ N₀ pos₀ s' pos k (cs ++ F) ∧ RowIn lo hi items cs ∧ Sorted cs ∧
          cs.map Chain.left = places) (Keeps N₀) := by
  induction places with
  | nil => exact fun mid => ⟨[], mid, .nil, .nil, rfl⟩
  | cons i places ih =>
    intro s F mid
    obtain ⟨smaller, sortedRest⟩ := List.pairwise_cons.mp sorted
    have bound := bounds i (List.mem_cons_self ..)
    refine newLeaf_mid mid (by omega) fun n s₁ mid₁ => ?_
    refine wp_seq (ih (fun j member => bounds j (List.mem_cons_of_mem _ member)) sortedRest mid₁) ?_
    rintro items s₂ ⟨cs, mid₂, row, sorted₂, lefts⟩
    refine ⟨.cons n i (i + 1) .nil .nil :: cs, mid₂.perm List.perm_middle,
      .cons ⟨i, i + 1, .nil, rfl, bound.1, Nat.lt_succ_self i, bound.2, trivial⟩ row,
      List.pairwise_cons.mpr ⟨fun c member => ?_, sorted₂⟩, by simp [lefts, Chain.left]⟩
    have among : Chain.left c ∈ places := lefts ▸ List.mem_map_of_mem member
    exact smaller _ among

theorem buildNameListNode_mid {lo hi : Nat} {names : List Token} {β : Type} {f : Nat → Parse β}
    {Q : β → ParseState → Prop} (mid : Mid p k₀ N₀ pos₀ s pos k F) (among : NamesIn p lo hi names) (nonempty : names ≠ [])
    (after : pos₀ ≤ lo) (inside : hi ≤ pos)
    (next : ∀ n s' a b kids, Mid p k₀ N₀ pos₀ s' pos k (.cons n a b kids .nil :: F) → lo ≤ a → a < b → b ≤ hi →
      kids.Nested a b → wp (f n) s' Q (Keeps N₀)) :
    wp (p.buildNameListNode names >>= f) s Q (Keeps N₀) := by
  obtain ⟨places, rfl, sorted, bounds⟩ := among
  rw [wp_bind]
  refine wp_seq (newNameNodes_spec bounds sorted after inside mid) ?_
  rintro items s₁ ⟨cs, mid₁, row, sorted', _⟩
  have nonemptyItems : items ≠ [] := by
    rintro rfl
    cases row
    simp_all
  exact wp_bind.mp (buildListNode_mid mid₁ row sorted' nonemptyItems after inside next)

end

end Parser

end HopHop
