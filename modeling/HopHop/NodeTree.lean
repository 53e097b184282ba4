import HopHop.Ast
import HopHop.NodeForest
import Mathlib.Data.List.Pairwise
import Mathlib.Logic.Relation

namespace HopHop

/-! The tree that a node table stands for. -/

namespace Ast

variable (ast : Ast)

/-- A link of the first node leads to the second. -/
def Link (i j : Int) : Prop :=
  ast.inTable i ∧ 0 ≤ j ∧ ((ast.node i).firstChild = j ∨ (ast.node i).nextSibling = j)

/-- The second node is the next sibling of the first. -/
def Next (i j : Int) : Prop := ast.inTable i ∧ 0 ≤ j ∧ (ast.node i).nextSibling = j

/-- A walk along the children of the first node meets the second. -/
def IsChild (i j : Int) : Prop :=
  ast.inTable i ∧ 0 ≤ (ast.node i).firstChild ∧ Relation.ReflTransGen ast.Next (ast.node i).firstChild j

/-- The table is a tree whose nodes have ranges in a source of the given length, inside those of their parents. -/
structure WellFormed (srcLen : Nat) : Prop where
  root : ast.inTable ast.root
  links : ∀ i j, ast.Link i j → ast.inTable j
  acyclic : ∀ i, ¬Relation.TransGen ast.Link i i
  rootless : ∀ i, ¬ast.IsChild i ast.root
  parent : ∀ j, Relation.ReflTransGen ast.Link ast.root j → j ≠ ast.root → ∃! i, ast.IsChild i j
  ranges : ∀ i, ast.inTable i → (ast.node i).start ≤ (ast.node i).stop ∧ (ast.node i).stop ≤ srcLen
  contained : ∀ i j, ast.IsChild i j →
    (ast.node i).start ≤ (ast.node j).start ∧ (ast.node j).stop ≤ (ast.node i).stop

end Ast

namespace Chain

/-- A place in the chain: a node with its range, its children and the siblings behind it. -/
def At : Chain → Nat → Nat → Nat → Chain → Chain → Prop
  | nil, _, _, _, _, _ => False
  | cons id' a' b' kids' rest', id, a, b, kids, rest =>
    cons id' a' b' kids' rest' = cons id a b kids rest ∨ kids'.At id a b kids rest ∨ rest'.At id a b kids rest

/-- The siblings of the chain. -/
def tops : Chain → List Nat
  | nil => []
  | cons id _ _ _ rest => id :: rest.tops

section

variable {c kids rest : Chain} {id a b i : Nat}

theorem tops_subset (c : Chain) : ∀ i ∈ c.tops, i ∈ c.ids := by
  induction c with
  | nil => simp [tops]
  | cons id a b kids rest _ ih =>
    intro i member
    rcases List.mem_cons.mp member with rfl | later
    · exact List.mem_cons_self ..
    · exact List.mem_cons_of_mem _ (List.mem_append_right _ (ih i later))

theorem exists_at (member : i ∈ c.ids) : ∃ a b kids rest, c.At i a b kids rest := by
  induction c with
  | nil => simp [ids] at member
  | cons id a b kids rest ihKids ihRest =>
    simp only [ids, List.mem_cons, List.mem_append] at member
    rcases member with rfl | inner | later
    · exact ⟨a, b, kids, rest, .inl rfl⟩
    · obtain ⟨a', b', kids', rest', place⟩ := ihKids inner
      exact ⟨a', b', kids', rest', .inr (.inl place)⟩
    · obtain ⟨a', b', kids', rest', place⟩ := ihRest later
      exact ⟨a', b', kids', rest', .inr (.inr place)⟩

/-- A place stands in the list of indices with everything it leads to behind it. -/
theorem At.ids_eq (place : c.At id a b kids rest) :
    ∃ before behind, c.ids = before ++ id :: (kids.ids ++ rest.ids ++ behind) := by
  induction c with
  | nil => exact place.elim
  | cons id' a' b' kids' rest' ihKids ihRest =>
    rcases place with same | inner | later
    · cases same
      exact ⟨[], [], by simp [ids]⟩
    · obtain ⟨before, behind, split⟩ := ihKids inner
      exact ⟨id' :: before, behind ++ rest'.ids, by simp [ids, split]⟩
    · obtain ⟨before, behind, split⟩ := ihRest later
      exact ⟨id' :: (kids'.ids ++ before), behind, by simp [ids, split]⟩

theorem At.mem (place : c.At id a b kids rest) : id ∈ c.ids := by
  obtain ⟨before, behind, split⟩ := place.ids_eq
  simp [split]

theorem At.kids_mem (place : c.At id a b kids rest) (member : i ∈ kids.ids) : i ∈ c.ids := by
  obtain ⟨before, behind, split⟩ := place.ids_eq
  simp [split, member]

/-- What hangs below a node is not among its siblings. -/
theorem At.kids_not_top (place : c.At id a b kids rest) (distinct : c.ids.Nodup) (member : i ∈ kids.ids) :
    i ∉ c.tops := by
  induction c with
  | nil => exact place.elim
  | cons id' a' b' kids' rest' ihKids ihRest =>
    simp only [ids, List.nodup_cons, List.nodup_append, List.mem_append, not_or] at distinct
    obtain ⟨⟨notKid, notRest⟩, inKids, inRest, apart⟩ := distinct
    have below {j : Nat} (inside : j ∈ kids'.ids) : j ∉ (cons id' a' b' kids' rest').tops := by
      intro top
      rcases List.mem_cons.mp top with rfl | later
      · exact notKid inside
      · exact apart j inside j (rest'.tops_subset j later) rfl
    rcases place with same | inner | later
    · cases same
      exact below member
    · exact below (inner.kids_mem member)
    · intro top
      rcases List.mem_cons.mp top with rfl | behind
      · exact notRest (later.kids_mem member)
      · exact ihRest later inRest behind

/-- No two places have a child in common. -/
theorem At.parent_unique {id' a' b' : Nat} {kids' rest' : Chain} (place : c.At id a b kids rest)
    (place' : c.At id' a' b' kids' rest') (distinct : c.ids.Nodup) (child : i ∈ kids.tops) (child' : i ∈ kids'.tops) :
    id = id' := by
  induction c with
  | nil => exact place.elim
  | cons x xa xb xkids xrest ihKids ihRest =>
    simp only [ids, List.nodup_cons, List.nodup_append] at distinct
    obtain ⟨_, inKids, inRest, apart⟩ := distinct
    have member := kids.tops_subset i child
    have member' := kids'.tops_subset i child'
    rcases place with same | inner | later <;> rcases place' with same' | inner' | later'
    · cases same
      cases same'
      rfl
    · cases same
      exact absurd child (inner'.kids_not_top inKids member')
    · cases same
      exact absurd rfl (apart i member i (later'.kids_mem member'))
    · cases same'
      exact absurd child' (inner.kids_not_top inKids member)
    · exact ihKids inner inner' inKids
    · exact absurd rfl (apart i (inner.kids_mem member) i (later'.kids_mem member'))
    · cases same'
      exact absurd rfl (apart i member' i (later.kids_mem member))
    · exact absurd rfl (apart i (inner'.kids_mem member') i (later.kids_mem member))
    · exact ihRest later later' inRest

/-- A node of the chain that is none of its siblings is a child of a node of the chain. -/
theorem has_parent (member : i ∈ c.ids) : i ∈ c.tops ∨ ∃ id a b kids rest, c.At id a b kids rest ∧ i ∈ kids.tops := by
  induction c with
  | nil => simp [ids] at member
  | cons id a b kids rest ihKids ihRest =>
    simp only [ids, List.mem_cons, List.mem_append] at member
    rcases member with rfl | inner | later
    · exact .inl (List.mem_cons_self ..)
    · rcases ihKids inner with top | ⟨id', a', b', kids', rest', place, child⟩
      · exact .inr ⟨id, a, b, kids, rest, .inl rfl, top⟩
      · exact .inr ⟨id', a', b', kids', rest', .inr (.inl place), child⟩
    · rcases ihRest later with top | ⟨id', a', b', kids', rest', place, child⟩
      · exact .inl (List.mem_cons_of_mem _ top)
      · exact .inr ⟨id', a', b', kids', rest', .inr (.inr place), child⟩

theorem At.nested {lo hi : Nat} (place : c.At id a b kids rest) (nested : c.Nested lo hi) :
    (lo ≤ a ∧ a < b ∧ b ≤ hi) ∧ kids.Nested a b := by
  induction c generalizing lo hi with
  | nil => exact place.elim
  | cons id' a' b' kids' rest' ihKids ihRest =>
    obtain ⟨range, inner, later⟩ := nested
    rcases place with same | below | behind
    · cases same
      exact ⟨range, inner⟩
    · obtain ⟨deeper, nested⟩ := ihKids below inner
      exact ⟨by omega, nested⟩
    · exact ihRest behind later

end

end Chain

section

variable {fits : Nat → Nat → AstNode → Prop} {ast : Ast} {c kids rest : Chain} {id a b : Nat} {i j : Int}

theorem Holds.of_at {N : List AstNode} (holds : Holds fits N c) (place : c.At id a b kids rest) :
    Holds fits N (.cons id a b kids rest) := by
  induction c with
  | nil => exact place.elim
  | cons id' a' b' kids' rest' ihKids ihRest =>
    rcases place with same | inner | later
    · cases same
      exact holds
    · exact ihKids holds.2.1 inner
    · exact ihRest holds.2.2 later

/-- What the table says of a place in a chain that it holds. -/
theorem Holds.node (holds : Holds fits ast.nodes (.cons id a b kids rest)) :
    ast.inTable id ∧ fits a b (ast.node id) ∧ (ast.node id).firstChild = kids.head ∧
      (ast.node id).nextSibling = rest.head := by
  obtain ⟨⟨n, here, facts, first, next⟩, _, _⟩ := holds
  have there : ast.node id = n := by simp [Ast.node, List.getD_eq_getElem?_getD, here]
  have inside : id < ast.nodes.length := (List.getElem?_eq_some_iff.mp here).1
  exact ⟨⟨by omega, by simpa [Ast.len] using inside⟩, by rw [there]; exact facts, by rw [there, first], by rw [there, next]⟩

theorem Chain.head_mem {c : Chain} (nonneg : 0 ≤ j) (head : c.head = j) : ∃ m ∈ c.tops, j = (m : Nat) := by
  cases c with
  | nil => simp only [Chain.head] at head; omega
  | cons id a b kids rest => exact ⟨id, List.mem_cons_self .., head.symm⟩

theorem Holds.next_top (holds : Holds fits ast.nodes c) {m : Nat} (top : m ∈ c.tops) (next : ast.Next m j) :
    ∃ m' ∈ c.tops, j = (m' : Nat) := by
  induction c with
  | nil => simp [Chain.tops] at top
  | cons id a b kids rest _ ih =>
    rcases List.mem_cons.mp top with rfl | later
    · obtain ⟨_, nonneg, leads⟩ := next
      rw [holds.node.2.2.2] at leads
      obtain ⟨m', member, same⟩ := Chain.head_mem nonneg leads
      exact ⟨m', List.mem_cons_of_mem _ member, same⟩
    · obtain ⟨m', member, same⟩ := ih holds.2.2 later
      exact ⟨m', List.mem_cons_of_mem _ member, same⟩

/-- A walk along siblings stays in their chain. -/
theorem Holds.walk_top (holds : Holds fits ast.nodes c) {m : Nat} (top : m ∈ c.tops)
    (walk : Relation.ReflTransGen ast.Next m j) : ∃ m' ∈ c.tops, j = (m' : Nat) := by
  induction walk with
  | refl => exact ⟨m, top, rfl⟩
  | tail _ next ih =>
    obtain ⟨m', member, rfl⟩ := ih
    exact holds.next_top member next

theorem Holds.walk_of_top (holds : Holds fits ast.nodes c) {m : Nat} (top : m ∈ c.tops) :
    0 ≤ c.head ∧ Relation.ReflTransGen ast.Next c.head m := by
  induction c with
  | nil => simp [Chain.tops] at top
  | cons id a b kids rest _ ih =>
    refine ⟨Int.natCast_nonneg id, ?_⟩
    rcases List.mem_cons.mp top with rfl | later
    · exact .refl
    · obtain ⟨nonneg, walk⟩ := ih holds.2.2 later
      obtain ⟨inside, _, _, next⟩ := holds.node
      have first : ast.Next id rest.head := ⟨inside, nonneg, next⟩
      exact walk.head first

/-- The children of a place are the siblings of its chain of children. -/
theorem Holds.isChild_iff (holds : Holds fits ast.nodes (.cons id a b kids rest)) :
    ast.IsChild id j ↔ ∃ m ∈ kids.tops, j = (m : Nat) := by
  obtain ⟨inside, _, first, _⟩ := holds.node
  constructor
  · rintro ⟨_, nonneg, walk⟩
    rw [first] at nonneg walk
    obtain ⟨m, top, same⟩ := Chain.head_mem nonneg rfl
    rw [same] at walk
    exact holds.2.1.walk_top top walk
  · rintro ⟨m, top, rfl⟩
    obtain ⟨nonneg, walk⟩ := holds.2.1.walk_of_top top
    exact ⟨inside, first ▸ nonneg, first ▸ walk⟩

end

/-- In a list without repetitions an entry comes before those that are listed behind it. -/
theorem idxOf_lt {L before behind : List Nat} {i j : Nat} (split : L = before ++ i :: behind) (distinct : L.Nodup)
    (member : j ∈ behind) : L.idxOf i < L.idxOf j := by
  subst split
  rw [List.nodup_append, List.nodup_cons] at distinct
  obtain ⟨_, ⟨notBehind, _⟩, apart⟩ := distinct
  have notBefore : i ∉ before := fun early => apart i early i (List.mem_cons_self ..) rfl
  have notBefore' : j ∉ before := fun early => apart j early j (List.mem_cons_of_mem _ member) rfl
  have differs : i ≠ j := fun same => notBehind (same ▸ member)
  rw [List.idxOf_append_of_notMem notBefore, List.idxOf_append_of_notMem notBefore', List.idxOf_cons_self,
    List.idxOf_cons_ne _ differs]
  omega

section

variable {fits : Nat → Nat → AstNode → Prop} {ast : Ast} {F : List Chain} {i j : Int}

/-- Every node of a table that is split into chains has a place in one of them. -/
theorem Split.place (split : Split fits [] ast.nodes F) (inside : ast.inTable i) :
    ∃ c ∈ F, ∃ a b kids rest, c.At i.toNat a b kids rest ∧ Holds fits ast.nodes (.cons i.toNat a b kids rest) ∧
      (i.toNat : Int) = i := by
  have covered := split.covers i.toNat (Nat.zero_le _) inside.2
  obtain ⟨c, member, among⟩ := List.mem_flatMap.mp covered
  obtain ⟨a, b, kids, rest, place⟩ := Chain.exists_at among
  exact ⟨c, member, a, b, kids, rest, place, (split.holds c member).of_at place, Int.toNat_of_nonneg inside.1⟩

/-- Links lead onward in the order of the chains. -/
theorem Split.link_forward (split : Split fits [] ast.nodes F) (link : ast.Link i j) :
    ast.inTable j ∧ (F.flatMap Chain.ids).idxOf i.toNat < (F.flatMap Chain.ids).idxOf j.toNat := by
  obtain ⟨inside, nonneg, leads⟩ := link
  obtain ⟨c, member, a, b, kids, rest, place, holds, same⟩ := split.place inside
  obtain ⟨_, _, first, next⟩ := holds.node
  rw [same] at first next
  obtain ⟨before, behind, ids⟩ := place.ids_eq
  have target : j.toNat ∈ kids.ids ++ rest.ids := by
    rcases leads with child | sibling
    · obtain ⟨m, top, rfl⟩ := Chain.head_mem nonneg (first.symm.trans child)
      exact List.mem_append_left _ (kids.tops_subset m top)
    · obtain ⟨m, top, rfl⟩ := Chain.head_mem nonneg (next.symm.trans sibling)
      exact List.mem_append_right _ (rest.tops_subset m top)
  obtain ⟨F₁, F₂, rfl⟩ := List.append_of_mem member
  have all : (F₁ ++ c :: F₂).flatMap Chain.ids =
      (F₁.flatMap Chain.ids ++ before) ++ i.toNat :: (kids.ids ++ rest.ids ++ (behind ++ F₂.flatMap Chain.ids)) := by
    simp [List.flatMap_append, ids]
  have among : j.toNat ∈ (F₁ ++ c :: F₂).flatMap Chain.ids := by
    rw [all]
    exact List.mem_append_right _ (List.mem_cons_of_mem _ (List.mem_append_left _ target))
  have small := split.lt_length j.toNat among
  exact ⟨⟨nonneg, small⟩, idxOf_lt all split.distinct (List.mem_append_left _ target)⟩

theorem Split.acyclic (split : Split fits [] ast.nodes F) : ¬Relation.TransGen ast.Link i i := by
  have forward {i j : Int} (path : Relation.TransGen ast.Link i j) :
      (F.flatMap Chain.ids).idxOf i.toNat < (F.flatMap Chain.ids).idxOf j.toNat := by
    induction path with
    | single link => exact (split.link_forward link).2
    | tail _ link ih => exact Nat.lt_trans ih (split.link_forward link).2
  exact fun cycle => Nat.lt_irrefl _ (forward cycle)

/-- Chains that share a node are the same. -/
theorem Split.same_chain (split : Split fits [] ast.nodes F) {c d : Chain} (memC : c ∈ F) (memD : d ∈ F) {m : Nat}
    (inC : m ∈ c.ids) (inD : m ∈ d.ids) : c = d := by
  by_contra differs
  have apart := (List.nodup_flatMap.mp split.distinct).2
  have : Std.Symm (Function.onFun List.Disjoint (Chain.ids (α := Nat))) := ⟨fun _ _ disjoint _ left right => disjoint right left⟩
  exact apart.forall memC memD differs inC inD

/-- The place of a node, when another node leads to it as a child. -/
theorem Split.child_place (split : Split fits [] ast.nodes F) (child : ast.IsChild i j) :
    ∃ c ∈ F, ∃ a b kids rest, c.At i.toNat a b kids rest ∧ fits a b (ast.node i) ∧ (i.toNat : Int) = i ∧
      ∃ m ∈ kids.tops, j = (m : Nat) := by
  obtain ⟨c, member, a, b, kids, rest, place, holds, same⟩ := split.place child.1
  have facts := holds.node.2.1
  rw [same] at facts
  refine ⟨c, member, a, b, kids, rest, place, facts, same, ?_⟩
  rw [← same] at child
  exact holds.isChild_iff.mp child

theorem Split.child_unique (split : Split fits [] ast.nodes F) {i' : Int} (child : ast.IsChild i j)
    (child' : ast.IsChild i' j) : i = i' := by
  obtain ⟨c, member, a, b, kids, rest, place, _, same, m, top, rfl⟩ := split.child_place child
  obtain ⟨d, member', a', b', kids', rest', place', _, same', m', top', equal⟩ := split.child_place child'
  obtain rfl : m = m' := by omega
  have inC := place.kids_mem (kids.tops_subset m top)
  have inD := place'.kids_mem (kids'.tops_subset m top')
  obtain rfl := split.same_chain member member' inC inD
  have distinct := (List.nodup_flatMap.mp split.distinct).1 c member
  have equal := place.parent_unique place' distinct top top'
  omega

/-- Links from a node of a chain stay in the chain. -/
theorem Holds.reach_mem {c : Chain} (holds : Holds fits ast.nodes c) {m : Nat} (member : m ∈ c.ids)
    (reach : Relation.ReflTransGen ast.Link m j) : ∃ m' ∈ c.ids, j = (m' : Nat) := by
  induction reach with
  | refl => exact ⟨m, member, rfl⟩
  | tail _ link ih =>
    obtain ⟨i, among, rfl⟩ := ih
    obtain ⟨_, nonneg, leads⟩ := link
    obtain ⟨a, b, kids, rest, place⟩ := Chain.exists_at among
    obtain ⟨_, _, first, next⟩ := (holds.of_at place).node
    obtain ⟨before, behind, ids⟩ := place.ids_eq
    rcases leads with child | sibling
    · obtain ⟨m', top, same⟩ := Chain.head_mem nonneg (first.symm.trans child)
      exact ⟨m', place.kids_mem (kids.tops_subset m' top), same⟩
    · obtain ⟨m', top, same⟩ := Chain.head_mem nonneg (next.symm.trans sibling)
      exact ⟨m', by simp [ids, rest.tops_subset m' top], same⟩

variable {room srcLen r y : Nat} {kids : Chain} {dropped : List Chain}

/-- A place in the root's tree or in a dropped one: it is the root, or it stands with all below it in the given room. -/
theorem place_bound {c below rest : Chain} {id a b : Nat} (inner : kids.Nested 0 room)
    (done : ∀ c ∈ dropped, c.Nested 0 room) (some : 0 < y) (member : c ∈ Chain.cons r 0 y kids .nil :: dropped)
    (place : c.At id a b below rest) : a < b ∧ (b ≤ room ∨ a = 0 ∧ b = y) ∧ ∃ hi, hi ≤ room ∧ below.Nested a hi ∧
      (hi ≤ b ∨ a = 0 ∧ b = y) := by
  rcases List.mem_cons.mp member with rfl | old
  · rcases place with same | deeper | none
    · cases same
      exact ⟨some, .inr ⟨rfl, rfl⟩, room, Nat.le_refl room, inner, .inr ⟨rfl, rfl⟩⟩
    · obtain ⟨⟨_, lt, le⟩, nested⟩ := deeper.nested inner
      exact ⟨lt, .inl le, b, le, nested, .inl (Nat.le_refl b)⟩
    · exact none.elim
  · obtain ⟨⟨_, lt, le⟩, nested⟩ := place.nested (done c old)
    exact ⟨lt, .inl le, b, le, nested, .inl (Nat.le_refl b)⟩

/-- A table that is split into one tree and dropped ones, all with their children inside their parents, is well formed. -/
theorem Split.wellFormed (split : Split fits [] ast.nodes (.cons r 0 y kids .nil :: dropped)) (root : ast.root = r)
    (inner : kids.Nested 0 room) (done : ∀ c ∈ dropped, c.Nested 0 room) (some : 0 < y)
    (ranges : ∀ a b n, a < b → (b ≤ room ∨ a = 0 ∧ b = y) → fits a b n → n.start ≤ n.stop ∧ n.stop ≤ srcLen)
    (inside : ∀ a b a' b' n n', a ≤ a' → a' < b' → b' ≤ room → (b' ≤ b ∨ a = 0 ∧ b = y) → (b ≤ room ∨ a = 0 ∧ b = y) →
      fits a b n → fits a' b' n' → n.start ≤ n'.start ∧ n'.stop ≤ n.stop) : ast.WellFormed srcLen := by
  have atRoot : Holds fits ast.nodes (.cons r 0 y kids .nil) := split.head
  have rootChain : Chain.cons r 0 y kids .nil ∈ Chain.cons r 0 y kids .nil :: dropped := List.mem_cons_self ..
  have distinct := (List.nodup_flatMap.mp split.distinct).1 _ rootChain
  constructor
  · rw [root]
    exact atRoot.node.1
  · exact fun i j link => (split.link_forward link).1
  · exact fun i => split.acyclic
  · intro i child
    obtain ⟨c, member, a, b, below, rest, place, _, same, m, top, equal⟩ := split.child_place child
    obtain rfl : m = r := by omega
    have inside := below.tops_subset m top
    obtain rfl := split.same_chain member rootChain (place.kids_mem inside) (by simp [Chain.ids])
    exact place.kids_not_top distinct inside (List.mem_cons_self ..)
  · intro j reach differs
    rw [root] at reach differs
    obtain ⟨m, member, rfl⟩ := atRoot.reach_mem (by simp [Chain.ids]) reach
    rcases Chain.has_parent member with top | ⟨id, a, b, below, rest, place, child⟩
    · exact absurd (congrArg Nat.cast (List.mem_singleton.mp top)) differs
    · have isChild : ast.IsChild id m := (atRoot.of_at place).isChild_iff.mpr ⟨m, child, rfl⟩
      exact ⟨id, isChild, fun i' child' => split.child_unique child' isChild⟩
  · intro i there
    obtain ⟨c, member, a, b, below, rest, place, holds, same⟩ := split.place there
    obtain ⟨lt, le, _⟩ := place_bound inner done some member place
    have facts := holds.node.2.1
    rw [same] at facts
    exact ranges a b _ lt le facts
  · intro i j child
    obtain ⟨c, member, a, b, below, rest, place, facts, same, m, top, rfl⟩ := split.child_place child
    obtain ⟨_, le, hi, small, deeper, bound⟩ := place_bound inner done some member place
    obtain ⟨a', b', kids', rest', place'⟩ := Chain.exists_at (below.tops_subset m top)
    obtain ⟨⟨left, lt, right⟩, _⟩ := place'.nested deeper
    have holds := ((split.holds c member).of_at place).2.1.of_at place'
    exact inside a b a' b' _ _ left lt (by omega) (by omega) le facts holds.node.2.1

end

end HopHop
