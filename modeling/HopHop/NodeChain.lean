import HopHop.Parser
import Mathlib.Data.List.Perm.Subperm

namespace HopHop

/-! Trees in the node table. A chain is what hangs on a link: a node, the chain of its children and the chain of the
siblings after it. -/

/-- A chain of sibling nodes, each with its index, two marks and its children. The marks are the places of the node's
first token and behind its last one, unless something else is said about them. -/
inductive Chain (α : Type := Nat)
  | nil
  | cons (id : Nat) (first last : α) (kids rest : Chain α)

namespace Chain

variable {α : Type}

/-- The link that leads to the chain. -/
def head : Chain α → Int
  | nil => -1
  | cons id .. => id

def append : Chain α → Chain α → Chain α
  | nil, c => c
  | cons id a b kids rest, c => cons id a b kids (rest.append c)

/-- The indices of all nodes of the chain. -/
def ids : Chain α → List Nat
  | nil => []
  | cons id _ _ kids rest => id :: (kids.ids ++ rest.ids)

def isNil : Chain α → Bool
  | nil => true
  | cons .. => false

/-- The number of siblings of the chain. -/
def count : Chain α → Nat
  | nil => 0
  | cons _ _ _ _ rest => rest.count + 1

/-- The last sibling of a chain that starts with `id`. -/
def lastFrom : Nat → Chain α → Nat
  | id, nil => id
  | _, cons id _ _ _ rest => lastFrom id rest

/-- All nodes of the chain stand between two places, and the children of each inside it. -/
def Nested (lo hi : Nat) : Chain → Prop
  | nil => True
  | cons _ a b kids rest => (lo ≤ a ∧ a < b ∧ b ≤ hi) ∧ Nested a b kids ∧ Nested lo hi rest

/-- All siblings of the chain stand between two places, and the children of each behind its start. -/
def Within (lo hi : Nat) : Chain → Prop
  | nil => True
  | cons _ a b kids rest => (lo ≤ a ∧ a < b ∧ b ≤ hi) ∧ Nested a hi kids ∧ Within lo hi rest

/-- A node of the chain, with its range and its children. -/
def Has : Chain α → Nat → α → α → Chain α → Prop
  | nil, _, _, _, _ => False
  | cons id' a' b' kids' rest, id, a, b, kids =>
    (id' = id ∧ a' = a ∧ b' = b ∧ kids' = kids) ∨ kids'.Has id a b kids ∨ rest.Has id a b kids

@[simp] theorem append_nil (c : Chain α) : c.append nil = c := by
  induction c with
  | nil => rfl
  | cons id a b kids rest _ ih => rw [append, ih]

theorem append_assoc (x y z : Chain α) : (x.append y).append z = x.append (y.append z) := by
  induction x with
  | nil => rfl
  | cons id a b kids rest _ ih => simp only [append, ih]

@[simp] theorem ids_append (x y : Chain α) : (x.append y).ids = x.ids ++ y.ids := by
  induction x with
  | nil => rfl
  | cons id a b kids rest _ ih => simp only [append, ids, ih, List.cons_append, List.append_assoc]

theorem head_append (x y : Chain α) : (x.append y).head = if x.isNil then y.head else x.head := by
  cases x <;> rfl

theorem lastFrom_append (id : Nat) (x y : Chain α) : lastFrom id (x.append y) = lastFrom (lastFrom id x) y := by
  induction x generalizing id with
  | nil => rfl
  | cons _ a b kids rest _ ih => exact ih _

theorem lastFrom_mem (id : Nat) (c : Chain α) : lastFrom id c = id ∨ lastFrom id c ∈ c.ids := by
  induction c generalizing id with
  | nil => exact .inl rfl
  | cons id' a b kids rest _ ih =>
    rcases ih id' with here | later
    · exact .inr (by simp [lastFrom, here, ids])
    · exact .inr (by simp [lastFrom, ids, later])

theorem count_le_ids (c : Chain α) : c.count ≤ c.ids.length := by
  induction c with
  | nil => exact Nat.le_refl _
  | cons id a b kids rest _ ih => simp only [count, ids, List.length_cons, List.length_append]; omega

theorem Nested.mono {lo lo' hi hi' : Nat} {c : Chain} (nested : c.Nested lo hi) (left : lo' ≤ lo) (right : hi ≤ hi') :
    c.Nested lo' hi' := by
  induction c with
  | nil => trivial
  | cons id a b kids rest _ ih =>
    obtain ⟨⟨_, _, _⟩, inner, later⟩ := nested
    exact ⟨⟨by omega, by omega, by omega⟩, inner, ih later⟩

theorem Nested.append {lo hi : Nat} {x y : Chain} (left : x.Nested lo hi) (right : y.Nested lo hi) :
    (x.append y).Nested lo hi := by
  induction x with
  | nil => exact right
  | cons id a b kids rest _ ih => exact ⟨left.1, left.2.1, ih left.2.2⟩

theorem Nested.within {lo hi : Nat} {c : Chain} (nested : c.Nested lo hi) : c.Within lo hi := by
  induction c with
  | nil => trivial
  | cons id a b kids rest _ ih =>
    obtain ⟨⟨left, middle, right⟩, inner, later⟩ := nested
    exact ⟨⟨left, middle, right⟩, inner.mono (Nat.le_refl _) right, ih later⟩

theorem Within.mono {lo lo' hi hi' : Nat} {c : Chain} (within : c.Within lo hi) (left : lo' ≤ lo) (right : hi ≤ hi') :
    c.Within lo' hi' := by
  induction c with
  | nil => trivial
  | cons id a b kids rest _ ih =>
    obtain ⟨⟨_, _, _⟩, inner, later⟩ := within
    exact ⟨⟨by omega, by omega, by omega⟩, inner.mono (Nat.le_refl _) right, ih later⟩

theorem nested_append {lo hi : Nat} {x y : Chain} : (x.append y).Nested lo hi ↔ x.Nested lo hi ∧ y.Nested lo hi := by
  induction x with
  | nil => simp only [Chain.append, Nested, true_and]
  | cons id a b kids rest _ ih => simp only [Chain.append, Nested, ih, and_assoc]

theorem within_append {lo hi : Nat} {x y : Chain} : (x.append y).Within lo hi ↔ x.Within lo hi ∧ y.Within lo hi := by
  induction x with
  | nil => simp only [Chain.append, Within, true_and]
  | cons id a b kids rest _ ih => simp only [Chain.append, Within, ih, and_assoc]

theorem has_append {id : Nat} {a b : α} {kids x y : Chain α} :
    (x.append y).Has id a b kids ↔ x.Has id a b kids ∨ y.Has id a b kids := by
  induction x with
  | nil => simp only [Chain.append, Has, false_or]
  | cons id' a' b' kids' rest _ ih => simp only [Chain.append, Has, ih, or_assoc]

theorem Has.nodup {c : Chain α} {id : Nat} {a b : α} {kids : Chain α} (has : c.Has id a b kids) (distinct : c.ids.Nodup) :
    kids.ids.Nodup := by
  induction c with
  | nil => exact has.elim
  | cons id' a' b' kids' rest ihKids ihRest =>
    rw [ids, List.nodup_cons, List.nodup_append] at distinct
    obtain ⟨_, inKids, inRest, _⟩ := distinct
    rcases has with ⟨_, _, _, rfl⟩ | inner | later
    · exact inKids
    · exact ihKids inner inKids
    · exact ihRest later inRest

theorem has_self {id : Nat} {a b : α} {kids rest : Chain α} : (cons id a b kids rest).Has id a b kids :=
  .inl ⟨rfl, rfl, rfl, rfl⟩

end Chain

section

variable {α : Type} {fits : α → α → AstNode → Prop} {N N' : List AstNode}

/-- The table holds the chain: every node is there, fits its range and leads to its children and its next sibling. -/
def Holds (fits : α → α → AstNode → Prop) (N : List AstNode) : Chain α → Prop
  | .nil => True
  | .cons id a b kids rest =>
    (∃ n, N[id]? = some n ∧ fits a b n ∧ n.firstChild = kids.head ∧ n.nextSibling = rest.head) ∧
      Holds fits N kids ∧ Holds fits N rest

theorem Holds.congr {c : Chain α} (holds : Holds fits N c) (same : ∀ id ∈ c.ids, N'[id]? = N[id]?) :
    Holds fits N' c := by
  induction c with
  | nil => trivial
  | cons id a b kids rest ihKids ihRest =>
    obtain ⟨⟨n, here, facts⟩, inner, later⟩ := holds
    refine ⟨⟨n, ?_, facts⟩, ihKids inner ?_, ihRest later ?_⟩
    · rw [same id (by simp [Chain.ids]), here]
    · exact fun id member => same id (by simp [Chain.ids, member])
    · exact fun id member => same id (by simp [Chain.ids, member])

theorem Holds.lt_length {c : Chain α} (holds : Holds fits N c) : ∀ id ∈ c.ids, id < N.length := by
  induction c with
  | nil => simp [Chain.ids]
  | cons id a b kids rest ihKids ihRest =>
    obtain ⟨⟨n, here, _⟩, inner, later⟩ := holds
    intro i member
    simp only [Chain.ids, List.mem_cons, List.mem_append] at member
    rcases member with rfl | member | member
    · exact (List.getElem?_eq_some_iff.mp here).1
    · exact ihKids inner i member
    · exact ihRest later i member

/-- A chain that shares no node with itself is no longer than the table. -/
theorem Holds.length_le {c : Chain α} (holds : Holds fits N c) (distinct : c.ids.Nodup) : c.ids.length ≤ N.length := by
  have inTable : c.ids ⊆ List.range N.length := fun i member => List.mem_range.mpr (holds.lt_length i member)
  have fewer := (distinct.subperm inTable).length_le
  rwa [List.length_range] at fewer

/-- A property of the nodes that does not look at their links. -/
def LinkBlind (fits : α → α → AstNode → Prop) : Prop :=
  ∀ a b n x y, fits a b n → fits a b { n with firstChild := x, nextSibling := y }

theorem nodeAt_of_getElem? {id : Nat} {n : AstNode} (here : N[id]? = some n) : Parser.nodeAt N id = n := by
  simp [Parser.nodeAt, List.getD_eq_getElem?_getD, here]

/-- The walk to the end of a chain finds its last sibling. -/
theorem Holds.lastSibling {id : Nat} {a b : α} {kids rest : Chain α} (holds : Holds fits N (.cons id a b kids rest)) :
    ∀ {room : Nat}, rest.count ≤ room → Parser.lastSibling N room id = some (Chain.lastFrom id rest) := by
  induction rest generalizing id a b kids with
  | nil =>
    intro room _
    obtain ⟨⟨n, here, _, _, next⟩, _, _⟩ := holds
    unfold Parser.lastSibling
    simp [nodeAt_of_getElem? here, next, Chain.head, Chain.lastFrom]
  | cons id' a' b' kids' rest' _ ih =>
    intro room enough
    obtain ⟨⟨n, here, _, _, next⟩, _, later⟩ := holds
    cases room with
    | zero => simp [Chain.count] at enough
    | succ room =>
      have nonneg : ¬((id' : Int) < 0) := by omega
      simp only [Parser.lastSibling, nodeAt_of_getElem? here, next, Chain.head, if_neg nonneg, Int.toNat_natCast]
      exact ih later (by simpa [Chain.count] using enough)

/-- Where the last sibling of a chain is made to lead on, the chain goes on. -/
theorem Holds.link_last {id : Nat} {a b : α} {kids rest c : Chain α} (blind : LinkBlind fits)
    (holds : Holds fits N (.cons id a b kids rest)) (distinct : (Chain.cons id a b kids rest).ids.Nodup)
    (last : N' = N.modify (Chain.lastFrom id rest) fun n => { n with nextSibling := c.head })
    (other : Holds fits N' c) : Holds fits N' (.cons id a b kids (rest.append c)) := by
  induction rest generalizing id a b kids with
  | nil =>
    obtain ⟨⟨n, here, facts, first, _⟩, inner, _⟩ := holds
    simp only [Chain.ids, List.append_nil, List.nodup_cons] at distinct
    simp only [Chain.lastFrom] at last
    refine ⟨⟨{ n with nextSibling := c.head }, ?_, ?_, first, rfl⟩, inner.congr ?_, other⟩
    · simp [last, here]
    · exact blind a b n n.firstChild c.head facts
    · intro i member
      have differs : id ≠ i := fun same => distinct.1 (same ▸ member)
      simp [last, differs]
  | cons id' a' b' kids' rest' _ ih =>
    obtain ⟨⟨n, here, facts, first, next⟩, inner, later⟩ := holds
    simp only [Chain.ids, List.nodup_cons, List.nodup_append, List.mem_append, List.mem_cons] at distinct
    obtain ⟨notIn, inKids, inRest, apart⟩ := distinct
    have lastIn : Chain.lastFrom id' rest' ∈ (Chain.cons id' a' b' kids' rest').ids := by
      rcases Chain.lastFrom_mem id' rest' with here | later
      · simp [Chain.ids, here]
      · simp [Chain.ids, later]
    have keep {i : Nat} (differs : Chain.lastFrom id' rest' ≠ i) : N'[i]? = N[i]? := by
      simp [last, Chain.lastFrom, differs]
    refine ⟨⟨n, ?_, facts, first, next⟩, inner.congr ?_, ?_⟩
    · rw [keep, here]
      intro same
      simp only [Chain.ids, List.mem_cons, List.mem_append, same] at lastIn
      exact notIn (.inr lastIn)
    · intro i member
      apply keep
      intro same
      simp only [Chain.ids, List.mem_cons, List.mem_append] at lastIn
      exact apart i member _ lastIn same.symm
    · exact ih later (by simp only [Chain.ids, List.nodup_cons, List.nodup_append, List.mem_append]; exact inRest) last

theorem Holds.append {x y : Chain α} {id : Nat} {a b : α} {kids : Chain α}
    (holds : Holds fits N (.cons id a b kids (x.append y))) : Holds fits N (x.append y) := holds.2.2

/-- A node anywhere in a chain, with the siblings behind it. -/
theorem Holds.of_has {c : Chain α} {id : Nat} {a b : α} {kids : Chain α} (holds : Holds fits N c) (has : c.Has id a b kids) :
    ∃ rest, Holds fits N (.cons id a b kids rest) := by
  induction c with
  | nil => exact has.elim
  | cons id' a' b' kids' rest ihKids ihRest =>
    rcases has with ⟨rfl, rfl, rfl, rfl⟩ | inner | later
    · exact ⟨rest, holds⟩
    · exact ihKids holds.2.1 inner
    · exact ihRest holds.2.2 later

/-- The part of a chain that follows some of its siblings. -/
theorem Holds.suffix {x y : Chain α} (holds : Holds fits N (x.append y)) : Holds fits N y := by
  induction x with
  | nil => exact holds
  | cons id a b kids rest _ ih => exact ih holds.2.2

/-- Changing one sibling of a chain, and possibly nodes below it, keeps the siblings before it in place. -/
theorem Holds.replace_suffix {x y y' : Chain α} (holds : Holds fits N (x.append y)) (head : y'.head = y.head)
    (new : Holds fits N' y') (same : ∀ id ∈ x.ids, N'[id]? = N[id]?) : Holds fits N' (x.append y') := by
  induction x with
  | nil => exact new
  | cons id a b kids rest _ ih =>
    obtain ⟨⟨n, here, facts, first, next⟩, inner, later⟩ := holds
    refine ⟨⟨n, ?_, facts, first, ?_⟩, inner.congr ?_, ih later ?_⟩
    · rw [same id (by simp [Chain.ids]), here]
    · have step : (rest.append y').head = (rest.append y).head := by simp only [Chain.head_append, head]
      rw [step, next]
    · exact fun i member => same i (by simp [Chain.ids, member])
    · exact fun i member => same i (by simp [Chain.ids, member])

/-- A chain added to the children of a node that stands in the table. -/
theorem Holds.addChild {id id' : Nat} {a b a' b' : α} {kids rest kids' rest' : Chain α} (blind : LinkBlind fits)
    (holds : Holds fits N (.cons id a b kids rest)) (other : Holds fits N (.cons id' a' b' kids' rest'))
    (distinct : ((Chain.cons id a b kids rest).ids ++ (Chain.cons id' a' b' kids' rest').ids).Nodup)
    (p : Parser) (s : ParseState) (nodes : s.nodes = N) :
    ∃ N', p.addChild id id' s = .ok () { s with nodes := N' } ∧ N'.length = N.length ∧
      Holds fits N' (.cons id a b (kids.append (.cons id' a' b' kids' rest')) rest) ∧
      ∀ i, i ∉ id :: kids.ids → N'[i]? = N[i]? := by
  subst nodes
  obtain ⟨⟨n, here, facts, first, next⟩, inner, later⟩ := holds
  have atParent : Parser.nodeAt s.nodes id = n := nodeAt_of_getElem? here
  have split := distinct
  rw [List.nodup_append, Chain.ids, List.nodup_cons, List.nodup_append] at split
  obtain ⟨⟨notIn, inKids, inRest, apart⟩, inOther, fromOther⟩ := split
  simp only [List.mem_append, not_or] at notIn
  cases kids with
  | nil =>
    have none : n.firstChild < 0 := by simp [first, Chain.head]
    refine ⟨s.nodes.modify id fun n => { n with firstChild := id' }, ?_, by simp, ⟨⟨{ n with firstChild := id' }, ?_, ?_⟩,
      other.congr ?_, later.congr ?_⟩, ?_⟩
    · simp only [Parser.addChild, atParent, if_pos none]
    · simp [here]
    · exact ⟨blind a b n id' n.nextSibling facts, rfl, next⟩
    · intro i member
      have differs : id ≠ i := fromOther id (by simp) i member
      simp [differs]
    · intro i member
      have differs : id ≠ i := fun same => notIn.2 (same ▸ member)
      simp [differs]
    · intro i outside
      have differs : id ≠ i := fun same => outside (by simp [same])
      simp [differs]
  | cons k ka kb kkids krest =>
    have nonneg : ¬(k : Int) < 0 := by omega
    have distinctKids : (Chain.cons k ka kb kkids krest).ids.Nodup := inKids
    have bound : krest.count ≤ s.nodes.length := by
      have fewer := inner.length_le distinctKids
      have counted := krest.count_le_ids
      rw [Chain.ids, List.length_cons, List.length_append] at fewer
      omega
    have walk : Parser.lastSibling s.nodes s.nodes.length k = some (Chain.lastFrom k krest) :=
      inner.lastSibling bound
    have lastIn : Chain.lastFrom k krest ∈ (Chain.cons k ka kb kkids krest).ids := by
      rcases Chain.lastFrom_mem k krest with atFirst | inside
      · simp [Chain.ids, atFirst]
      · simp [Chain.ids, inside]
    have keep {i : Nat} (outside : i ∉ (Chain.cons k ka kb kkids krest).ids) :
        (s.nodes.modify (Chain.lastFrom k krest) fun n => { n with nextSibling := id' })[i]? = s.nodes[i]? := by
      have differs : Chain.lastFrom k krest ≠ i := fun same => outside (same ▸ lastIn)
      simp [differs]
    refine ⟨s.nodes.modify (Chain.lastFrom k krest) fun n => { n with nextSibling := id' }, ?_, by simp,
      ⟨⟨n, ?_, facts, first, next⟩, ?_, later.congr ?_⟩, ?_⟩
    · simp only [Parser.addChild, atParent, first, Chain.head, if_neg nonneg, Int.toNat_natCast, walk]
    · rw [keep notIn.1, here]
    · refine inner.link_last blind distinctKids rfl (other.congr ?_)
      intro i member
      apply keep
      intro inside
      exact fromOther i (by simp [inside]) i member rfl
    · intro i member
      apply keep
      intro inside
      exact apart i inside i member rfl
    · intro i outside
      apply keep
      intro inside
      exact outside (by simp [inside])

end

end HopHop
