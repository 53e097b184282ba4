import HopHop.NodeChain
import Mathlib.Data.List.Nodup

namespace HopHop

/-! Loose chains under construction in the node table: nothing leads to them yet, they share no node, and the nodes
that were there before stay as they are. -/

/-- The first table is a prefix of the second. -/
def Kept (N₀ N : List AstNode) : Prop := ∀ i, i < N₀.length → N[i]? = N₀[i]?

theorem Kept.refl (N : List AstNode) : Kept N N := fun _ _ => rfl

theorem Kept.length_le {N₀ N : List AstNode} (kept : Kept N₀ N) : N₀.length ≤ N.length := by
  rcases Nat.lt_or_ge 0 N₀.length with some | none
  · have last := kept (N₀.length - 1) (by omega)
    rw [List.getElem?_eq_getElem (l := N₀) (by omega)] at last
    have bound := (List.getElem?_eq_some_iff.mp last).1
    omega
  · omega

theorem Kept.take {N₀ N : List AstNode} (kept : Kept N₀ N) : N.take N₀.length = N₀ := by
  apply List.ext_getElem?
  intro i
  rw [List.getElem?_take]
  split
  case isTrue inside => exact kept i inside
  case isFalse outside => rw [List.getElem?_eq_none (by omega)]

theorem Kept.trans {N₀ N N' : List AstNode} (first : Kept N₀ N) (second : Kept N N') : Kept N₀ N' := by
  intro i inside
  have bound := first.length_le
  rw [second i (by omega), first i inside]

theorem Kept.append {N₀ N : List AstNode} (kept : Kept N₀ N) (more : List AstNode) : Kept N₀ (N ++ more) := by
  intro i inside
  have bound := kept.length_le
  rw [List.getElem?_append_left (by omega), kept i inside]

section

variable {α : Type} {fits : α → α → AstNode → Prop} {N₀ N N' : List AstNode} {F G : List (Chain α)}

/-- The nodes of a table behind those of an older one are those of some chains. -/
structure Split (fits : α → α → AstNode → Prop) (N₀ N : List AstNode) (F : List (Chain α)) : Prop where
  kept : Kept N₀ N
  holds : ∀ c ∈ F, Holds fits N c
  distinct : (F.flatMap Chain.ids).Nodup
  fresh : ∀ id ∈ F.flatMap Chain.ids, N₀.length ≤ id
  covers : ∀ id, N₀.length ≤ id → id < N.length → id ∈ F.flatMap Chain.ids

theorem Split.start (N : List AstNode) : Split fits N N [] :=
  ⟨Kept.refl N, by simp, by simp, by simp, fun id large small => by omega⟩

theorem Split.perm (split : Split fits N₀ N F) (same : F.Perm G) : Split fits N₀ N G where
  kept := split.kept
  holds c member := split.holds c (same.mem_iff.mpr member)
  distinct := (same.flatMap_right Chain.ids).nodup_iff.mp split.distinct
  fresh id member := split.fresh id ((same.flatMap_right Chain.ids).mem_iff.mpr member)
  covers id large small := (same.flatMap_right Chain.ids).mem_iff.mp (split.covers id large small)

theorem Split.head {c : Chain α} (split : Split fits N₀ N (c :: F)) : Holds fits N c := split.holds c (by simp)

theorem Split.second {c d : Chain α} (split : Split fits N₀ N (c :: d :: F)) : Holds fits N d := split.holds d (by simp)

theorem Split.lt_length (split : Split fits N₀ N F) : ∀ id ∈ F.flatMap Chain.ids, id < N.length := by
  intro id member
  obtain ⟨c, inside, member⟩ := List.mem_flatMap.mp member
  exact (split.holds c inside).lt_length id member

/-- A fresh node is a loose chain of its own. -/
theorem Split.push {a b : α} {n : AstNode} (split : Split fits N₀ N F) (facts : fits a b n) (first : n.firstChild = -1)
    (next : n.nextSibling = -1) : Split fits N₀ (N ++ [n]) (.cons N.length a b .nil .nil :: F) := by
  have bound := split.kept.length_le
  constructor
  · exact split.kept.append [n]
  · intro c member
    rcases List.mem_cons.mp member with rfl | old
    · exact ⟨⟨n, by simp, facts, first, next⟩, trivial, trivial⟩
    · refine (split.holds c old).congr fun id inside => ?_
      rw [List.getElem?_append_left ((split.holds c old).lt_length id inside)]
  · rw [List.flatMap_cons, List.nodup_append]
    refine ⟨by simp [Chain.ids], split.distinct, ?_⟩
    intro id here id' there same
    have small := split.lt_length id' there
    simp only [Chain.ids, List.nil_append, List.mem_cons, List.not_mem_nil, or_false] at here
    omega
  · intro id member
    rw [List.flatMap_cons, List.mem_append] at member
    rcases member with here | old
    · simp only [Chain.ids, List.nil_append, List.mem_cons, List.not_mem_nil, or_false] at here
      omega
    · exact split.fresh id old
  · intro id large small
    rw [List.flatMap_cons, List.mem_append]
    rw [List.length_append, List.length_singleton] at small
    rcases Nat.lt_or_ge id N.length with older | newest
    · exact .inr (split.covers id large older)
    · exact .inl (by simp only [Chain.ids, List.mem_cons]; omega)

/-- What is built beside the chains at hand joins them. -/
theorem Split.join (split : Split fits N₀ N F) (more : Split fits N N' G) : Split fits N₀ N' (G ++ F) := by
  have bound := split.kept.length_le
  constructor
  · exact split.kept.trans more.kept
  · intro c member
    rcases List.mem_append.mp member with new | old
    · exact more.holds c new
    · refine (split.holds c old).congr fun id inside => ?_
      exact more.kept id ((split.holds c old).lt_length id inside)
  · rw [List.flatMap_append, List.nodup_append]
    refine ⟨more.distinct, split.distinct, ?_⟩
    intro id here id' there same
    have large := more.fresh id here
    have small := split.lt_length id' there
    omega
  · intro id member
    rw [List.flatMap_append, List.mem_append] at member
    rcases member with new | old
    · have large := more.fresh id new
      omega
    · exact split.fresh id old
  · intro id large small
    rw [List.flatMap_append, List.mem_append]
    rcases Nat.lt_or_ge id N.length with older | newer
    · exact .inr (split.covers id large older)
    · exact .inl (more.covers id newer small)

/-- A change of a node that leaves its links alone. -/
def KeepsLinks (f : AstNode → AstNode) : Prop :=
  ∀ n, (f n).firstChild = n.firstChild ∧ (f n).nextSibling = n.nextSibling

theorem Split.modify {x : Chain α} {id : Nat} {a b a' b' : α} {kids rest : Chain α} {f : AstNode → AstNode}
    (split : Split fits N₀ N (x.append (.cons id a b kids rest) :: F)) (links : KeepsLinks f)
    (facts : ∀ n, fits a b n → fits a' b' (f n)) :
    Split fits N₀ (N.modify id f) (x.append (.cons id a' b' kids rest) :: F) := by
  have sameIds : (x.append (.cons id a' b' kids rest)).ids = (x.append (.cons id a b kids rest)).ids := by
    simp only [Chain.ids_append, Chain.ids]
  have other {i : Nat} (differs : id ≠ i) : (N.modify id f)[i]? = N[i]? := by
    simp [differs]
  have distinct := split.distinct
  rw [List.flatMap_cons, Chain.ids_append, Chain.ids, List.nodup_append, List.nodup_append, List.nodup_cons] at distinct
  obtain ⟨⟨_, ⟨notBelow, _⟩, fromPrefix⟩, _, fromRest⟩ := distinct
  simp only [List.mem_append, not_or] at notBelow
  constructor
  · intro i inside
    have large := split.fresh id (by simp [Chain.ids])
    rw [other (by omega), split.kept i inside]
  · intro c member
    rcases List.mem_cons.mp member with rfl | old
    · obtain ⟨⟨n, here, good, first, next⟩, inner, later⟩ := split.head.suffix
      refine split.head.replace_suffix rfl ⟨⟨f n, ?_, facts n good, ?_, ?_⟩, inner.congr ?_, later.congr ?_⟩ ?_
      · simp [here]
      · rw [(links n).1, first]
      · rw [(links n).2, next]
      · exact fun i member => other fun same => notBelow.1 (same ▸ member)
      · exact fun i member => other fun same => notBelow.2 (same ▸ member)
      · exact fun i member => other fun same => fromPrefix i member id (by simp) same.symm
    · refine (split.holds c (List.mem_cons_of_mem _ old)).congr fun i member => other ?_
      intro same
      exact fromRest id (by simp) i (List.mem_flatMap.mpr ⟨c, old, member⟩) same
  · rw [List.flatMap_cons, sameIds, ← List.flatMap_cons]
    exact split.distinct
  · intro i member
    rw [List.flatMap_cons, sameIds, ← List.flatMap_cons] at member
    exact split.fresh i member
  · intro i large small
    rw [List.flatMap_cons, sameIds, ← List.flatMap_cons]
    exact split.covers i large (by simpa using small)

/-- A loose chain goes on where the last sibling of another one is made to lead to it. -/
theorem Split.link {y : Chain α} {id : Nat} {a b : α} {kids rest : Chain α} (blind : LinkBlind fits)
    (split : Split fits N₀ N (y :: .cons id a b kids rest :: F)) :
    Split fits N₀ (N.modify (Chain.lastFrom id rest) fun n => { n with nextSibling := y.head })
      (.cons id a b kids (rest.append y) :: F) := by
  have lastIn : Chain.lastFrom id rest ∈ (Chain.cons id a b kids rest).ids := by
    rcases Chain.lastFrom_mem id rest with here | later
    · simp [Chain.ids, here]
    · simp [Chain.ids, later]
  have other {i : Nat} (differs : Chain.lastFrom id rest ≠ i) :
      (N.modify (Chain.lastFrom id rest) fun n => { n with nextSibling := y.head })[i]? = N[i]? := by
    simp [differs]
  have sameIds : ((Chain.cons id a b kids (rest.append y) :: F).flatMap Chain.ids).Perm
      ((y :: .cons id a b kids rest :: F).flatMap Chain.ids) := by
    rw [List.perm_iff_count]
    intro i
    simp only [List.flatMap_cons, Chain.ids_append, Chain.ids, List.count_append, List.count_cons]
    omega
  have distinct := split.distinct
  rw [List.flatMap_cons, List.flatMap_cons, List.nodup_append, List.nodup_append] at distinct
  obtain ⟨_, ⟨inChain, _, fromChain⟩, fromOther⟩ := distinct
  constructor
  · intro i inside
    have large := split.fresh _ (List.mem_flatMap.mpr ⟨_, List.mem_cons_of_mem _ (List.mem_cons_self ..), lastIn⟩)
    rw [other (by omega), split.kept i inside]
  · intro c member
    rcases List.mem_cons.mp member with rfl | old
    · refine split.second.link_last blind inChain rfl (split.head.congr fun i member => other ?_)
      exact fun same => fromOther i member _ (List.mem_append_left _ lastIn) same.symm
    · refine (split.holds c (List.mem_cons_of_mem _ (List.mem_cons_of_mem _ old))).congr fun i inside => other fun same => ?_
      exact fromChain _ lastIn i (List.mem_flatMap.mpr ⟨c, old, inside⟩) same
  · exact sameIds.nodup_iff.mpr split.distinct
  · exact fun i member => split.fresh i (sameIds.mem_iff.mp member)
  · exact fun i large small => sameIds.mem_iff.mpr (split.covers i large (by simpa using small))

/-- Cutting the table right behind a node that was added first, and its link to its children with them. -/
theorem Split.cut {a b : α} {kids : Chain α} (blind : LinkBlind fits)
    (split : Split fits N₀ N (.cons N₀.length a b kids .nil :: F)) (more : Kept N N') :
    Split fits N₀ ((N'.take (N₀.length + 1)).modify N₀.length fun n => { n with firstChild := -1 })
      [.cons N₀.length a b .nil .nil] := by
  obtain ⟨⟨n, here, facts, _, next⟩, _, _⟩ := split.head
  have inside : N₀.length < N.length := (List.getElem?_eq_some_iff.mp here).1
  have there : N'[N₀.length]? = some n := (more _ inside).trans here
  constructor
  · intro i inside
    have differs : N₀.length ≠ i := by omega
    simp only [List.getElem?_modify, differs, if_false, List.getElem?_take_of_lt (show i < N₀.length + 1 by omega),
      (split.kept.trans more) i inside, Option.map_eq_map, Option.map_id']
  · intro c member
    rw [List.mem_singleton] at member
    subst member
    refine ⟨⟨{ n with firstChild := -1 }, ?_, blind a b n (-1) n.nextSibling facts, rfl, next⟩, trivial, trivial⟩
    simp only [List.getElem?_modify, if_true, List.getElem?_take_of_lt (Nat.lt_succ_self N₀.length), there]
    rfl
  · simp [Chain.ids]
  · simp [Chain.ids]
  · intro i large small
    simp only [List.length_modify, List.length_take] at small
    have last : i = N₀.length := by omega
    simp [Chain.ids, last]

/-- A loose chain becomes the last children of a node. -/
theorem Split.addChild {x : Chain α} {id id' : Nat} {a b a' b' : α} {kids rest kids' rest' : Chain α} {s : ParseState}
    (p : Parser) (blind : LinkBlind fits)
    (split : Split fits N₀ s.nodes (x.append (.cons id a b kids rest) :: .cons id' a' b' kids' rest' :: F)) :
    ∃ N', p.addChild id id' s = .ok () { s with nodes := N' } ∧
      Split fits N₀ N' (x.append (.cons id a b (kids.append (.cons id' a' b' kids' rest')) rest) :: F) := by
  have distinct := split.distinct
  simp only [List.flatMap_cons, Chain.ids_append] at distinct
  have apart : ((Chain.cons id a b kids rest).ids ++ (Chain.cons id' a' b' kids' rest').ids).Nodup := by
    rw [List.nodup_append]
    simp only [List.nodup_append, List.mem_append] at distinct
    grind
  obtain ⟨N', run, length, added, other⟩ :=
    split.head.suffix.addChild blind split.second apart p s rfl
  have sameIds : ((x.append (.cons id a b (kids.append (.cons id' a' b' kids' rest')) rest) :: F).flatMap
      Chain.ids).Perm ((x.append (.cons id a b kids rest) :: .cons id' a' b' kids' rest' :: F).flatMap Chain.ids) := by
    rw [List.perm_iff_count]
    intro i
    simp only [List.flatMap_cons, Chain.ids_append, Chain.ids, List.count_append, List.count_cons]
    omega
  simp only [List.nodup_append, List.mem_append, Chain.ids, List.mem_cons] at distinct
  refine ⟨N', run, ?_, ?_, sameIds.nodup_iff.mpr split.distinct, fun i member => split.fresh i (sameIds.mem_iff.mp member),
    fun i large small => sameIds.mem_iff.mpr (split.covers i large (length ▸ small))⟩
  · intro i inside
    rw [other i, split.kept i inside]
    intro member
    have large := split.fresh i (by simp only [List.flatMap_cons, Chain.ids_append, Chain.ids]; grind)
    omega
  · intro c member
    rcases List.mem_cons.mp member with rfl | old
    · refine split.head.replace_suffix rfl added ?_
      intro i inside
      apply other
      grind
    · refine (split.holds c (List.mem_cons_of_mem _ (List.mem_cons_of_mem _ old))).congr fun i inside => ?_
      have among : i ∈ F.flatMap Chain.ids := List.mem_flatMap.mpr ⟨c, old, inside⟩
      apply other
      grind

end

/-- The chains `F` are among those that were built behind a table. The others were finished trees when they were
dropped. -/
def Owns (fits : Nat → Nat → AstNode → Prop) (room : Nat) (N₀ N : List AstNode) (F : List Chain) : Prop :=
  ∃ dropped, (∀ c ∈ dropped, c.Nested 0 room) ∧ Split fits N₀ N (F ++ dropped)

section

variable {fits : Nat → Nat → AstNode → Prop} {N₀ N N' : List AstNode} {F G : List Chain} {room : Nat}

theorem Owns.start (N : List AstNode) : Owns fits room N N [] := ⟨[], by simp, Split.start N⟩

theorem Owns.kept (owns : Owns fits room N₀ N F) : Kept N₀ N := by
  obtain ⟨dropped, done, split⟩ := owns
  exact split.kept

theorem Owns.holds (owns : Owns fits room N₀ N F) : ∀ c ∈ F, Holds fits N c := by
  obtain ⟨dropped, done, split⟩ := owns
  exact fun c member => split.holds c (List.mem_append_left dropped member)

theorem Owns.head {c : Chain} (owns : Owns fits room N₀ N (c :: F)) : Holds fits N c := owns.holds c (by simp)

theorem Owns.nodup (owns : Owns fits room N₀ N F) {c : Chain} (member : c ∈ F) : c.ids.Nodup := by
  obtain ⟨dropped, done, split⟩ := owns
  exact (List.nodup_flatMap.mp split.distinct).1 c (List.mem_append_left dropped member)

theorem Owns.perm (owns : Owns fits room N₀ N F) (same : F.Perm G) : Owns fits room N₀ N G := by
  obtain ⟨dropped, done, split⟩ := owns
  exact ⟨dropped, done, split.perm (same.append_right dropped)⟩

theorem Owns.drop {c : Chain} (owns : Owns fits room N₀ N (c :: F)) (nested : c.Nested 0 room) :
    Owns fits room N₀ N F := by
  obtain ⟨dropped, done, split⟩ := owns
  refine ⟨c :: dropped, fun d member => ?_, split.perm List.perm_middle.symm⟩
  rcases List.mem_cons.mp member with rfl | old
  · exact nested
  · exact done d old

theorem Owns.empty (owns : Owns fits room N₀ N F) : Owns fits room N₀ N (.nil :: F) := by
  obtain ⟨dropped, done, split⟩ := owns
  refine ⟨dropped, done, split.kept, fun c member => ?_, split.distinct, split.fresh, split.covers⟩
  rcases List.mem_cons.mp member with rfl | old
  · trivial
  · exact split.holds c old

theorem Owns.push {a b : Nat} {n : AstNode} (owns : Owns fits room N₀ N F) (facts : fits a b n) (first : n.firstChild = -1)
    (next : n.nextSibling = -1) : Owns fits room N₀ (N ++ [n]) (.cons N.length a b .nil .nil :: F) := by
  obtain ⟨dropped, done, split⟩ := owns
  exact ⟨dropped, done, split.push facts first next⟩

theorem Owns.join (owns : Owns fits room N₀ N F) (more : Owns fits room N N' G) : Owns fits room N₀ N' (G ++ F) := by
  obtain ⟨dropped, done, split⟩ := owns
  obtain ⟨droppedMore, doneMore, splitMore⟩ := more
  have all := split.join splitMore
  refine ⟨droppedMore ++ dropped, fun c member => ?_, all.perm ?_⟩
  · exact (List.mem_append.mp member).elim (doneMore c) (done c)
  · simp only [List.append_assoc]
    exact (List.perm_append_comm_assoc droppedMore F dropped).append_left G

theorem Owns.modify {x : Chain} {id a b a' b' : Nat} {kids rest : Chain} {f : AstNode → AstNode}
    (owns : Owns fits room N₀ N (x.append (.cons id a b kids rest) :: F)) (links : KeepsLinks f)
    (facts : ∀ n, fits a b n → fits a' b' (f n)) :
    Owns fits room N₀ (N.modify id f) (x.append (.cons id a' b' kids rest) :: F) := by
  obtain ⟨dropped, done, split⟩ := owns
  exact ⟨dropped, done, split.modify links facts⟩

theorem Owns.link {y : Chain} {id a b : Nat} {kids rest : Chain} (blind : LinkBlind fits)
    (owns : Owns fits room N₀ N (y :: .cons id a b kids rest :: F)) :
    Owns fits room N₀ (N.modify (Chain.lastFrom id rest) fun n => { n with nextSibling := y.head })
      (.cons id a b kids (rest.append y) :: F) := by
  obtain ⟨dropped, done, split⟩ := owns
  exact ⟨dropped, done, split.link blind⟩

theorem Owns.cut {a b : Nat} {kids : Chain} (blind : LinkBlind fits)
    (owns : Owns fits room N₀ N [.cons N₀.length a b kids .nil]) (more : Kept N N') :
    Owns fits room N₀ ((N'.take (N₀.length + 1)).modify N₀.length fun n => { n with firstChild := -1 })
      [.cons N₀.length a b .nil .nil] := by
  obtain ⟨dropped, done, split⟩ := owns
  exact ⟨[], by simp, split.cut blind more⟩

theorem Owns.addChild {x : Chain} {id a b id' a' b' : Nat} {kids rest kids' rest' : Chain} {s : ParseState}
    (p : Parser) (blind : LinkBlind fits)
    (owns : Owns fits room N₀ s.nodes (x.append (.cons id a b kids rest) :: .cons id' a' b' kids' rest' :: F)) :
    ∃ N', p.addChild id id' s = .ok () { s with nodes := N' } ∧
      Owns fits room N₀ N' (x.append (.cons id a b (kids.append (.cons id' a' b' kids' rest')) rest) :: F) := by
  obtain ⟨dropped, done, split⟩ := owns
  obtain ⟨N', run, added⟩ := split.addChild p blind
  exact ⟨N', run, dropped, done, added⟩

end

end HopHop
