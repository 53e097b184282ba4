import HopHop.ParserLogic
import Mathlib.Data.List.Forall2

namespace HopHop

open Prog

namespace Parser

section

variable {p : Parser} {enter : Enter} {k₀ k pos₀ pos g : Nat} {N₀ : List AstNode} {s : ParseState} {F : List Chain}
  {E : ParseState → Prop}

/-- A copy of a subtree: a loose tree with the same range. -/
def Cloned (p : Parser) (k₀ : Nat) (N₀ : List AstNode) (pos₀ pos k : Nat) (F : List Chain) (a b n : Nat)
    (s : ParseState) : Prop :=
  ∃ kids, Mid p k₀ N₀ pos₀ s pos k (.cons n a b kids .nil :: F) ∧ kids.Nested a b

/-- What a copying function must do for the subtrees smaller than `room`. -/
def Clones (p : Parser) (k₀ pos₀ pos k room : Nat) (cloneOne : Nat → Parse Nat) : Prop :=
  ∀ (s : ParseState) (id a b : Nat) (kids rest : Chain), kids.ids.length < room → kids.ids.Nodup →
    Mid p k₀ s.nodes pos₀ s pos k [] → Holds p.Fits s.nodes (.cons id a b kids rest) → pos₀ ≤ a ∧ a < b ∧ b ≤ pos →
    kids.Nested a b → wp (cloneOne id) s (Cloned p k₀ s.nodes pos₀ pos k [] a b) (Keeps s.nodes)

/-- The children of a node are copied one after the other below its copy. -/
theorem cloneChildren_spec {N : List AstNode} {room : Nat} {cloneOne : Nat → Parse Nat}
    (clones : Clones p k₀ pos₀ pos k room cloneOne) {clone a b : Nat} (y : Chain) :
    ∀ {room' : Nat} {s : ParseState} {copied : Chain}, y.count < room' → y.ids.length ≤ room → y.ids.Nodup →
      Holds p.Fits N y → pos₀ ≤ a ∧ b ≤ pos → y.Nested a b → copied.Nested a b →
      Mid p k₀ N pos₀ s pos k [.cons clone a b copied .nil] →
      wp (Prog.loop (fun child : Int => do
        if child < 0 then Pure.pure (.inr ())
        else
          let childClone ← cloneOne child.toNat
          p.addChild clone childClone
          let n ← p.node child.toNat
          Pure.pure (.inl n.nextSibling)) room' y.head) s
        (fun _ s' => ∃ copied, Mid p k₀ N pos₀ s' pos k [.cons clone a b copied .nil] ∧ copied.Nested a b)
        (Keeps N) := by
  induction y with
  | nil =>
    intro room' s copied bound _ _ _ _ _ inner mid
    obtain ⟨room', rfl⟩ : ∃ r, room' = r + 1 := ⟨room' - 1, by omega⟩
    exact wp_loop_succ (wp_ite (fun _ => ⟨copied, mid, inner⟩) fun no => absurd (by decide : (-1 : Int) < 0) no)
  | cons id a' b' kids rest _ ih =>
    intro room' s copied bound enough distinct holds range nested inner mid
    obtain ⟨room', rfl⟩ : ∃ r, room' = r + 1 := ⟨room' - 1, by omega⟩
    simp only [Chain.count] at bound
    simp only [Chain.ids, List.length_cons, List.length_append] at enough
    rw [Chain.ids, List.nodup_cons, List.nodup_append] at distinct
    obtain ⟨_, distinctKids, distinctRest, _⟩ := distinct
    obtain ⟨⟨left, lt, right⟩, below, later⟩ := nested
    have still : Holds p.Fits s.nodes (.cons id a' b' kids rest) :=
      holds.congr fun i member => mid.owns.kept i (holds.lt_length i member)
    refine wp_loop_succ (wp_ite (fun negative => absurd negative (by simp [Chain.head])) fun _ => ?_)
    have copy := clones s id a' b' kids rest (by omega) distinctKids mid.fresh still (by omega) below
    refine wp_seq (wp_mono copy (fun _ _ made => made) fun _ kept => mid.owns.kept.trans kept) ?_
    rintro childClone s₁ ⟨kids', mid₁, below'⟩
    refine (mid.join_fresh mid₁ (Nat.le_refl pos)).addChild left below' fun s₂ mid₂ => ?_
    obtain ⟨⟨n, here, _, _, next⟩, _, _⟩ : Holds p.Fits s₂.nodes (.cons id a' b' kids rest) :=
      holds.congr fun i member => mid₂.owns.kept i (holds.lt_length i member)
    change wp (Prog.loop _ room' (nodeAt s₂.nodes id).nextSibling) s₂ _ _
    rw [nodeAt_of_getElem? here, next]
    refine ih (by omega) (by omega) distinctRest holds.2.2 range later ?_ mid₂
    exact inner.append ⟨⟨left, lt, right⟩, below', trivial⟩

theorem cloneSubtree_spec : ∀ room, Clones p k₀ pos₀ pos k room (p.cloneSubtree room)
  | 0 => fun _ _ _ _ _ _ enough => absurd enough (by omega)
  | room + 1 => by
    intro s id a b kids rest enough distinct mid holds range nested
    have counted := kids.count_le_ids
    have small := holds.2.1.length_le distinct
    obtain ⟨⟨n, here, facts, first, _⟩, below, _⟩ := holds
    rw [cloneSubtree]
    refine wp_get_bind (wp_ite (fun _ => Kept.refl s.nodes) fun _ => ?_)
    simp only [nodeAt_of_getElem? here, first]
    refine mid.newNode facts.1 facts.2 range fun clone s₁ mid₁ => ?_
    refine mid₁.touch (fun _ => ⟨⟨rfl, rfl⟩, rfl, rfl⟩) fun s₂ mid₂ => ?_
    have none : Chain.nil.Nested a b := trivial
    refine wp_seq (cloneChildren_spec (cloneSubtree_spec room) kids (by omega) (by omega) distinct below ⟨range.1, range.2.2⟩
      nested none mid₂) ?_
    rintro _ s₃ ⟨copied, mid₃, inner⟩
    exact ⟨copied, mid₃, inner⟩


/-- A copy of a subtree that stands among the loose chains joins them. -/
theorem clone_mid {id a b : Nat} {kids : Chain} {β : Type} {f : Nat → Parse β} {Q : β → ParseState → Prop}
    (mid : Mid p k₀ N₀ pos₀ s pos k F) (has : ∃ c ∈ F, c.Has id a b kids) (nested : kids.Nested a b)
    (range : pos₀ ≤ a ∧ a < b ∧ b ≤ pos)
    (next : ∀ n s' kids', Mid p k₀ N₀ pos₀ s' pos k (.cons n a b kids' .nil :: F) → kids'.Nested a b →
      wp (f n) s' Q (Keeps N₀)) : wp (p.clone id >>= f) s Q (Keeps N₀) := by
  obtain ⟨c, member, has⟩ := has
  have distinct : kids.ids.Nodup := has.nodup (mid.owns.nodup member)
  obtain ⟨rest, holds⟩ := (mid.owns.holds c member).of_has has
  have small := holds.2.1.length_le distinct
  have copy := cloneSubtree_spec (s.nodes.length + 1) s id a b kids rest (by omega) distinct mid.fresh holds range nested
  refine wp_seq (wp_mono copy (fun _ _ made => made) fun _ kept => mid.owns.kept.trans kept) ?_
  rintro n s' ⟨kids', mid', nested'⟩
  exact next n s' kids' (mid.join_fresh mid' (Nat.le_refl pos)) nested'

/-- A dotted name ends with the last token it takes. -/
theorem dottedName_mid {first : Token} {β : Type} {f : Token → Parse β} {Q : β → ParseState → Prop}
    {E : ParseState → Prop} (mid : Mid p k₀ N₀ pos₀ s (pos + 1) k F) (last : first = p.tokAt pos)
    (next : ∀ s' pos', Mid p k₀ N₀ pos₀ s' (pos' + 1) k F → pos ≤ pos' → wp (f (p.tokAt pos')) s' Q E) :
    wp (p.dottedName first >>= f) s Q E := by
  let I : Token → ParseState → Prop := fun t s' =>
    ∃ pos', Mid p k₀ N₀ pos₀ s' (pos' + 1) k F ∧ pos ≤ pos' ∧ t = p.tokAt pos'
  have run : wp (p.dottedName first) s I E := by
    refine wp_rounds (I := I) ⟨pos, mid, Nat.le_refl pos, last⟩ ?_ ?_
    · rintro t s' ⟨pos', mid', _⟩
      exact mid'.here ▸ mid'.inside
    · rintro t s' ⟨pos', mid', later, rfl⟩
      refine wp_get_bind (wp_ite (fun dotted => ?_) fun _ => ⟨pos', mid', later, rfl⟩)
      rw [mid'.here] at dotted
      simp only [dottedAt, Bool.and_eq_true, decide_eq_true_eq] at dotted
      obtain ⟨⟨⟨⟨_, dot⟩, ident⟩, _⟩, _⟩ := dotted
      refine mid'.advance dot (.plain rfl) fun s₁ mid₁ => ?_
      refine mid₁.advance ident turns_ident fun s₂ mid₂ => ?_
      refine ⟨⟨pos' + 1 + 1, mid₂, by omega, ?_⟩, ?_⟩
      · rw [mid'.here]
      · have before := mid'.here
        have behind := mid₂.here
        omega
  exact wp_seq run fun t s' ⟨pos', mid', later, same⟩ => same ▸ next s' pos' mid' later

theorem parseTypeName_closed (ends : p.EndsWithEof) (inside : s.pos < p.tokLen) (good : Good p enter s.pos) :
    Closed p 0 (p.parseTypeName enter) s := by
  have start := Mid.start 0 ends inside
  unfold parseTypeName
  refine start.peek (wp_ite (fun named => ?_) fun _ => start.failWith)
  have turns : Turns (p.tokAt s.pos).kind 0 0 := by
    rcases named with same | same | same <;> rw [same] <;> exact ⟨by decide, fun _ => rfl⟩
  refine start.advance rfl turns fun s₁ mid => ?_
  refine mid.prev (dottedName_mid mid rfl fun s₂ last mid later => ?_)
  refine mid.newSpan (by omega) fun n s₃ mid => ?_
  refine mid.touch (fun _ => ⟨⟨rfl, rfl⟩, rfl, rfl⟩) fun s₄ mid => ?_
  refine mid.ifMatch .lbrack (fun s₅ mid _ => ?_) fun _ => mid.made (Nat.le_refl _) mid.kids
  refine mid.prev (mid.endAt (by omega) fun s₆ mid => ?_)
  refine wp_grown (mid.commaLoop () ?_) fun _ s₇ q b kids mid later => ?_
  · intro _ s' pos' b kids mid later
    refine mid.enter good (by omega) fun n' s'' pos'' a' b' kids' mid left _ _ nested => ?_
    refine wp_bind_pure.mp (mid.addChild (by omega) nested fun s''' mid => ?_)
    exact mid.grown (by omega)
  · refine mid.expect .rbrack fun s₈ mid _ => ?_
    refine mid.endAt (by omega) fun s₉ mid => ?_
    exact mid.made (Nat.le_refl _) mid.kids

/-- The loop over type parameters adds to their owner, which keeps its range. -/
theorem typeParams_loop {n a b : Nat} {kids : Chain} (mid : Mid p k₀ N₀ pos₀ s pos k [.cons n a b kids .nil])
    (behind : a ≤ pos) :
    wp (Prog.loop (fun _ : Unit => do
      if ← p.isAt .IDENT then
        let name ← p.expectDeclName false
        let paramNode ← p.newNode .TYPE_PARAM name.start name.stop
        p.setData paramNode name
        p.addChild n paramNode
        if ← p.matchTok .COMMA then Pure.pure (.inl ()) else Pure.pure (.inr true)
      else Pure.pure (.inr false)) p.rounds ()) s
      (fun _ s' => ∃ pos' kids, Mid p k₀ N₀ pos₀ s' pos' k [.cons n a b kids .nil] ∧ pos ≤ pos') (Keeps N₀) := by
  refine wp_rounds (I := fun _ s' => ∃ pos' kids, Mid p k₀ N₀ pos₀ s' pos' k [.cons n a b kids .nil] ∧ pos ≤ pos')
    ⟨pos, kids, mid, Nat.le_refl pos⟩ ?_ ?_
  · rintro _ s' ⟨pos', kids', mid', _⟩
    exact mid'.here ▸ mid'.inside
  · rintro _ s' ⟨pos', kids', mid', later⟩
    refine mid'.ifAt (fun _ => ?_) fun _ => ⟨pos', kids', mid', later⟩
    refine mid'.expectDeclName fun s₁ mid₁ _ => ?_
    have after := mid.after
    refine mid₁.newSpan (by omega) fun param s₂ mid₂ => ?_
    refine mid₂.touch (fun _ => ⟨⟨rfl, rfl⟩, rfl, rfl⟩) fun s₃ mid₃ => ?_
    refine mid₃.addChild (by omega) trivial fun s₄ mid₄ => ?_
    have before := mid'.here
    refine mid₄.ifMatch turns_comma (fun s₅ mid₅ _ => ?_) fun _ => ⟨_, _, mid₄, by omega⟩
    have behind := mid₅.here
    exact ⟨⟨_, _, mid₅, by omega⟩, by omega⟩

/-- Taking the type parameters back leaves their owner as it was. -/
theorem dropTypeParams_spec {a b pos' k' : Nat} {kids : Chain} {s' : ParseState}
    (mid : Mid p k₀ N₀ pos₀ s pos k [.cons N₀.length a b .nil .nil]) (length : s.nodes.length = N₀.length + 1)
    (later : Mid p k₀ N₀ pos₀ s' pos' k' [.cons N₀.length a b kids .nil]) {s'' : ParseState}
    (kept : Keeps s'.nodes s'') :
    wp (p.dropTypeParams N₀.length none s) s'' (fun _ => Grown p k₀ N₀ pos₀ k [] N₀.length a pos) (Keeps N₀) := by
  have cut := later.owns.cut p.fits_linkBlind kept
  rw [← length] at cut
  exact ⟨pos, b, .nil, ⟨mid.ends, cut, mid.here, mid.after, mid.inside, mid.depth, mid.window⟩, Nat.le_refl pos⟩

theorem parseTypeParamList_spec {a b : Nat} (mid : Mid p k₀ N₀ pos₀ s pos k [.cons N₀.length a b .nil .nil])
    (length : s.nodes.length = N₀.length + 1) :
    wp (p.parseTypeParamList N₀.length) s (fun _ => Grown p k₀ N₀ pos₀ k [] N₀.length a pos) (Keeps N₀) := by
  have last : lastChild N₀.length s = .ok none s := by
    obtain ⟨⟨n, here, _, first, _⟩, _, _⟩ := mid.owns.head
    simp only [lastChild, nodeAt_of_getElem? here, first, Chain.head]
    rfl
  have behind := mid.range
  refine wp_get_bind (wp_bind.mpr ?_)
  rw [wp, last]
  refine mid.ifMatch .lbrack (fun s₁ mid₁ _ => ?_) fun _ => mid.grown (Nat.le_refl pos)
  refine wp_seq (typeParams_loop mid₁ (by omega)) ?_
  rintro parsed s₂ ⟨pos₂, kids₂, mid₂, later⟩
  refine wp_ite (fun _ => ?_) fun _ => dropTypeParams_spec mid length mid₂ (Kept.refl s₂.nodes)
  have close : wp (p.expect .RBRACK .UNEXPECTED_TOKEN) s₂
      (fun rb s₃ => Mid p k₀ N₀ pos₀ s₃ (pos₂ + 1) k [.cons N₀.length a b kids₂ .nil] ∧ rb = p.tokAt pos₂)
      (Keeps s₂.nodes) := by
    refine wp_bind_pure.mp (mid₂.fresh.expect .rbrack fun s₃ mid₃ _ => ?_)
    exact ⟨mid₂.join_fresh mid₃ (by omega), rfl⟩
  refine wp_try close ?_ fun s₃ kept => dropTypeParams_spec mid length mid₂ kept
  rintro _ s₃ ⟨mid₃, rfl⟩
  refine wp_bind_pure.mp (mid₃.endAt (by omega) fun s₄ mid₄ => ?_)
  exact mid₄.grown (by omega)

/-- A node for a declaration, with the type parameters behind its name. -/
theorem typeParams_mid {kind : AstKind} {i j : Nat} {t : Token} {β : Type} {f : Nat → Parse β}
    {Q : β → ParseState → Prop} (mid : Mid p k₀ N₀ pos₀ s pos k F) (range : pos₀ ≤ i ∧ i ≤ j ∧ j < pos)
    (next : ∀ n s' pos' b kids, Mid p k₀ N₀ pos₀ s' pos' k (.cons n i b kids .nil :: F) → pos ≤ pos' →
      wp (f n) s' Q (Keeps N₀)) :
    wp (p.newNode kind (p.tokAt i).start (p.tokAt j).stop >>= fun n => p.setData n t >>= fun _ =>
      p.parseTypeParamList n >>= fun _ => f n) s Q (Keeps N₀) := by
  rw [wp_bind]
  change wp (if p.nodeCap ≤ s.nodes.length then _ else _) s _ _
  refine wp_ite (fun _ => mid.keeps) fun _ => ?_
  have owns : Owns p.Fits (p.tokLen - 1) s.nodes (s.nodes ++ [.fresh kind (p.tokAt i).start (p.tokAt j).stop])
      [.cons s.nodes.length i (j + 1) .nil .nil] := (Owns.start s.nodes).push ⟨rfl, .inl rfl⟩ rfl rfl
  have named := owns.modify (x := .nil) (f := fun n => { n with dataStart := t.start, dataEnd := t.stop })
    (fun _ => ⟨rfl, rfl⟩) fun _ facts => facts
  let M := (s.nodes ++ [AstNode.fresh kind (p.tokAt i).start (p.tokAt j).stop]).modify s.nodes.length fun n =>
    { n with dataStart := t.start, dataEnd := t.stop }
  have fresh : Mid p k₀ s.nodes pos₀ { s with nodes := M } pos k [.cons s.nodes.length i (j + 1) .nil .nil] :=
    ⟨mid.ends, named, mid.here, mid.after, mid.inside, mid.depth, by
      intro c member
      rw [List.mem_singleton.mp member]
      exact ⟨by omega, trivial, trivial⟩⟩
  have length : M.length = s.nodes.length + 1 := by simp [M]
  change wp (p.parseTypeParamList s.nodes.length >>= fun _ => f s.nodes.length) { s with nodes := M } Q (Keeps N₀)
  refine wp_seq (wp_mono (parseTypeParamList_spec fresh length) (fun _ _ made => made) fun _ kept =>
    mid.owns.kept.trans kept) ?_
  rintro _ s' ⟨pos', b, kids, grown, later⟩
  exact next _ s' pos' b kids (mid.join_fresh grown later) later

/-- The names of a group take tokens and build nothing. -/
theorem groupNames_spec (mid : Mid p k₀ N₀ pos₀ s pos k F) :
    wp p.groupNames s (fun r s' => match r with
      | some nameCount => 0 < nameCount ∧ ∃ pos', Mid p k₀ N₀ pos₀ s' pos' k F ∧ pos < pos'
      | none => Keeps N₀ s') (Keeps N₀) := by
  refine wp_rounds (I := fun _ s' => ∃ pos', Mid p k₀ N₀ pos₀ s' pos' k F ∧ pos ≤ pos') ⟨pos, mid, Nat.le_refl pos⟩
    ?_ ?_
  · rintro _ s' ⟨pos', mid', _⟩
    exact mid'.here ▸ mid'.inside
  · rintro nameCount s' ⟨pos', mid', later⟩
    have name : wp (p.expectDeclName false) s' (fun _ s'' => Mid p k₀ N₀ pos₀ s'' (pos' + 1) k F) (Keeps s'.nodes) := by
      refine wp_bind_pure.mp (mid'.fresh.expectDeclName fun s'' mid'' _ => ?_)
      exact mid'.join_fresh mid'' (by omega)
    refine wp_try name (fun _ s₁ mid₁ => ?_) fun s₁ kept => mid'.owns.kept.trans kept
    have before := mid'.here
    refine mid₁.ifMatch turns_comma (fun s₂ mid₂ _ => ?_) fun _ => ⟨Nat.succ_pos _, _, mid₁, by omega⟩
    have behind := mid₂.here
    exact mid₂.ifAt (fun _ => ⟨⟨_, mid₂, by omega⟩, by omega⟩) fun _ => mid₂.keeps

/-- A group of names with their type, or refused and possibly further on in the tokens. -/
theorem parseNamedGroup_spec (mid : Mid p k₀ N₀ pos₀ s pos k F) (good : Good p enter g) (behind : g ≤ pos) :
    wp (p.parseNamedGroup enter) s (fun r s' => match r with
      | some (nameCount, type) => 0 < nameCount ∧ Made p k₀ N₀ pos₀ k F (pos + 1) type s'
      | none => Keeps N₀ s') (Keeps N₀) := by
  refine wp_seq (groupNames_spec mid) ?_
  rintro (_ | nameCount) s₁ result
  · exact result
  obtain ⟨some, pos₁, mid₁, later⟩ := result
  refine mid₁.peek (wp_ite (fun _ => ?_) fun _ => mid₁.keeps)
  have type := good .type s₁ (by rw [mid₁.here]; omega) (by rw [mid₁.here]; exact mid₁.inside) trivial
  refine wp_try type (fun type s₂ made => ⟨some, ?_⟩) fun s₂ kept => mid₁.owns.kept.trans kept
  obtain ⟨pos', a, b, kids, rest⟩ := mid₁.join_made made (Nat.zero_le _)
  exact ⟨pos', a, b, kids, rest.1, by omega, rest.2.2⟩

/-- The type of a group is added once for every name. -/
theorem addGroupTypes_spec {fn type a b c d nameCount : Nat} {kids kids' : Chain}
    (mid : Mid p k₀ N₀ pos₀ s pos k (.cons type c d kids' .nil :: .cons fn a b kids .nil :: F)) (left : a ≤ c)
    (nested : kids'.Nested c d) (some : 0 < nameCount) :
    wp (p.addGroupTypes fn type nameCount) s (fun _ => Grown p k₀ N₀ pos₀ k F fn a pos) (Keeps N₀) := by
  obtain ⟨count, rfl⟩ : ∃ n, nameCount = n + 1 := ⟨nameCount - 1, by omega⟩
  have range := mid.range
  rw [addGroupTypes, List.range_succ_eq_map]
  refine wp_bind.mpr ?_
  refine wp_bind_pure.mp (mid.addChild left nested fun s₁ mid₁ => wp_pure.mpr ?_)
  refine wp_mono (wp_forEach (I := fun s' => ∃ kids, Mid p k₀ N₀ pos₀ s' pos k (.cons fn a b kids .nil :: F) ∧
    kids.Has type c d kids') ⟨_, mid₁, Chain.has_append.mpr (.inr Chain.has_self)⟩ ?_) ?_ fun _ kept => kept
  · rintro i member s₂ ⟨kids₂, mid₂, has⟩
    obtain ⟨i, _, rfl⟩ := List.mem_map.mp member
    refine wp_ite (fun zero => absurd zero (Nat.succ_ne_zero i)) fun _ => ?_
    refine clone_mid mid₂ ⟨_, List.mem_cons_self .., .inr (.inl has)⟩ nested range fun n s₃ kids₃ mid₃ nested₃ => ?_
    refine wp_bind_pure.mp (mid₃.addChild left nested₃ fun s₄ mid₄ => ?_)
    exact ⟨_, mid₄, Chain.has_append.mpr (.inl has)⟩
  · rintro _ s₂ ⟨kids₂, mid₂, _⟩
    exact mid₂.grown (Nat.le_refl pos)

theorem tryParseFnTypeNamedParamGroup_spec {fn a b : Nat} {kids : Chain}
    (mid : Mid p k₀ N₀ pos₀ s pos k (.cons fn a b kids .nil :: F)) (good : Good p enter g) (behind : g < pos) :
    wp (p.tryParseFnTypeNamedParamGroup enter fn) s
      (fun consumed s' => Grown p k₀ N₀ pos₀ k F fn a (if consumed = true then pos + 1 else pos) s') (Keeps N₀) := by
  have range := mid.range
  refine wp_get_bind (mid.ifAt (fun _ => ?_) fun _ => mid.grown (Nat.le_refl pos))
  refine wp_seq (wp_mono (parseNamedGroup_spec mid.fresh good (Nat.le_of_lt behind)) (fun _ _ made => made)
    fun _ kept => mid.owns.kept.trans kept) ?_
  rintro (_ | ⟨nameCount, type⟩) s₁ result
  · refine mid.rewind result fun s₂ mid₂ _ => ?_
    exact mid₂.grown (Nat.le_refl pos)
  · obtain ⟨some, made⟩ := result
    obtain ⟨pos₁, c, d, kids₁, mid₁, left, lt, right, nested⟩ := mid.made_fresh made (by omega)
    refine wp_grown (addGroupTypes_spec mid₁ (by omega) nested some) fun _ s₂ pos₂ b₂ kids₂ mid₂ later => ?_
    exact mid₂.grown (by simp only [if_true]; omega)

theorem parseConstParamType_spec {sawVariadic : Bool} (mid : Mid p k₀ s.nodes pos₀ s pos k []) (good : Good p enter g)
    (behind : g < pos) :
    wp (p.parseConstParamType enter sawVariadic) s (fun r => Made p k₀ s.nodes pos₀ k [] pos r.1)
      (Keeps s.nodes) := by
  have typed {s' : ParseState} {pos' : Nat} {v : Bool} (mid' : Mid p k₀ s.nodes pos₀ s' pos' k []) (later : pos ≤ pos') :
      wp (enter .type >>= fun n => Pure.pure (n, v)) s' (fun r => Made p k₀ s.nodes pos₀ k [] pos r.1)
        (Keeps s.nodes) := by
    refine mid'.enter good (by omega) fun n s' pos' a b kids mid' left lt right nested => ?_
    exact ⟨pos', a, b, kids, mid', by omega, lt, right, nested⟩
  have ellipsis {s' : ParseState} {pos' : Nat} {y : Parse (Nat × Bool)} (mid' : Mid p k₀ s.nodes pos₀ s' pos' k [])
      (later : pos ≤ pos')
      (no : wp y s' (fun r => Made p k₀ s.nodes pos₀ k [] pos r.1) (Keeps s.nodes)) :
      wp (p.matchTok .ELLIPSIS >>= fun b => if b = true then
          (if sawVariadic = true then p.failWith .VARIADIC_PARAM_DUPLICATE
          else enter .type >>= fun n => Pure.pure (n, true))
        else y) s' (fun r => Made p k₀ s.nodes pos₀ k [] pos r.1) (Keeps s.nodes) := by
    refine mid'.ifMatch (.plain rfl) (fun s₁ mid₁ _ => ?_) fun _ => no
    exact wp_ite (fun _ => mid₁.failWith) fun _ => typed mid₁ (by omega)
  refine wp_get_bind (ellipsis mid (Nat.le_refl pos) ?_)
  refine mid.ifAt (fun _ => ?_) fun _ => typed mid (Nat.le_refl pos)
  refine mid.expectDeclName fun s₁ mid₁ _ => ?_
  refine mid₁.ifAt (fun _ => ?_) fun _ => ?_
  · refine mid.rewind mid₁.keeps fun s₂ mid₂ _ => ?_
    refine ellipsis mid₂ (Nat.le_refl pos) (mid₂.peek (wp_ite (fun _ => typed mid₂ (Nat.le_refl pos)) fun _ => ?_))
    exact mid.rewind mid₂.keeps fun s₃ mid₃ _ => typed mid₃ (Nat.le_refl pos)
  · refine ellipsis mid₁ (Nat.le_succ pos) (mid₁.peek (wp_ite (fun _ => typed mid₁ (Nat.le_succ pos)) fun _ => ?_))
    exact mid.rewind mid₁.keeps fun s₂ mid₂ _ => typed mid₂ (Nat.le_refl pos)

theorem parseFnTypeParam_spec {fn a b : Nat} {kids : Chain} {sawVariadic : Bool}
    (mid : Mid p k₀ N₀ pos₀ s pos k (.cons fn a b kids .nil :: F)) (good : Good p enter g) (behind : g < pos) :
    wp (p.parseFnTypeParam enter fn sawVariadic) s (fun _ => Grown p k₀ N₀ pos₀ k F fn a (pos + 1)) (Keeps N₀) := by
  have range := mid.range
  refine mid.ifMatch (.plain rfl) (fun s₁ mid₁ _ => ?_) fun _ => ?_
  · refine wp_seq (wp_mono (parseConstParamType_spec mid₁.fresh good (by omega)) (fun _ _ made => made)
      fun _ kept => mid₁.owns.kept.trans kept) ?_
    rintro ⟨type, isVariadicParam⟩ s₂ made
    obtain ⟨pos₂, c, d, kids₂, mid₂, left, lt, right, nested⟩ := mid₁.made_fresh made (Nat.le_refl _)
    have add {s' : ParseState} (mid' : Mid p k₀ N₀ pos₀ s' pos₂ k (.cons type c d kids₂ .nil :: .cons fn a b kids .nil :: F)) :
        wp (p.addFlags type AstFlag.PARAM_CONST >>= fun _ => p.addChild fn type >>= fun _ =>
          Pure.pure (sawVariadic || isVariadicParam)) s' (fun _ => Grown p k₀ N₀ pos₀ k F fn a (pos + 1)) (Keeps N₀) := by
      refine mid'.touch (fun _ => ⟨⟨rfl, rfl⟩, rfl, rfl⟩) fun s₃ mid₃ => ?_
      refine mid₃.addChild (by omega) nested fun s₄ mid₄ => ?_
      exact mid₄.grown (by omega)
    refine wp_ite (fun _ => ?_) fun _ => add mid₂
    exact mid₂.touch (fun _ => ⟨⟨rfl, rfl⟩, rfl, rfl⟩) fun s₃ mid₃ => add mid₃
  · refine mid.ifMatch (.plain rfl) (fun s₁ mid₁ _ => ?_) fun _ => ?_
    · refine wp_ite (fun _ => mid₁.failWith) fun _ => ?_
      refine mid₁.enter good (by omega) fun type s₂ pos₂ c d kids₂ mid₂ left lt right nested => ?_
      refine mid₂.touch (fun _ => ⟨⟨rfl, rfl⟩, rfl, rfl⟩) fun s₃ mid₃ => ?_
      refine mid₃.addChild (by omega) nested fun s₄ mid₄ => ?_
      refine mid₄.enter good (by omega) fun type s₅ pos₅ c d kids₅ mid₅ left lt right nested => ?_
      refine mid₅.addChild (by omega) nested fun s₆ mid₆ => ?_
      exact mid₆.grown (by omega)
    · refine wp_seq (tryParseFnTypeNamedParamGroup_spec mid good behind) ?_
      rintro consumed s₁ ⟨pos₁, b₁, kids₁, mid₁, later⟩
      refine wp_ite (fun no => ?_) fun yes => ?_
      · have stays : consumed = false := by simpa using no
        simp only [stays, Bool.false_eq_true, if_false] at later
        refine mid₁.enter good (by omega) fun type s₂ pos₂ c d kids₂ mid₂ left lt right nested => ?_
        refine mid₂.addChild (by omega) nested fun s₃ mid₃ => ?_
        exact mid₃.grown (by omega)
      · have moved : consumed = true := by simpa using yes
        simp only [moved, if_true] at later
        exact mid₁.grown later

theorem parseFnType_closed (ends : p.EndsWithEof) (inside : s.pos < p.tokLen) (good : Good p enter s.pos) :
    Closed p 0 (p.parseFnType enter) s := by
  have start := Mid.start 0 ends inside
  refine start.expect (.plain rfl) fun s₁ mid₁ _ => ?_
  refine mid₁.expect .lparen fun s₂ mid₂ _ => ?_
  refine mid₂.newSpan (by omega) fun fn s₃ mid₃ => ?_
  have finish {s' : ParseState} {pos' b : Nat} {kids : Chain} (mid : Mid p 0 s.nodes s.pos s' pos' 1 [.cons fn s.pos b kids .nil])
      (later : s.pos < pos') :
      wp (p.expect .RPAREN .EXPECTED_TYPE >>= fun rp => p.setEnd fn rp.stop >>= fun _ => p.peek >>= fun t =>
        if isTypeStart t.kind = true then
          enter .type >>= fun resultType => p.setFlags resultType 1 >>= fun _ => p.addChild fn resultType >>= fun _ =>
            p.node resultType >>= fun result => p.setEnd fn result.stop >>= fun _ => Pure.pure fn
        else Pure.pure fn) s' (Made p 0 s.nodes s.pos 0 [] s.pos) (Keeps s.nodes) := by
    refine mid.expect .rparen fun s₁ mid₁ _ => ?_
    refine mid₁.endAt (by omega) fun s₂ mid₂ => mid₂.peek (wp_ite (fun _ => ?_) fun _ => ?_)
    · have old := mid₂.kids
      refine mid₂.enter good (by omega) fun type s₃ pos₃ c d kids₃ mid₃ left lt right nested => ?_
      refine mid₃.touch (fun _ => ⟨⟨rfl, rfl⟩, rfl, rfl⟩) fun s₄ mid₄ => ?_
      refine mid₄.addChild (by omega) nested fun s₅ mid₅ => ?_
      refine mid₅.node ⟨_, List.mem_cons_self .., .inr (.inl (Chain.has_append.mpr (.inr Chain.has_self)))⟩ fun n fits => ?_
      refine mid₅.setEnd (fits.2.mono (by omega)) (by omega) fun s₆ mid₆ => ?_
      refine mid₆.made (Nat.le_refl _) (Chain.Nested.append (old.mono (Nat.le_refl _) (by omega)) ?_)
      exact ⟨⟨by omega, lt, Nat.le_refl d⟩, nested, trivial⟩
    · exact mid₂.made (Nat.le_refl _) mid₂.kids
  refine mid₃.ifNotAt (fun _ => ?_) fun _ => finish mid₃ (by omega)
  refine wp_grown (mid₃.rounds false ?_) fun _ s₄ pos₄ b₄ kids₄ mid₄ later => finish mid₄ (by omega)
  intro sawVariadic s' pos' b kids mid later
  refine wp_grown (parseFnTypeParam_spec mid good (by omega)) fun sawVariadic' s₁ pos₁ b₁ kids₁ mid₁ later₁ => ?_
  refine mid₁.ifMatch turns_comma (fun s₂ mid₂ _ => ?_) fun _ => mid₁.grown (by omega)
  exact wp_ite (fun _ => mid₂.failWith) fun _ => mid₂.grown (by omega)

/-- The types that a list has made, each a loose tree. -/
def Row (lo : Nat) : List Nat → List Chain → Prop :=
  List.Forall₂ fun n c => ∃ a b kids, c = .cons n a b kids .nil ∧ lo ≤ a ∧ kids.Nested a b

theorem Row.mono {lo lo' : Nat} {items : List Nat} {cs : List Chain} (row : Row lo items cs) (le : lo' ≤ lo) :
    Row lo' items cs :=
  List.Forall₂.imp (fun _ _ ⟨a, b, kids, same, left, nested⟩ => ⟨a, b, kids, same, by omega, nested⟩) row

/-- The items of a list are loose trees, made up to a place from `later` on. -/
def Listed (p : Parser) (k₀ : Nat) (N₀ : List AstNode) (pos₀ k : Nat) (F : List Chain) (lo later : Nat)
    (items : List Nat) (s : ParseState) : Prop :=
  ∃ pos cs, Mid p k₀ N₀ pos₀ s pos k (cs ++ F) ∧ Row lo items cs ∧ later ≤ pos

/-- One more item of a list. -/
theorem pushItem_spec {item : Parse Nat} {items : List Nat} {cs : List Chain} {lo later : Nat}
    (mid : Mid p k₀ N₀ pos₀ s pos k (cs ++ F)) (row : Row lo items cs) (le : lo ≤ later)
    (spec : wp item s (Made p k₀ N₀ pos₀ k (cs ++ F) later) (Keeps N₀)) :
    wp (p.pushItem item items) s (Listed p k₀ N₀ pos₀ k F lo later) (Keeps N₀) := by
  refine wp_ite (fun _ => mid.failWith) fun _ => wp_made spec fun n s₁ pos₁ a b kids mid₁ left lt right nested => ?_
  refine ⟨pos₁, cs ++ [.cons n a b kids .nil], mid₁.perm ?_,
    List.rel_append row (.cons ⟨a, b, kids, rfl, by omega, nested⟩ .nil), by omega⟩
  rw [List.append_assoc]
  exact (perm_front cs).symm

/-- One more item of a list, which a production makes. -/
theorem enterItem_spec {production : Production} [anywhere : Fact production.Anywhere] {items : List Nat} {lo later : Nat} (good : Good p enter g)
    (behind : g < later) (le : lo ≤ later)
    (listed : Listed p k₀ N₀ pos₀ k F lo later items s) :
    wp (p.pushItem (enter production) items) s
      (fun items' s' => Listed p k₀ N₀ pos₀ k F lo later items' s' ∧ s.pos ≤ s'.pos) (Keeps N₀) := by
  obtain ⟨pos, cs, mid, row, forward⟩ := listed
  have here := mid.here
  have item := mid.closed (good production s (by omega) (here ▸ mid.inside) (anywhere.out.2 _)) (anywhere.out.1 ▸ Nat.zero_le k)
  refine wp_mono (pushItem_spec mid row (by omega) item) ?_ fun _ kept => kept
  rintro items' s' ⟨pos', cs', mid', row', later'⟩
  have there := mid'.here
  exact ⟨⟨pos', cs', mid', row', by omega⟩, by omega⟩

theorem Listed.inside {lo later : Nat} {items : List Nat} (listed : Listed p k₀ N₀ pos₀ k F lo later items s) :
    s.pos < p.tokLen := by
  obtain ⟨pos, cs, mid, _, _⟩ := listed
  exact mid.here ▸ mid.inside

theorem Listed.comma {lo later : Nat} {items : List Nat} (listed : Listed p k₀ N₀ pos₀ k F lo later items s)
    (comma : (p.tokAt s.pos).kind = .COMMA) :
    Listed p k₀ N₀ pos₀ k F lo later items { s with pos := s.pos + 1 } := by
  obtain ⟨pos, cs, mid, row, forward⟩ := listed
  rw [mid.here] at comma
  exact ⟨pos + 1, cs, mid.step comma turns_comma, row, by omega⟩

/-- A list of items with commas between them, behind a first one. -/
theorem commaItems_spec {production : Production} [Fact production.Anywhere] {items : List Nat} {lo later : Nat} (good : Good p enter g)
    (behind : g < later) (le : lo ≤ later) (listed : Listed p k₀ N₀ pos₀ k F lo later items s) :
    wp (p.commaLoop (p.pushItem (enter production)) items) s (Listed p k₀ N₀ pos₀ k F lo later) (Keeps N₀) :=
  wp_commaLoop listed (fun _ _ => Listed.inside) (fun _ _ => Listed.comma)
    fun _ _ => enterItem_spec good behind le

theorem whileCommaItems_spec {production : Production} [Fact production.Anywhere] {items : List Nat} {lo later : Nat} (good : Good p enter g)
    (behind : g < later) (le : lo ≤ later) (listed : Listed p k₀ N₀ pos₀ k F lo later items s) :
    wp (p.whileComma (p.pushItem (enter production)) items) s (Listed p k₀ N₀ pos₀ k F lo later) (Keeps N₀) :=
  wp_whileComma listed (fun _ _ => Listed.inside) (fun _ _ => Listed.comma)
    fun _ _ => enterItem_spec good behind le

/-- The items of a list become the children of a node. -/
theorem addChildren_spec {n a b : Nat} {kids : Chain} {items : List Nat} {cs : List Chain} (row : Row a items cs)
    (mid : Mid p k₀ N₀ pos₀ s pos k (cs ++ .cons n a b kids .nil :: F)) :
    wp (p.addChildren n items) s (fun _ s' => ∃ kids, Mid p k₀ N₀ pos₀ s' pos k (.cons n a b kids .nil :: F)) E := by
  induction row generalizing s kids with
  | nil => exact ⟨kids, mid⟩
  | cons item row ih =>
    obtain ⟨c, d, kids', rfl, left, nested⟩ := item
    have front := mid.perm ((perm_front _).cons _)
    refine front.addChild left nested fun s₁ mid₁ => ?_
    exact ih (mid₁.perm (perm_front _).symm)

theorem parseTupleType_closed (ends : p.EndsWithEof) (inside : s.pos < p.tokLen) (good : Good p enter s.pos) :
    Closed p 0 (p.parseTupleType enter) s := by
  have start := Mid.start 0 ends inside
  refine start.expect .lparen fun s₁ mid₁ _ => ?_
  refine mid₁.enter good (by omega) fun first s₂ pos₂ a b kids mid₂ left lt right nested => ?_
  refine mid₂.ifNotMatch turns_comma (fun _ => mid₂.failWith) fun s₃ mid₃ _ => ?_
  have listed : Listed p 0 s.nodes s.pos 1 [] s.pos (s.pos + 1) [first] s₃ :=
    ⟨_, [_], mid₃, .cons ⟨a, b, kids, rfl, by omega, nested⟩ .nil, by omega⟩
  refine wp_seq (commaItems_spec good (by omega) (by omega) listed) ?_
  rintro items s₄ ⟨pos₄, cs, mid₄, row, later⟩
  refine mid₄.expect .rparen fun s₅ mid₅ _ => ?_
  refine mid₅.newSpan (by omega) fun n s₆ mid₆ => ?_
  have front := mid₆.perm (perm_front cs).symm
  refine wp_seq (addChildren_spec row front) ?_
  rintro _ s₇ ⟨kids₇, mid₇⟩
  exact mid₇.made (Nat.le_refl _) mid₇.kids

theorem expectDeclName_spec {allowHole : Bool} (mid : Mid p k₀ N₀ pos₀ s pos k F) :
    wp (p.expectDeclName allowHole) s (fun t s' => Mid p k₀ N₀ pos₀ s' (pos + 1) k F ∧ t = p.tokAt pos)
      (fun s' => ∃ pos', Mid p k₀ N₀ pos₀ s' pos' k F ∧ pos ≤ pos') := by
  refine wp_bind.mpr (mid.ifAt (fun ident => mid.peek ?_) fun _ => ?_)
  · have further := mid.step ident turns_ident
    refine wp_ite (fun _ => ?_) fun _ => wp_ite (fun _ => ?_) fun _ => ⟨further, rfl⟩
    · exact ⟨pos + 1, further.congr rfl rfl, Nat.le_succ pos⟩
    · exact ⟨pos + 1, further.congr rfl rfl, Nat.le_succ pos⟩
  · exact ⟨pos, mid.congr rfl rfl, Nat.le_refl pos⟩

/-- The names of a group of results take tokens and build nothing, also when they stop at a name that is refused. -/
theorem resultNames_spec (mid : Mid p k₀ N₀ pos₀ s pos k F) :
    wp p.resultNames s (fun _ s' => ∃ pos', Mid p k₀ N₀ pos₀ s' pos' k F ∧ pos ≤ pos') (Keeps N₀) := by
  refine wp_rounds (I := fun _ s' => ∃ pos', Mid p k₀ N₀ pos₀ s' pos' k F ∧ pos ≤ pos') ⟨pos, mid, Nat.le_refl pos⟩
    ?_ ?_
  · rintro _ s' ⟨pos', mid', _⟩
    exact mid'.here ▸ mid'.inside
  · rintro nameCount s' ⟨pos', mid', later⟩
    have before := mid'.here
    refine wp_bind.mpr (wp_attempt.mpr (wp_mono (expectDeclName_spec mid') ?_ ?_))
    · rintro _ s₁ ⟨mid₁, _⟩
      refine mid₁.ifMatch turns_comma (fun s₂ mid₂ _ => ?_) fun _ => ⟨_, mid₁, by omega⟩
      have behind := mid₂.here
      exact mid₂.ifAt (fun _ => ⟨⟨_, mid₂, by omega⟩, by omega⟩) fun _ => ⟨_, mid₂, by omega⟩
    · rintro s₁ ⟨pos₁, mid₁, later₁⟩
      exact ⟨pos₁, mid₁, by omega⟩

theorem parseResultGroup_spec (mid : Mid p k₀ N₀ pos₀ s pos k F) (good : Good p enter g) (behind : g < pos) :
    wp (p.parseResultGroup enter) s (fun r s' => match r with
      | some (nameCount, type) => 0 < nameCount ∧ Made p k₀ N₀ pos₀ k F pos type s'
      | none => Mid p k₀ N₀ pos₀ s' pos k F) (Keeps N₀) := by
  refine mid.ifAt (fun _ => wp_get_bind ?_) fun _ => mid
  refine wp_seq (wp_mono (resultNames_spec mid.fresh) (fun _ _ made => made)
    fun _ kept => mid.owns.kept.trans kept) ?_
  rintro nameCount s₁ ⟨pos₁, mid₁, later⟩
  refine mid₁.peek (wp_ite (fun grouped => ?_) fun _ => ?_)
  · have type := good .type s₁ (by rw [mid₁.here]; omega) (by rw [mid₁.here]; exact mid₁.inside) trivial
    refine wp_try type (fun type s₂ made => ⟨grouped.1, ?_⟩) fun s₂ kept => ?_
    · obtain ⟨pos', a, b, kids, rest⟩ := mid.made_fresh (mid₁.join_made made (Nat.zero_le _)) later
      exact ⟨pos', a, b, kids, rest.1, by omega, rest.2.2⟩
    · refine mid.rewind (mid₁.owns.kept.trans kept) fun s₃ mid₃ _ => mid₃
  · exact mid.rewind mid₁.keeps fun s₃ mid₃ _ => mid₃

theorem pushGroupTypes_spec {type c d nameCount lo : Nat} {kids : Chain} {items : List Nat} {cs : List Chain}
    (mid : Mid p k₀ N₀ pos₀ s pos k (.cons type c d kids .nil :: (cs ++ F))) (row : Row lo items cs) (left : lo ≤ c)
    (nested : kids.Nested c d) (some : 0 < nameCount) :
    wp (p.pushGroupTypes type nameCount items) s (Listed p k₀ N₀ pos₀ k F lo pos) (Keeps N₀) := by
  have range := mid.range
  refine wp_loop_succ (wp_ite (fun none => absurd none (by omega)) fun _ => ?_)
  refine wp_bind.mpr (wp_ite (fun _ => mid.failWith) fun _ => ?_)
  refine wp_loop (I := fun r s' => 0 < r.1 ∧ r.1 ≤ nameCount ∧ ∃ cs, Mid p k₀ N₀ pos₀ s' pos k (cs ++ F) ∧
    Row lo r.2 cs ∧ .cons type c d kids .nil ∈ cs) (d := fun r _ => nameCount - r.1) ?_ ?_ (by simp; omega)
  · rintro ⟨i, items'⟩ s' ⟨positive, bound, cs', mid', row', member⟩
    refine wp_ite (fun _ => ⟨pos, cs', mid', row', Nat.le_refl pos⟩) fun notLast => ?_
    refine wp_bind.mpr (wp_ite (fun _ => mid'.failWith) fun _ => wp_bind.mpr (wp_ite (fun zero => ?_) fun _ => wp_bind.mp ?_))
    · exact absurd zero (by simp only at positive; omega)
    refine clone_mid mid' ⟨_, List.mem_append_left _ member, Chain.has_self⟩ nested range fun n s₁ kids₁ mid₁ nested₁ => ?_
    have further : 0 < i + 1 ∧ i + 1 ≤ nameCount := ⟨Nat.succ_pos i, by simp only at bound; omega⟩
    refine ⟨⟨further.1, further.2, cs' ++ [.cons n c d kids₁ .nil], mid₁.perm ?_, ?_, ?_⟩, by simp only at bound ⊢; omega⟩
    · rw [List.append_assoc]
      exact (perm_front cs').symm
    · exact List.rel_append row' (.cons ⟨c, d, kids₁, rfl, left, nested₁⟩ .nil)
    · exact List.mem_append_left _ member
  · refine ⟨Nat.one_pos, some, cs ++ [.cons type c d kids .nil], mid.perm ?_, ?_, by simp⟩
    · rw [List.append_assoc]
      exact (perm_front cs).symm
    · exact List.rel_append row (.cons ⟨c, d, kids, rfl, left, nested⟩ .nil)

theorem parseFnResultClause_spec {fn a b : Nat} {kids : Chain}
    (mid : Mid p k₀ N₀ pos₀ s pos k (.cons fn a b kids .nil :: F)) (good : Good p enter g) (behind : g ≤ pos) :
    wp (p.parseFnResultClause enter fn) s (fun _ => Grown p k₀ N₀ pos₀ k F fn a pos) (Keeps N₀) := by
  have range := mid.range
  refine mid.expect .lparen fun s₁ mid₁ _ => mid₁.ifAt (fun _ => mid₁.failWith) fun _ => ?_
  have none : Listed p k₀ N₀ pos₀ (k + 1) (.cons fn a b kids .nil :: F) (pos + 1) (pos + 1) [] s₁ :=
    ⟨_, [], mid₁, .nil, Nat.le_refl _⟩
  refine wp_seq (wp_commaLoop none (fun _ _ => Listed.inside) (fun _ _ => Listed.comma) ?_) ?_
  · rintro items s₂ ⟨pos₂, cs, mid₂, row, later⟩
    have here := mid₂.here
    refine wp_seq (parseResultGroup_spec mid₂ good (by omega)) ?_
    rintro (_ | ⟨nameCount, type⟩) s₃ result
    · have there := result.here
      have item := result.closed (good .type s₃ (by omega) (there ▸ result.inside) trivial) (Nat.zero_le _)
      refine wp_mono (pushItem_spec result row (by omega) item) ?_ fun _ kept => kept
      rintro items' s₄ ⟨pos₄, cs', mid₄, row', later'⟩
      have behind := mid₄.here
      exact ⟨⟨pos₄, cs', mid₄, row', by omega⟩, by omega⟩
    · obtain ⟨some, pos₃, c, d, kids₃, mid₃, left, lt, right, nested⟩ := result
      refine wp_mono (pushGroupTypes_spec mid₃ row (by omega) nested some) ?_ fun _ kept => kept
      rintro items' s₄ ⟨pos₄, cs', mid₄, row', later'⟩
      have behind := mid₄.here
      exact ⟨⟨pos₄, cs', mid₄, row', by omega⟩, by omega⟩
  rintro items s₂ ⟨pos₂, cs, mid₂, row, later⟩
  have range' : a ≤ pos := by omega
  refine mid₂.expect .rparen fun s₃ mid₃ _ => ?_
  have add {s' : ParseState} {n c d : Nat} {kids' : Chain}
      (mid' : Mid p k₀ N₀ pos₀ s' (pos₂ + 1) k (.cons n c d kids' .nil :: .cons fn a b kids .nil :: F)) (left : a ≤ c)
      (nested : kids'.Nested c d) :
      wp (p.setFlags n 1 >>= fun _ => p.addChild fn n >>= fun _ => p.node n >>= fun result => p.setEnd fn result.stop)
        s' (fun _ => Grown p k₀ N₀ pos₀ k F fn a pos) (Keeps N₀) := by
    have inner := mid'.range
    refine mid'.touch (fun _ => ⟨⟨rfl, rfl⟩, rfl, rfl⟩) fun s₄ mid₄ => ?_
    refine mid₄.addChild left nested fun s₅ mid₅ => ?_
    refine mid₅.node ⟨_, List.mem_cons_self .., .inr (.inl (Chain.has_append.mpr (.inr Chain.has_self)))⟩ fun n fits => ?_
    refine wp_bind_pure.mp (mid₅.setEnd (fits.2.mono left) (by omega) fun s₆ mid₆ => ?_)
    exact mid₆.grown (by omega)
  rcases items with _ | ⟨first, _ | ⟨second, items⟩⟩
  · exact mid₃.failWith
  · rcases row with _ | ⟨⟨c, d, kids₁, same, left, nested⟩, _⟩
    rename_i none
    cases none
    subst same
    exact add mid₃ (by omega) nested
  · refine mid₃.newSpan (by omega) fun n s₄ mid₄ => ?_
    have front := mid₄.perm (perm_front cs).symm
    refine wp_seq (addChildren_spec (row.mono (Nat.le_succ pos)) front) ?_
    rintro _ s₅ ⟨kids₅, mid₅⟩
    exact add mid₅ range' mid₅.kids

/-- Tokens that stand between two places, in their order. -/
def NamesIn (p : Parser) (lo hi : Nat) (names : List Token) : Prop :=
  ∃ places : List Nat, names = places.map p.tokAt ∧ places.Pairwise (· < ·) ∧ ∀ i ∈ places, lo ≤ i ∧ i < hi

theorem NamesIn.one (i : Nat) : NamesIn p i (i + 1) [p.tokAt i] :=
  ⟨[i], rfl, List.pairwise_singleton _ i, by simp⟩

theorem NamesIn.push {lo hi i : Nat} {names : List Token} (among : NamesIn p lo hi names) (behind : hi ≤ i)
    (after : lo ≤ i) : NamesIn p lo (i + 1) (names ++ [p.tokAt i]) := by
  obtain ⟨places, rfl, sorted, bounds⟩ := among
  refine ⟨places ++ [i], by simp, ?_, ?_⟩
  · refine List.pairwise_append.mpr ⟨sorted, List.pairwise_singleton _ i, ?_⟩
    intro j member j' last
    have bound := bounds j member
    rw [List.mem_singleton.mp last]
    omega
  · intro j member
    rcases List.mem_append.mp member with old | last
    · have bound := bounds j old
      omega
    · rw [List.mem_singleton.mp last]
      omega

theorem NamesIn.mem {lo hi : Nat} {names : List Token} (among : NamesIn p lo hi names) {t : Token} (member : t ∈ names) :
    ∃ i, t = p.tokAt i ∧ lo ≤ i ∧ i < hi := by
  obtain ⟨places, rfl, _, bounds⟩ := among
  obtain ⟨i, inside, rfl⟩ := List.mem_map.mp member
  exact ⟨i, rfl, bounds i inside⟩

/-- A group of names takes tokens and builds nothing. -/
def Named (p : Parser) (k₀ : Nat) (N₀ : List AstNode) (pos₀ k : Nat) (F : List Chain) (lo : Nat) (names : List Token)
    (s : ParseState) : Prop :=
  ∃ pos, Mid p k₀ N₀ pos₀ s pos k F ∧ lo < pos ∧ NamesIn p lo pos names ∧ names ≠ []

/-- A name with further names behind commas. -/
theorem names_spec {allowHole : Bool} {f : List Token → Parse (List Token)} (mid : Mid p k₀ N₀ pos₀ s pos k F)
    (each : ∀ names s' pos', Mid p k₀ N₀ pos₀ s' pos' k F → wp (f names) s'
      (fun names' s'' => Mid p k₀ N₀ pos₀ s'' (pos' + 1) k F ∧ names' = names ++ [p.tokAt pos']) (Keeps N₀)) :
    wp (p.expectDeclName allowHole >>= fun first => p.whileComma f [first]) s (Named p k₀ N₀ pos₀ k F pos)
      (Keeps N₀) := by
  refine mid.expectDeclName fun s₁ mid₁ _ => ?_
  refine wp_whileComma (I := Named p k₀ N₀ pos₀ k F pos) ⟨pos + 1, mid₁, Nat.lt_succ_self pos, .one pos, by simp⟩
    ?_ ?_ ?_
  · rintro names s' ⟨pos', mid', _⟩
    exact mid'.here ▸ mid'.inside
  · rintro names s' ⟨pos', mid', later, among, some⟩ comma
    rw [mid'.here] at comma
    obtain ⟨places, same, sorted, bounds⟩ := among
    refine ⟨pos' + 1, mid'.step comma turns_comma, by omega, ⟨places, same, sorted, fun i member => ?_⟩, some⟩
    have bound := bounds i member
    omega
  · rintro names s' ⟨pos', mid', later, among, some⟩
    refine wp_mono (each names s' pos' mid') ?_ fun _ kept => kept
    rintro _ s'' ⟨mid'', rfl⟩
    have here := mid'.here
    have there := mid''.here
    exact ⟨⟨pos' + 1, mid'', by omega, among.push (Nat.le_refl _) (by omega), by simp⟩, by omega⟩

theorem fieldNames_spec {code : DiagCode} (mid : Mid p k₀ N₀ pos₀ s pos k F) :
    wp (p.fieldNames code) s (Named p k₀ N₀ pos₀ k F pos) (Keeps N₀) := by
  refine names_spec mid fun names s' pos' mid' => mid'.ifAt (fun _ => ?_) fun _ => mid'.failWith
  refine wp_ite (fun _ => mid'.failWith) fun _ => ?_
  exact mid'.expectDeclName fun s'' mid'' _ => ⟨mid'', rfl⟩

/-- What may follow in a list of fields or children: nothing, or one more tree from a place on. -/
def MadeOption (p : Parser) (k₀ : Nat) (N₀ : List AstNode) (pos₀ pos k : Nat) (F : List Chain) :
    Option Nat → ParseState → Prop
  | none, s => Mid p k₀ N₀ pos₀ s pos k F
  | some n, s => Made p k₀ N₀ pos₀ k F pos n s

theorem parseFieldDefault_spec {single : Bool} (mid : Mid p k₀ N₀ pos₀ s pos k F) (good : Good p enter g)
    (behind : g ≤ pos) :
    wp (p.parseFieldDefault enter single) s (MadeOption p k₀ N₀ pos₀ pos k F) (Keeps N₀) := by
  refine mid.ifMatch (.plain rfl) (fun s₁ mid₁ _ => wp_ite (fun _ => ?_) fun _ => ?_) fun _ => mid
  · refine mid₁.enter good (by omega) fun n s₂ pos₂ a b kids mid₂ left lt right nested => ?_
    exact ⟨pos₂, a, b, kids, mid₂, by omega, lt, right, nested⟩
  · exact mid₁.prev mid₁.keeps

/-- A field with its type becomes a child of its aggregate, which then holds the type. -/
theorem addField_spec {agg type i a b c d : Nat} {kids kids' : Chain}
    (mid : Mid p k₀ N₀ pos₀ s pos k (.cons type c d kids' .nil :: .cons agg a b kids .nil :: F)) (left : a ≤ i)
    (name : i < c) (nested : kids'.Nested c d) :
    wp (p.addField agg type (p.tokAt i) none) s
      (fun _ s' => ∃ more, Mid p k₀ N₀ pos₀ s' pos k (.cons agg a b (kids.append more) .nil :: F) ∧
        more.Has type c d kids') (Keeps N₀) := by
  have range := mid.range
  have outer := mid.swap.range
  refine mid.node ⟨_, List.mem_cons_self .., Chain.has_self⟩ fun n fits => ?_
  refine mid.newNode rfl (fits.2.mono (Nat.le_of_lt name)) (by omega) fun field s₁ mid₁ => ?_
  refine mid₁.touch (fun _ => ⟨⟨rfl, rfl⟩, rfl, rfl⟩) fun s₂ mid₂ => ?_
  refine mid₂.swap.addChild (Nat.le_of_lt name) nested fun s₃ mid₃ => ?_
  refine wp_bind_pure.mp (mid₃.addChild left ?_ fun s₄ mid₄ => ?_)
  · exact ⟨⟨by omega, by omega, Nat.le_refl d⟩, nested, trivial⟩
  · exact ⟨_, mid₄, .inr (.inl (Chain.has_append.mpr (.inr Chain.has_self)))⟩

theorem addField_default_spec {agg type default i a b c d x y : Nat} {kids kids' kids'' : Chain}
    (mid : Mid p k₀ N₀ pos₀ s pos k
      (.cons default x y kids'' .nil :: .cons type c d kids' .nil :: .cons agg a b kids .nil :: F))
    (left : a ≤ i) (name : i < c) (nested : kids'.Nested c d) (order : d ≤ x) (nested' : kids''.Nested x y) :
    wp (p.addField agg type (p.tokAt i) (some default)) s
      (fun _ s' => ∃ more, Mid p k₀ N₀ pos₀ s' pos k (.cons agg a b (kids.append more) .nil :: F) ∧
        more.Has type c d kids') (Keeps N₀) := by
  have range := mid.range
  have middle := mid.swap.range
  have outer := (mid.perm (perm_front [_, _])).range
  refine mid.node ⟨_, List.mem_cons_of_mem _ (List.mem_cons_self ..), Chain.has_self⟩ fun n fits => ?_
  refine mid.newNode rfl (fits.2.mono (Nat.le_of_lt name)) (by omega) fun field s₁ mid₁ => ?_
  refine mid₁.touch (fun _ => ⟨⟨rfl, rfl⟩, rfl, rfl⟩) fun s₂ mid₂ => ?_
  refine (mid₂.perm (perm_front [_, _])).addChild (Nat.le_of_lt name) nested fun s₃ mid₃ => ?_
  refine mid₃.node ⟨_, List.mem_cons_of_mem _ (List.mem_cons_self ..), Chain.has_self⟩ fun n fits => ?_
  refine mid₃.setEnd (fits.2.mono (by omega)) (by omega) fun s₄ mid₄ => ?_
  refine mid₄.swap.addChild (by omega) nested' fun s₅ mid₅ => ?_
  refine wp_bind_pure.mp (mid₅.addChild left ?_ fun s₆ mid₆ => ?_)
  · refine Chain.Nested.append ?_ ⟨⟨by omega, by omega, Nat.le_refl y⟩, nested', trivial⟩
    exact ⟨⟨by omega, by omega, by omega⟩, nested, trivial⟩
  · refine ⟨_, mid₆, .inr (.inl ?_)⟩
    exact Chain.has_append.mpr (.inl (Chain.has_append.mpr (.inr Chain.has_self)))

/-- Fields for all names of a group: the first has the type itself, the others a copy. -/
theorem addFields_spec {agg type a b c d lo : Nat} {kids kids' : Chain} {names : List Token} {default : Option Nat}
    (first : ∀ i, lo ≤ i → i < c → wp (p.addField agg type (p.tokAt i) default) s
      (fun _ s' => ∃ more, Mid p k₀ N₀ pos₀ s' pos k (.cons agg a b (kids.append more) .nil :: F) ∧
        more.Has type c d kids') (Keeps N₀))
    (nested : kids'.Nested c d) (among : NamesIn p lo c names) (some : names ≠ []) (left : a ≤ lo)
    (range : pos₀ ≤ c ∧ c < d ∧ d ≤ pos) :
    wp (p.addFields agg type default names) s (fun _ => Grown p k₀ N₀ pos₀ k F agg a pos) (Keeps N₀) := by
  obtain ⟨name, rest, rfl⟩ := List.exists_cons_of_ne_nil some
  obtain ⟨i, rfl, after, before⟩ := among.mem (List.mem_cons_self ..)
  refine wp_seq (first i after before) ?_
  rintro _ s₁ ⟨more, mid₁, has⟩
  refine wp_mono (wp_forEach (I := fun s' => ∃ kids, Mid p k₀ N₀ pos₀ s' pos k (.cons agg a b kids .nil :: F) ∧
    kids.Has type c d kids') ⟨_, mid₁, Chain.has_append.mpr (.inr has)⟩ ?_) ?_ fun _ kept => kept
  · rintro t member s₂ ⟨kids₂, mid₂, has⟩
    obtain ⟨j, rfl, after, before⟩ := among.mem (List.mem_cons_of_mem _ member)
    refine clone_mid mid₂ ⟨_, List.mem_cons_self .., .inr (.inl has)⟩ nested range fun n s₃ kids₃ mid₃ nested₃ => ?_
    refine wp_mono (addField_spec mid₃ (by omega) before nested₃) ?_ fun _ kept => kept
    rintro _ s₄ ⟨more, mid₄, _⟩
    exact ⟨_, mid₄, Chain.has_append.mpr (.inl has)⟩
  · rintro _ s₂ ⟨kids₂, mid₂, _⟩
    exact mid₂.grown (Nat.le_refl pos)

/-- A group of names becomes fields of an aggregate, with the type and the default behind them. -/
theorem group_spec {agg type a b c d lo pos₁ : Nat} {kids kids' : Chain} {names : List Token} {default : Option Nat}
    (typed : Mid p k₀ N₀ pos₀ s pos₁ k (.cons type c d kids' .nil :: .cons agg a b kids .nil :: F))
    {s' : ParseState} (made : MadeOption p k₀ N₀ pos₀ pos₁ k
      (.cons type c d kids' .nil :: .cons agg a b kids .nil :: F) default s')
    (nested : kids'.Nested c d) (among : NamesIn p lo pos names) (some : names ≠ []) (left : a ≤ lo)
    (order : pos ≤ c) :
    wp (p.addFields agg type default names) s' (fun _ => Grown p k₀ N₀ pos₀ k F agg a pos₁) (Keeps N₀) := by
  have range := typed.range
  have named : NamesIn p lo c names := by
    obtain ⟨places, same, sorted, bounds⟩ := among
    exact ⟨places, same, sorted, fun i member => by have bound := bounds i member; omega⟩
  cases default with
  | none =>
    have add (i : Nat) (after : lo ≤ i) (name : i < c) := addField_spec (i := i) made (by omega) name nested
    exact addFields_spec add nested named some left range
  | some default =>
    obtain ⟨pos₃, x, y, kids₃, mid₃, left₃, lt₃, right₃, nested₃⟩ := made
    have add (i : Nat) (after : lo ≤ i) (name : i < c) :=
      addField_default_spec (i := i) mid₃ (by omega) name nested (by omega) nested₃
    refine wp_mono (addFields_spec add nested named some left (by omega)) ?_ fun _ kept => kept
    rintro _ s₄ ⟨pos₄, b₄, kids₄, mid₄, later₄⟩
    exact ⟨pos₄, b₄, kids₄, mid₄, by omega⟩

theorem parseAnonymousAggregateFieldDeclList_spec {agg a b : Nat} {kids : Chain}
    (mid : Mid p k₀ N₀ pos₀ s pos (k + 1) (.cons agg a b kids .nil :: F)) (good : Good p enter g) (behind : g ≤ pos) :
    wp (p.parseAnonymousAggregateFieldDeclList enter agg) s (fun _ => Grown p k₀ N₀ pos₀ (k + 1) F agg a pos)
      (Keeps N₀) := by
  have range := mid.range
  refine mid.rounds () fun _ s' pos' b kids mid later => ?_
  refine mid.ifEither (mid.grown later) fun _ _ => ?_
  refine mid.ifMatch .semicolon (fun s₁ mid₁ _ => mid₁.grown (Nat.le_refl _)) fun _ => ?_
  refine wp_seq (fieldNames_spec mid) ?_
  rintro names s₁ ⟨pos₁, mid₁, later₁, among, some⟩
  refine mid₁.enter good (by omega) fun type s₂ pos₂ c d kids₂ mid₂ left lt right nested => ?_
  refine wp_seq (parseFieldDefault_spec mid₂ good (by omega)) fun default s₃ made => ?_
  refine wp_grown (group_spec mid₂ made nested among some (by omega) left) fun _ s₄ pos₄ b₄ kids₄ mid₄ later₄ => ?_
  refine mid₄.ifMatch .semicolon (fun s₅ mid₅ _ => mid₅.grown (by omega)) fun _ => ?_
  exact mid₄.ifEither (mid₄.grown (by omega)) fun _ _ => mid₄.failWith

theorem parseAnonymousAggregateType_closed (ends : p.EndsWithEof) (inside : s.pos < p.tokLen)
    (good : Good p enter s.pos) : Closed p 0 (p.parseAnonymousAggregateType enter) s := by
  have start := Mid.start 0 ends inside
  have body {s₁ : ParseState} {pos₁ : Nat} (kw : Option Token) (mid : Mid p 0 s.nodes s.pos s₁ pos₁ 0 [])
      (later : s.pos ≤ pos₁) (first : kw.getD (p.tokAt pos₁) = p.tokAt s.pos) (kind : AstKind) :
      wp (p.expect .LBRACE .EXPECTED_TYPE >>= fun lb => p.newNode kind (kw.getD lb).start lb.stop >>= fun typeNode =>
        p.parseAnonymousAggregateFieldDeclList enter typeNode >>= fun _ =>
        p.expect .RBRACE .EXPECTED_TYPE >>= fun rb => p.setEnd typeNode rb.stop >>= fun _ => Pure.pure typeNode) s₁
        (Made p 0 s.nodes s.pos 0 [] s.pos) (Keeps s.nodes) := by
    refine mid.expect .lbrace fun s₂ mid₂ _ => ?_
    rw [first]
    refine mid₂.newSpan (by omega) fun n s₃ mid₃ => ?_
    refine wp_grown (parseAnonymousAggregateFieldDeclList_spec mid₃ good (by omega)) fun _ s₄ pos₄ b₄ kids₄ mid₄ later₄ => ?_
    refine mid₄.expect .rbrace fun s₅ mid₅ _ => ?_
    refine mid₅.endAt (by omega) fun s₆ mid₆ => ?_
    exact mid₆.made (Nat.le_refl _) mid₆.kids
  refine start.peek (wp_ite (fun keyword => ?_) fun _ => body none start (Nat.le_refl _) rfl _)
  have turns : Turns (p.tokAt s.pos).kind 0 0 := by
    rcases keyword with same | same <;> rw [same] <;> exact ⟨by decide, fun _ => rfl⟩
  refine start.advance rfl turns fun s₁ mid₁ => mid₁.prev ?_
  exact body (some _) mid₁ (by omega) rfl _

/-- A type behind its prefix token. -/
theorem parsePrefixType_spec {kind : AstKind} (mid : Mid p k₀ N₀ pos₀ s (pos + 1) k F) (after : pos₀ ≤ pos)
    (good : Good p enter g) (behind : g ≤ pos) :
    wp (p.parsePrefixType enter kind) s (Made p k₀ N₀ pos₀ k F pos) (Keeps N₀) := by
  refine mid.prev (mid.newSpan (by omega) fun n s₁ mid₁ => ?_)
  refine mid₁.enter good (by omega) fun child s₂ pos₂ c d kids₂ mid₂ left lt right nested => ?_
  refine mid₂.node ⟨_, List.mem_cons_self .., Chain.has_self⟩ fun node fits => ?_
  refine mid₂.swap.setEnd (fits.2.mono (by omega)) (by omega) fun s₃ mid₃ => ?_
  refine mid₃.swap.addChild (by omega) nested fun s₄ mid₄ => ?_
  exact mid₄.made (Nat.le_refl _) ⟨⟨by omega, lt, Nat.le_refl d⟩, nested, trivial⟩

theorem parseArrayLength_spec (mid : Mid p k₀ N₀ pos₀ s pos k F) (good : Good p enter g) (behind : g < pos) :
    wp (p.parseArrayLength enter) s (fun r s' => match r with
      | .inl _ => ∃ pos', Mid p k₀ N₀ pos₀ s' pos' k F ∧ pos ≤ pos'
      | .inr n => Made p k₀ N₀ pos₀ k F pos n s') (Keeps N₀) := by
  refine mid.ifMatch (.plain rfl) (fun s₁ mid₁ _ => ?_) fun _ => ?_
  · exact mid₁.expect turns_ident fun s₂ mid₂ _ => ⟨_, mid₂, by omega⟩
  · refine mid.enter good behind fun n s₁ pos₁ a b kids mid₁ left lt right nested => ?_
    exact ⟨pos₁, a, b, kids, mid₁, left, lt, right, nested⟩

/-- A slice or array type behind its bracket. -/
theorem parseBracketType_spec (mid : Mid p k₀ N₀ pos₀ s (pos + 1) (k + 1) F) (after : pos₀ ≤ pos)
    (good : Good p enter g) (behind : g ≤ pos) :
    wp (p.parseBracketType enter) s (Made p k₀ N₀ pos₀ k F pos) (Keeps N₀) := by
  refine mid.prev ?_
  refine mid.enter good (by omega) fun child s₁ pos₁ c d kids₁ mid₁ left lt right nested => ?_
  refine mid₁.ifMatch .rbrack (fun s₂ mid₂ _ => ?_) fun _ => ?_
  · refine mid₂.prev (mid₂.newSpan (by omega) fun n s₃ mid₃ => ?_)
    refine mid₃.swap.addChild (by omega) nested fun s₄ mid₄ => ?_
    exact mid₄.made (Nat.le_refl _) mid₄.kids
  · refine wp_seq (parseArrayLength_spec mid₁ good (by omega)) ?_
    rintro (nTok | lenExpr) s₂ result
    · obtain ⟨pos₂, mid₂, later⟩ := result
      refine mid₂.newSpan (by omega) fun n s₃ mid₃ => ?_
      refine mid₃.touch (fun _ => ⟨⟨rfl, rfl⟩, rfl, rfl⟩) fun s₄ mid₄ => ?_
      refine mid₄.expect .rbrack fun s₅ mid₅ _ => mid₅.endAt (by omega) fun s₆ mid₆ => ?_
      refine mid₆.swap.addChild (by omega) nested fun s₇ mid₇ => ?_
      exact mid₇.made (Nat.le_refl _) mid₇.kids
    · obtain ⟨pos₂, x, y, kids₂, mid₂, left₂, lt₂, right₂, nested₂⟩ := result
      refine mid₂.newSpan (by omega) fun n s₃ mid₃ => ?_
      refine mid₃.expect .rbrack fun s₄ mid₄ _ => mid₄.endAt (by omega) fun s₅ mid₅ => ?_
      refine (mid₅.perm (perm_front [_, _])).addChild (by omega) nested fun s₆ mid₆ => ?_
      refine mid₆.node ⟨_, List.mem_cons_of_mem _ (List.mem_cons_self ..), Chain.has_self⟩ fun _ _ => ?_
      refine wp_ite (fun _ => ?_) fun _ => ?_
      · -- a literal length stays loose: only its text is kept
        refine mid₆.touch (fun _ => ⟨⟨rfl, rfl⟩, rfl, rfl⟩) fun s₇ mid₇ => ?_
        have loose : (Chain.cons lenExpr x y kids₂ .nil).Nested 0 (p.tokLen - 1) :=
          ⟨⟨Nat.zero_le x, lt₂, Nat.le_sub_one_of_lt (Nat.lt_of_le_of_lt (by omega) mid₇.inside)⟩, nested₂, trivial⟩
        exact (mid₇.swap.drop loose).made (Nat.le_refl _) mid₇.kids
      · refine mid₆.touch (fun _ => ⟨⟨rfl, rfl⟩, rfl, rfl⟩) fun s₇ mid₇ => ?_
        refine mid₇.swap.addChild (by omega) nested₂ fun s₈ mid₈ => ?_
        exact mid₈.made (Nat.le_refl _) mid₈.kids

theorem parseType_closed (ends : p.EndsWithEof) (inside : s.pos < p.tokLen) (good : Good p enter s.pos) :
    Closed p 0 (p.parseType enter) s := by
  have start := Mid.start 0 ends inside
  have prefixed {kind : TokenKind} {made : AstKind} {y : Parse Nat} (turns : Turns kind 0 0)
      (no : Closed p 0 y s) : Closed p 0 (p.matchTok kind >>= fun b => if b = true then p.parsePrefixType enter made else y) s :=
    start.ifMatch turns (fun s₁ mid₁ _ => parsePrefixType_spec mid₁ (Nat.le_refl _) good (Nat.le_refl _)) fun _ => no
  refine prefixed (.plain rfl) ?_
  refine prefixed (.plain rfl) ?_
  refine prefixed (.plain rfl) ?_
  refine start.ifMatch (.plain rfl) (fun s₁ mid₁ _ => mid₁.failWith) fun _ => ?_
  refine start.ifAt (fun _ => parseTupleType_closed ends inside good) fun _ => ?_
  refine start.ifMatch .lbrack (fun s₁ mid₁ _ => parseBracketType_spec mid₁ (Nat.le_refl _) good (Nat.le_refl _)) fun _ => ?_
  refine start.ifAt (fun _ => parseFnType_closed ends inside good) fun _ => ?_
  refine start.isAt (start.isAt (start.isAt (wp_ite (fun _ => ?_) fun _ => ?_)))
  · exact parseAnonymousAggregateType_closed ends inside good
  · exact parseTypeName_closed ends inside good

end

end Parser

end HopHop
