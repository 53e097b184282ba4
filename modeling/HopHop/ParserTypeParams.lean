import HopHop.ParserNames

namespace HopHop

open Prog

/-! The children that a list of type parameters adds to its owner, and how they are taken back. -/

/-- A link leads to a node of the table or nowhere. -/
def LinkInto (nodes : List AstNode) (link : Int) : Prop := link = -1 ∨ 0 ≤ link ∧ link < nodes.length

/-- All links of a table lead to its own nodes. -/
def Linked (nodes : List AstNode) : Prop :=
  ∀ i < nodes.length, LinkInto nodes (Parser.nodeAt nodes i).firstChild ∧
    LinkInto nodes (Parser.nodeAt nodes i).nextSibling

namespace Parser

variable {p : Parser}

theorem nodeAt_append_left {nodes more : List AstNode} {i : Nat} (inside : i < nodes.length) :
    nodeAt (nodes ++ more) i = nodeAt nodes i := by
  simp only [nodeAt, List.getD_eq_getElem?_getD, List.getElem?_append_left inside]

theorem nodeAt_append_new {nodes : List AstNode} {n : AstNode} : nodeAt (nodes ++ [n]) nodes.length = n := by
  simp only [nodeAt, List.getD_eq_getElem?_getD, List.getElem?_concat_length, Option.getD_some]

theorem nodeAt_modify_self {nodes : List AstNode} {i : Nat} {f : AstNode → AstNode} (inside : i < nodes.length) :
    nodeAt (nodes.modify i f) i = f (nodeAt nodes i) := by
  simp [nodeAt, List.getD_eq_getElem?_getD, inside]

theorem nodeAt_modify_other {nodes : List AstNode} {i j : Nat} {f : AstNode → AstNode} (other : i ≠ j) :
    nodeAt (nodes.modify i f) j = nodeAt nodes j := by
  simp [nodeAt, List.getD_eq_getElem?_getD, other]

/-- Behind the table a node leads nowhere. -/
theorem nextSibling_outside {nodes : List AstNode} {i : Nat} (outside : nodes.length ≤ i) :
    (nodeAt nodes i).nextSibling = -1 := by
  rw [nodeAt, List.getD_eq_getElem?_getD, List.getElem?_eq_none outside]
  rfl

theorem lastSibling_here {nodes : List AstNode} {room i : Nat} (last : (nodeAt nodes i).nextSibling < 0) :
    lastSibling nodes room i = some i := by
  cases room <;> rw [lastSibling, if_pos last]

/-- The last sibling leads nowhere. -/
theorem lastSibling_ends {nodes : List AstNode} {room i last : Nat} (found : lastSibling nodes room i = some last) :
    (nodeAt nodes last).nextSibling < 0 := by
  induction room generalizing i with
  | zero =>
    rw [lastSibling] at found
    split_ifs at found with ends
    cases found
    exact ends
  | succ room ih =>
    rw [lastSibling] at found
    split_ifs at found with ends
    · cases found
      exact ends
    · exact ih found

theorem lastSibling_inside {nodes : List AstNode} (linked : Linked nodes) {room i last : Nat}
    (inside : i < nodes.length) (found : lastSibling nodes room i = some last) : last < nodes.length := by
  induction room generalizing i with
  | zero =>
    rw [lastSibling] at found
    split_ifs at found
    cases found
    exact inside
  | succ room ih =>
    rw [lastSibling] at found
    split_ifs at found with ends
    · cases found
      exact inside
    · refine ih ?_ found
      have next := (linked i inside).2
      unfold LinkInto at next
      omega

/-- The chain of siblings in a table that differs from another one only at its end. -/
theorem lastSibling_onward {nodes longer : List AstNode} {room i last new : Nat}
    (same : ∀ j < nodes.length, j ≠ last → (nodeAt longer j).nextSibling = (nodeAt nodes j).nextSibling)
    (onward : ∀ room, lastSibling longer (room + 1) last = some new)
    (found : lastSibling nodes room i = some last) : lastSibling longer (room + 1) i = some new := by
  have stops := lastSibling_ends found
  induction room generalizing i with
  | zero =>
    rw [lastSibling] at found
    split_ifs at found
    cases found
    exact onward 0
  | succ room ih =>
    rw [lastSibling] at found
    split_ifs at found with here
    · cases found
      exact onward (room + 1)
    · have differs : i ≠ last := fun same => here (same ▸ stops)
      have within : i < nodes.length := by
        by_contra outside
        exact here (by rw [nextSibling_outside (by omega)]; decide)
      rw [lastSibling, same i within differs, if_neg here]
      exact ih found

/-- A new node at the end of the table is not in a chain that does not lead to it. -/
theorem lastSibling_append {nodes : List AstNode} {n : AstNode} {room i last : Nat} (inside : last < nodes.length)
    (found : lastSibling nodes room i = some last) : lastSibling (nodes ++ [n]) (room + 1) i = some last := by
  refine lastSibling_onward (fun j within _ => by rw [nodeAt_append_left within]) (fun room => ?_) found
  refine lastSibling_here ?_
  rw [nodeAt_append_left inside]
  exact lastSibling_ends found

/-- A chain whose last sibling is made to lead on to a new node, which leads nowhere. -/
theorem lastSibling_longer {nodes : List AstNode} {n : AstNode} {room i last : Nat} (leaf : n.nextSibling = -1)
    (inside : last < nodes.length) (found : lastSibling nodes room i = some last) :
    lastSibling ((nodes ++ [n]).modify last fun m => { m with nextSibling := nodes.length }) (room + 1) i =
      some nodes.length := by
  refine lastSibling_onward (fun j within differs => ?_) (fun room => ?_) found
  · rw [nodeAt_modify_other (Ne.symm differs), nodeAt_append_left within]
  · rw [lastSibling, nodeAt_modify_self (by simp; omega)]
    dsimp only
    rw [if_neg (by omega), Int.toNat_natCast]
    refine lastSibling_here ?_
    rw [nodeAt_modify_other (by omega), nodeAt_append_new, leaf]
    decide

/-- Names of a list that hang on the owner, or on the last child it had: the old nodes lead to the first of them, and
the chain of the children ends in a new node. -/
structure Added (ownerNode : Nat) (last : Option Nat) (nodes more : List AstNode) : Prop where
  longer : nodes.length < more.length
  old : more.take nodes.length = relink ownerNode last nodes.length nodes
  children : 0 ≤ (nodeAt more ownerNode).firstChild
  ended : ∃ new, nodes.length ≤ new ∧ new < more.length ∧
    lastSibling more more.length (nodeAt more ownerNode).firstChild.toNat = some new

/-- The place that the first name is hung to. -/
structure Place (ownerNode : Nat) (last : Option Nat) (nodes : List AstNode) : Prop where
  owner : ownerNode < nodes.length
  none : last = none → (nodeAt nodes ownerNode).firstChild = -1
  some : ∀ n, last = some n → n < nodes.length ∧ 0 ≤ (nodeAt nodes ownerNode).firstChild ∧
    (nodeAt nodes n).nextSibling = -1 ∧
    lastSibling nodes nodes.length (nodeAt nodes ownerNode).firstChild.toNat = some n

theorem modify_self {nodes : List AstNode} {i : Nat} {f : AstNode → AstNode}
    (same : f (nodeAt nodes i) = nodeAt nodes i) : nodes.modify i f = nodes := by
  refine List.ext_getElem (by simp) fun j _ within => ?_
  by_cases here : i = j
  · subst here
    have self : nodeAt nodes i = nodes[i] := by
      simp only [nodeAt, List.getD_eq_getElem?_getD, List.getElem?_eq_getElem within, Option.getD_some]
    rw [self] at same
    simpa using same
  · simp [here]

/-- The links that are set for the first name are those that lead nowhere. -/
theorem relink_self {ownerNode : Nat} {last : Option Nat} {nodes : List AstNode}
    (place : Place ownerNode last nodes) : relink ownerNode last (-1) nodes = nodes := by
  cases last with
  | none =>
    refine modify_self ?_
    rw [← place.none rfl]
  | some n =>
    refine modify_self ?_
    rw [← (place.some n rfl).2.2.1]

theorem relink_relink {ownerNode : Nat} {last : Option Nat} {nodes : List AstNode} (link : Int) :
    relink ownerNode last (-1) (relink ownerNode last link nodes) = relink ownerNode last (-1) nodes := by
  cases last <;> exact List.modify_modify_eq ..

theorem relink_length {ownerNode : Nat} {last : Option Nat} {nodes : List AstNode} (link : Int) :
    (relink ownerNode last link nodes).length = nodes.length := by
  cases last <;> exact List.length_modify ..

/-- The place where a list of type parameters of a table with good links is hung. -/
theorem lastChild_run {ownerNode : Nat} {last : Option Nat} {s s' : ParseState} (linked : Linked s.nodes)
    (owner : ownerNode < s.nodes.length) (run : lastChild ownerNode s = .ok last s') :
    Place ownerNode last s.nodes := by
  have child := (linked ownerNode owner).1
  unfold LinkInto at child
  unfold lastChild at run
  dsimp only at run
  split_ifs at run with bare
  · cases run
    exact ⟨owner, fun _ => by omega, nofun⟩
  · split at run
    · cases run
    · rename_i n found
      cases run
      refine ⟨owner, nofun, fun m same => ?_⟩
      cases same
      have inside := lastSibling_inside linked (by omega) found
      have next := (linked n inside).2
      have ends := lastSibling_ends found
      unfold LinkInto at next
      exact ⟨inside, by omega, by omega, found⟩

theorem modify_new (nodes : List AstNode) (n : AstNode) (f : AstNode → AstNode) :
    (nodes ++ [n]).modify nodes.length f = nodes ++ [f n] := by
  rw [List.modify_eq_take_cons_drop (by simp)]
  simp

theorem take_modify (nodes : List AstNode) (i len : Nat) (f : AstNode → AstNode) :
    (nodes.modify i f).take len = (nodes.take len).modify i f := by
  refine List.ext_getElem? fun j => ?_
  by_cases before : j < len
  · simp only [List.getElem?_take, List.getElem?_modify, if_pos before]
  · simp only [List.getElem?_take, List.getElem?_modify, if_neg before]
    rfl

/-- The first name is hung to the place that was found. -/
theorem addChild_first {ownerNode : Nat} {last : Option Nat} {nodes : List AstNode} {n : AstNode} {s s' : ParseState}
    (place : Place ownerNode last nodes) (leaf : n.nextSibling = -1) (there : s.nodes = nodes ++ [n])
    (run : p.addChild ownerNode nodes.length s = .ok () s') : Added ownerNode last nodes s'.nodes := by
  have inside := place.owner
  have hung := addChild_ok run
  rw [there, nodeAt_append_left inside] at hung
  cases last with
  | none =>
    have bare := place.none rfl
    rcases hung with ⟨-, rfl⟩ | ⟨_, some, -⟩
    · have child : nodeAt ((nodes ++ [n]).modify ownerNode fun m => { m with firstChild := nodes.length }) ownerNode =
          { nodeAt (nodes ++ [n]) ownerNode with firstChild := nodes.length } :=
        nodeAt_modify_self (by simp; omega)
      refine ⟨by simp, ?_, by rw [child]; exact Int.natCast_nonneg _, nodes.length, Nat.le_refl _, by simp, ?_⟩
      · rw [take_modify, List.take_left]
        rfl
      · rw [child]
        dsimp only
        rw [Int.toNat_natCast]
        refine lastSibling_here ?_
        rw [nodeAt_modify_other (by omega), nodeAt_append_new, leaf]
        decide
    · omega
  | some m =>
    obtain ⟨within, some, -, found⟩ := place.some m rfl
    rcases hung with ⟨bare, -⟩ | ⟨m', -, found', rfl⟩
    · omega
    · have same : m' = m := by
        rw [List.length_append, List.length_singleton, lastSibling_append within found] at found'
        exact (Option.some.inj found').symm
      subst same
      have longer := lastSibling_longer leaf within found
      have children : (nodeAt ((nodes ++ [n]).modify m' fun m => { m with nextSibling := nodes.length })
          ownerNode).firstChild = (nodeAt nodes ownerNode).firstChild := by
        by_cases self : m' = ownerNode
        · rw [self, nodeAt_modify_self (by simp; omega), nodeAt_append_left inside]
        · rw [nodeAt_modify_other self, nodeAt_append_left inside]
      refine ⟨by simp, ?_, by rw [children]; exact some, nodes.length, Nat.le_refl _, by simp, ?_⟩
      · rw [take_modify, List.take_left]
        rfl
      · rw [children, List.length_modify, List.length_append, List.length_singleton]
        exact longer

/-- A further name is hung behind the one before it. -/
theorem addChild_further {ownerNode : Nat} {last : Option Nat} {nodes more : List AstNode} {n : AstNode}
    {s s' : ParseState} (added : Added ownerNode last nodes more) (leaf : n.nextSibling = -1)
    (there : s.nodes = more ++ [n]) (run : p.addChild ownerNode more.length s = .ok () s')
    (inside : ownerNode < nodes.length) : Added ownerNode last nodes s'.nodes := by
  obtain ⟨longer, old, some, new, behind, within, found⟩ := added
  have owner : ownerNode < more.length := by omega
  have hung := addChild_ok run
  rw [there, nodeAt_append_left owner] at hung
  rcases hung with ⟨bare, -⟩ | ⟨m, -, found', rfl⟩
  · omega
  · have same : m = new := by
      rw [List.length_append, List.length_singleton, lastSibling_append within found] at found'
      exact (Option.some.inj found').symm
    subst same
    have further := lastSibling_longer leaf within found
    have children : (nodeAt ((more ++ [n]).modify m fun node => { node with nextSibling := more.length })
        ownerNode).firstChild = (nodeAt more ownerNode).firstChild := by
      rw [nodeAt_modify_other (by omega), nodeAt_append_left owner]
    refine ⟨?_, ?_, by rw [children]; exact some, more.length, by omega, by simp, ?_⟩
    · simp
      omega
    · rw [take_modify, List.modify_eq_self (by simp; omega), List.take_append_of_le_length (by omega), old]
    · rw [children, List.length_modify, List.length_append, List.length_singleton]
      exact further

/-- The names that hang on the owner so far, none or some. -/
def Hanging (ownerNode : Nat) (last : Option Nat) (nodes more : List AstNode) : Prop :=
  more = nodes ∨ Added ownerNode last nodes more

theorem typeParam_hanging {ownerNode : Nat} {last : Option Nat} {nodes : List AstNode} {s s' : ParseState}
    {r : Unit ⊕ Bool} (place : Place ownerNode last nodes) (hanging : Hanging ownerNode last nodes s.nodes)
    (run : p.typeParam ownerNode s = .ok r s') : Hanging ownerNode last nodes s'.nodes := by
  by_cases named : (p.peekAt s.pos).kind = .IDENT
  · rw [typeParam, bind_of_ok (isAt_of_here named), if_pos rfl] at run
    obtain ⟨name, s₁, declared, named₁⟩ := bind_eq_ok.mp run
    obtain ⟨paramNode, s₂, made, made₂⟩ := bind_eq_ok.mp named₁
    obtain ⟨_, s₃, noted, noted₃⟩ := bind_eq_ok.mp made₂
    obtain ⟨_, s₄, hung, rest⟩ := bind_eq_ok.mp noted₃
    have same : s₁.nodes = s.nodes := by
      have taken := expectDeclName_run s named
      split_ifs at taken
      · obtain ⟨_, failed, -⟩ := taken
        cases declared.symm.trans failed
      · cases taken.symm.trans declared
        rfl
    have ended : s'.nodes = s₄.nodes := by
      by_cases comma : (p.peekAt s₄.pos).kind = .COMMA
      · rw [bind_of_ok (matchTok_of_here comma)] at rest
        cases rest
        rfl
      · rw [bind_of_ok (matchTok_of_other comma)] at rest
        cases rest
        rfl
    obtain ⟨rfl, rfl⟩ := newNode_ok made
    cases noted
    rw [same] at hung
    rw [ended]
    rcases hanging with first | added
    · rw [first] at hung
      exact .inr (addChild_first place rfl (modify_new nodes _ _) hung)
    · exact .inr (addChild_further added rfl (modify_new s.nodes _ _) hung place.owner)
  · rw [typeParam_none named] at run
    cases run
    exact hanging

theorem typeParams_hanging {ownerNode room : Nat} {last : Option Nat} {nodes : List AstNode} {s s' : ParseState}
    {parsed : Bool} (place : Place ownerNode last nodes) (hanging : Hanging ownerNode last nodes s.nodes)
    (run : loop (fun _ : Unit => p.typeParam ownerNode) room () s = .ok parsed s') :
    Hanging ownerNode last nodes s'.nodes := by
  induction room generalizing s with
  | zero => cases run
  | succ room ih =>
    rcases loop_eq_ok run with ⟨_, s₁, round, rest⟩ | round
    · exact ih (typeParam_hanging place hanging round) rest
    · exact typeParam_hanging place hanging round

/-- Taking back the names of a list gives the nodes that were there before it. -/
theorem relink_hanging {ownerNode : Nat} {last : Option Nat} {nodes more : List AstNode}
    (place : Place ownerNode last nodes) (hanging : Hanging ownerNode last nodes more) :
    relink ownerNode last (-1) (more.take nodes.length) = nodes := by
  rcases hanging with rfl | added
  · rw [List.take_length, relink_self place]
  · rw [added.old, relink_relink, relink_self place]

end Parser

end HopHop
