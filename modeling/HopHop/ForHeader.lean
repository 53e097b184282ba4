import HopHop.Ast

namespace HopHop

/-- What the parser has read of a `for` statement with clauses: its three slots, and its body. -/
structure ForHeader (kind : Nat → AstKind) where
  init : Option Nat
  cond : Option Nat
  post : Option Nat
  body : Nat
  bodyBlock : kind body = .BLOCK

/-- The child list of the `FOR` node. A slot that was left out is not linked. -/
def ForHeader.children {kind : Nat → AstKind} (header : ForHeader kind) : List Nat :=
  header.init.toList ++ header.cond.toList ++ header.post.toList ++ [header.body]

inductive LocalInit
  | UNTRACKED | UNINIT | INIT | MAYBE
  deriving DecidableEq, Repr

/-- The part of the checker's state a loop header is concerned with, and the rest of it. -/
structure LoopScope (Rest : Type) where
  localLen : Nat
  initState : Nat → LocalInit
  compilerDiagPathProven : Bool
  rest : Rest

inductive LoopFail (Failure : Type)
  | EXPECTED_EXPR (node : Nat)
  | UNEXPECTED_TOKEN (node : Nat)
  | EXPECTED_BOOL (node : Nat)
  | inner (failure : Failure)
  deriving DecidableEq, Repr

/-- A step of the checker. Its state is there after a failure too. -/
abbrev LoopCheck (Rest Failure α : Type) := ExceptT (LoopFail Failure) (StateM (LoopScope Rest)) α

/-- What the statement checker calls for the parts of a loop. -/
structure LoopParts (Rest Failure : Type) where
  typeVarLike : Nat → LoopCheck Rest Failure Unit
  typeShortAssignStmt : Nat → LoopCheck Rest Failure Unit
  typeExpr : Nat → LoopCheck Rest Failure Int
  typeBlock : Nat → (returnType loopDepth switchDepth : Int) → LoopCheck Rest Failure Unit
  typeForInStmt : List Nat → (returnType loopDepth switchDepth : Int) → LoopCheck Rest Failure Unit
  isBoolType : LoopScope Rest → Int → Bool

namespace LoopParts

variable {Rest Failure : Type} (parts : LoopParts Rest Failure)

/-- Puts back what `saved` knows about the locals that both states have. -/
def restoreLocalInitStates (saved s : LoopScope Rest) : LoopScope Rest :=
  { s with initState := fun i => if i < min s.localLen saved.localLen then saved.initState i else s.initState i }

/-- Locals that `check` has added are gone behind it, whether it failed or not. -/
def inLoopScope {α : Type} (check : LoopCheck Rest Failure α) : LoopCheck Rest Failure α := fun s =>
  let (result, s') := check s
  (result, { s' with localLen := s.localLen })

/-- A declaration, a short assignment or an expression. -/
def typeInit (kind : Nat → AstKind) (node : Nat) : LoopCheck Rest Failure Unit :=
  match kind node with
  | .VAR | .CONST => parts.typeVarLike node
  | .SHORT_ASSIGN => parts.typeShortAssignStmt node
  | _ => do
    let _ ← parts.typeExpr node

def typeInits (kind : Nat → AstKind) : List Nat → LoopCheck Rest Failure Unit
  | [] => pure ()
  | node :: nodes => do
    parts.typeInit kind node
    typeInits kind nodes

def typeCond (node : Nat) : LoopCheck Rest Failure Unit := do
  let condType ← parts.typeExpr node
  let s ← get
  if parts.isBoolType s condType then pure () else throw (.EXPECTED_BOOL node)

/-- The body, and the clause that follows it in every round. Neither changes which locals count as initialized. -/
def typeBodyAndPost (body : Nat) (post : Option Nat) (returnType loopDepth switchDepth : Int) :
    LoopCheck Rest Failure Unit := fun before =>
  match parts.typeBlock body returnType (loopDepth + 1) switchDepth { before with compilerDiagPathProven := false } with
  | (.error fail, s) =>
    (.error fail, restoreLocalInitStates before { s with compilerDiagPathProven := before.compilerDiagPathProven })
  | (.ok (), s) =>
    let afterBody := restoreLocalInitStates before { s with compilerDiagPathProven := before.compilerDiagPathProven }
    match post with
    | none => (.ok (), afterBody)
    | some node =>
      match parts.typeExpr node afterBody with
      | (.error fail, s) => (.error fail, s)
      | (.ok _, s) => (.ok (), restoreLocalInitStates before s)

/-- The clauses and the body of a loop with the children `nodes`, told apart by how many there are. -/
def typeForNodes (kind : Nat → AstKind) (nodes : List Nat) (returnType loopDepth switchDepth : Int) :
    LoopCheck Rest Failure Unit :=
  match nodes with
  | [cond, body] => do
    parts.typeCond cond
    parts.typeBodyAndPost body none returnType loopDepth switchDepth
  | [init, cond, post, body] => do
    parts.typeInit kind init
    parts.typeCond cond
    parts.typeBodyAndPost body (some post) returnType loopDepth switchDepth
  | nodes => do
    parts.typeInits kind nodes.dropLast
    parts.typeBodyAndPost (nodes.getLastD 0) none returnType loopDepth switchDepth

def typeForStmt (kind : Nat → AstKind) (flags : UInt32) (forNode : Nat) (children : List Nat)
    (returnType loopDepth switchDepth : Int) : LoopCheck Rest Failure Unit :=
  if flags &&& AstFlag.FOR_IN ≠ 0 then parts.typeForInStmt children returnType loopDepth switchDepth
  else
    let nodes := children.take 4
    match nodes.getLast? with
    | none => throw (.EXPECTED_EXPR forNode)
    | some last =>
      if kind last ≠ .BLOCK then throw (.UNEXPECTED_TOKEN last)
      else inLoopScope (parts.typeForNodes kind nodes returnType loopDepth switchDepth)

/-- A slot that was left out asks for nothing. -/
def typeSlot (check : Nat → LoopCheck Rest Failure Unit) : Option Nat → LoopCheck Rest Failure Unit
  | none => pure ()
  | some node => check node

/-- Every clause checked in its own slot: the initializer first, in the scope of the whole loop, the condition
behind it and a `bool`, the post clause behind the body as a statement. -/
def typeForSlots {kind : Nat → AstKind} (header : ForHeader kind) (returnType loopDepth switchDepth : Int) :
    LoopCheck Rest Failure Unit :=
  inLoopScope do
    typeSlot (parts.typeInit kind) header.init
    typeSlot parts.typeCond header.cond
    parts.typeBodyAndPost header.body header.post returnType loopDepth switchDepth

end LoopParts

/-- The checker treats every clause of the loop as the slot it was read from asks for, whatever the clauses hold
and whatever has been checked before. -/
def ForHeader.CheckedInPlace {kind : Nat → AstKind} (header : ForHeader kind) : Prop :=
  ∀ (Rest Failure : Type) (parts : LoopParts Rest Failure) (forNode : Nat) (returnType loopDepth switchDepth : Int),
    parts.typeForStmt kind 0 forNode header.children returnType loopDepth switchDepth =
      parts.typeForSlots header returnType loopDepth switchDepth

/-- No clause, the condition alone, or all three. -/
def ForHeader.Told {kind : Nat → AstKind} (header : ForHeader kind) : Prop :=
  header.init.isSome = header.post.isSome ∧ (header.init.isSome → header.cond.isSome)

namespace LoopParts

variable {Rest Failure : Type} (parts : LoopParts Rest Failure) {kind : Nat → AstKind} (header : ForHeader kind)

theorem children_take_getLast (few : header.children.length ≤ 4) :
    (header.children.take 4).getLast? = some header.body := by
  rw [List.take_of_length_le few, ForHeader.children, List.getLast?_append]
  rfl

theorem children_length : header.children.length ≤ 4 := by
  simp only [ForHeader.children, List.length_append, List.length_singleton]
  have init : header.init.toList.length ≤ 1 := Option.length_toList_le
  have cond : header.cond.toList.length ≤ 1 := Option.length_toList_le
  have post : header.post.toList.length ≤ 1 := Option.length_toList_le
  omega

/-- The last child is the body, so the choice among the readings is all that is left. -/
theorem typeForStmt_children (forNode : Nat) (returnType loopDepth switchDepth : Int) :
    parts.typeForStmt kind 0 forNode header.children returnType loopDepth switchDepth =
      inLoopScope (parts.typeForNodes kind header.children returnType loopDepth switchDepth) := by
  have few := children_length header
  have plain : ¬ ((0 : UInt32) &&& AstFlag.FOR_IN ≠ 0) := by decide
  rw [typeForStmt, if_neg plain]
  simp only [children_take_getLast header few, header.bodyBlock, ne_eq, not_true_eq_false, if_false]
  rw [List.take_of_length_le few]

/-- With the three shapes in which the number of children gives the slots, the reading is the right one. -/
theorem typeForNodes_told (told : header.Told) (returnType loopDepth switchDepth : Int) :
    inLoopScope (parts.typeForNodes kind header.children returnType loopDepth switchDepth) =
      parts.typeForSlots header returnType loopDepth switchDepth := by
  obtain ⟨init, cond, post, body, isBlock⟩ := header
  obtain ⟨paired, whole⟩ := told
  cases init with
  | none =>
    have noPost : post = none := by simpa using paired
    subst noPost
    cases cond with
    | none => rfl
    | some cond => rfl
  | some init =>
    obtain ⟨post, rfl⟩ := Option.isSome_iff_exists.mp (paired.symm.trans rfl)
    obtain ⟨cond, rfl⟩ := Option.isSome_iff_exists.mp (whole rfl)
    rfl

/-- A checker to which no expression is a `bool`, that counts the clauses it has seen and accepts a body
once there are `need` of them. -/
def counting (need : Nat) : LoopParts Nat Unit where
  typeVarLike _ := modify fun s => { s with rest := s.rest + 1 }
  typeShortAssignStmt _ := modify fun s => { s with rest := s.rest + 1 }
  typeExpr _ := do
    modify fun s => { s with rest := s.rest + 1 }
    pure 1
  typeBlock _ _ _ _ := do
    let s ← get
    if need ≤ s.rest then pure () else throw (.inner ())
  typeForInStmt _ _ _ _ := pure ()
  isBoolType _ _ := false

def fresh : LoopScope Nat := ⟨0, fun _ => .UNTRACKED, false, 0⟩

theorem counting_typeInit (need : Nat) (node : Nat) :
    (counting need).typeInit kind node = modify fun s => { s with rest := s.rest + 1 } := by
  rw [typeInit]
  split <;> rfl

/-- Every other shape is read as one it is not: the counting checker tells the two apart. -/
theorem not_told_differs (other : ¬ header.Told) :
    ((counting 2).typeForNodes kind header.children 0 0 0 fresh).1 ≠
      ((counting 2).typeForSlots header 0 0 0 fresh).1 := by
  intro same
  obtain ⟨init, cond, post, body, isBlock⟩ := header
  have seen : (counting 2).typeInit kind = fun _ => modify fun s => { s with rest := s.rest + 1 } :=
    funext (counting_typeInit 2)
  rcases init with _ | init <;> rcases cond with _ | cond <;> rcases post with _ | post <;>
    simp only [ForHeader.children, typeForNodes, typeForSlots, Option.toList, List.nil_append, List.cons_append,
      List.dropLast, typeInits, typeSlot, seen] at same
  · exact other ⟨rfl, nofun⟩
  · cases same
  · exact other ⟨rfl, nofun⟩
  · cases same
  · cases same
  · cases same
  · cases same
  · exact other ⟨rfl, fun _ => rfl⟩

/-- A check that passes has passed in its first part, and in its second behind that. -/
theorem bind_ok {α β : Type} {first : LoopCheck Rest Failure α} {second : α → LoopCheck Rest Failure β}
    {s s' : LoopScope Rest} {b : β} (passed : (first >>= second) s = (.ok b, s')) :
    ∃ a between, first s = (.ok a, between) ∧ second a between = (.ok b, s') := by
  have unfolded : (first >>= second) s = ExceptT.bindCont second (first s).1 (first s).2 := rfl
  rw [unfolded] at passed
  rcases ran : first s with ⟨_ | a, between⟩
  · rw [ran] at passed
    cases passed
  · rw [ran] at passed
    exact ⟨a, between, rfl, passed⟩

theorem typeCond_bool {cond : Nat} {s s' : LoopScope Rest} (passed : parts.typeCond cond s = (.ok (), s')) :
    ∃ condType, parts.typeExpr cond s = (.ok condType, s') ∧ parts.isBoolType s' condType := by
  obtain ⟨condType, between, typed, passed⟩ := bind_ok passed
  obtain ⟨_, _, got, passed⟩ := bind_ok passed
  cases got
  by_cases bool : parts.isBoolType between condType
  · rw [if_pos bool] at passed
    cases passed
    exact ⟨condType, typed, bool⟩
  · rw [if_neg bool] at passed
    cases passed

/-- A loop that passes slot by slot has a `bool` condition, typed behind its initializer. -/
theorem typeForSlots_bool {cond : Nat} {returnType loopDepth switchDepth : Int} {s s' : LoopScope Rest}
    (present : header.cond = some cond)
    (accepted : parts.typeForSlots header returnType loopDepth switchDepth s = (.ok (), s')) :
    ∃ opened condType afterCond, typeSlot (parts.typeInit kind) header.init s = (.ok (), opened) ∧
      parts.typeExpr cond opened = (.ok condType, afterCond) ∧ parts.isBoolType afterCond condType := by
  rw [typeForSlots, inLoopScope, present] at accepted
  obtain ⟨_, opened, init, passed⟩ := bind_ok (Prod.ext (Prod.mk.inj accepted).1 rfl)
  obtain ⟨_, afterCond, checked, _⟩ := bind_ok passed
  obtain ⟨condType, typed, bool⟩ := parts.typeCond_bool checked
  exact ⟨opened, condType, afterCond, init, typed, bool⟩

end LoopParts

/-- The checker reads a loop header as the parser did exactly with no clause, the condition alone or all three.
With an initializer or a post clause alone it takes that for the condition; with two clauses it demands no `bool`
of the condition, and checks the post clause ahead of the body. -/
theorem ForHeader.checkedInPlace_iff {kind : Nat → AstKind} (header : ForHeader kind) :
    header.CheckedInPlace ↔ header.Told := by
  constructor
  · intro inPlace
    by_contra other
    have same := congrArg (fun check => (check LoopParts.fresh).1) (inPlace Nat Unit (.counting 2) 0 0 0 0)
    rw [LoopParts.typeForStmt_children] at same
    exact LoopParts.not_told_differs header other same
  · intro told Rest Failure parts forNode returnType loopDepth switchDepth
    rw [LoopParts.typeForStmt_children, LoopParts.typeForNodes_told parts header told]

/-- `for x := 0; 1; \x7b\x7d` has a condition that is no `bool` and is accepted; `for x := 0; ; \x7b\x7d` has no condition and
is rejected for one. -/
theorem ForHeader.not_checkedInPlace :
    let kind : Nat → AstKind := fun node => if node = 1 then .SHORT_ASSIGN else if node = 2 then .INT else .BLOCK
    let shortened : ForHeader kind := ⟨some 1, some 2, none, 3, rfl⟩
    let endless : ForHeader kind := ⟨some 1, none, none, 3, rfl⟩
    let checker : LoopParts Nat Unit := .counting 0
    ¬ shortened.CheckedInPlace ∧ ¬ endless.CheckedInPlace ∧
      (checker.typeForStmt kind 0 0 shortened.children 0 0 0 LoopParts.fresh).1 = .ok () ∧
      (checker.typeForSlots shortened 0 0 0 LoopParts.fresh).1 = .error (.EXPECTED_BOOL 2) ∧
      (checker.typeForStmt kind 0 0 endless.children 0 0 0 LoopParts.fresh).1 = .error (.EXPECTED_BOOL 1) ∧
      (checker.typeForSlots endless 0 0 0 LoopParts.fresh).1 = .ok () := by
  intro kind shortened endless checker
  have loose : (checker.typeForStmt kind 0 0 shortened.children 0 0 0 LoopParts.fresh).1 = .ok () := rfl
  have strict : (checker.typeForSlots shortened 0 0 0 LoopParts.fresh).1 = .error (.EXPECTED_BOOL 2) := rfl
  have asked : (checker.typeForStmt kind 0 0 endless.children 0 0 0 LoopParts.fresh).1 = .error (.EXPECTED_BOOL 1) :=
    rfl
  have free : (checker.typeForSlots endless 0 0 0 LoopParts.fresh).1 = .ok () := rfl
  refine ⟨fun inPlace => ?_, fun inPlace => ?_, loose, strict, asked, free⟩
  · rw [inPlace, strict] at loose
    cases loose
  · rw [inPlace, free] at asked
    cases asked

end HopHop
