import HopHop.Ast
import HopHop.Bytes
import Mathlib.Data.List.Basic

namespace HopHop

section

variable (ast : Ast) (src : List UInt8)

def fmtFirstChild (nodeId : Int) : Int :=
  if ast.inTable nodeId then (ast.node nodeId).firstChild else -1

def fmtSlicesEqual (aStart aEnd bStart bEnd : Nat) : Bool :=
  if aEnd < aStart ∨ bEnd < bStart ∨ src.length < aEnd ∨ src.length < bEnd then false
  else if aEnd - aStart ≠ bEnd - bStart then false
  else (src.drop aStart).take (aEnd - aStart) = (src.drop bStart).take (bEnd - bStart)

/-- A walk along a sibling chain that stops at the first node that passes the test. It has no result when the chain
does not end in so many steps, or the test has none. -/
def anyInChain (test : Int → Option Bool) : Nat → Int → Option Bool
  | room, cur =>
    if cur < 0 then some false
    else
      match room with
      | 0 => none
      | room + 1 =>
        match test cur with
        | none => none
        | some true => some true
        | some false => anyInChain test room (ast.node cur).nextSibling

/-- The first index of the table that passes the test. -/
def firstIndex (test : Nat → Option Bool) : List Nat → Option (Option Nat)
  | [] => some none
  | i :: rest =>
    match test i with
    | none => none
    | some true => some (some i)
    | some false => firstIndex test rest

def findParentNode (room : Nat) (childNodeId : Int) : Option Int :=
  if ¬ast.inTable childNodeId then some (-1)
  else
    let isParent (i : Nat) := anyInChain ast (fun cur => some (cur = childNodeId)) room (ast.node i).firstChild
    (firstIndex isParent (List.range ast.len)).map fun
      | some i => (i : Int)
      | none => -1

/-- The name of an entry of a name list is the given range of the source. -/
def nameNodeIs (nameStart nameEnd : Nat) (nameNode : Int) : Bool :=
  let nn := ast.node nameNode
  nn.kind = .IDENT ∧ fmtSlicesEqual src nn.dataStart nn.dataEnd nameStart nameEnd

def nodeDeclaresNameRange (room : Nat) (nodeId : Int) (nameStart nameEnd : Nat) : Option Bool :=
  if ¬ast.inTable nodeId ∨ nameEnd ≤ nameStart then some false
  else
    let n := ast.node nodeId
    if (n.kind = .PARAM ∨ n.kind = .VAR ∨ n.kind = .CONST)
        ∧ fmtSlicesEqual src n.dataStart n.dataEnd nameStart nameEnd then some true
    else if n.kind = .VAR ∨ n.kind = .CONST then
      let child := fmtFirstChild ast nodeId
      if ast.inTable child ∧ (ast.node child).kind = .NAME_LIST then
        anyInChain ast (fun cur => some (nameNodeIs ast src nameStart nameEnd cur)) room (fmtFirstChild ast child)
      else some false
    else some false

/-- `n->end - n->start` on 32-bit positions. -/
def AstNode.span (n : AstNode) : UInt32 := UInt32.ofNat n.stop - UInt32.ofNat n.start

/-- One round of the search for the enclosing function: the best entry so far and its span. -/
def enclosingFnStep (target : AstNode) (best : Int × UInt32) (i : Nat) : Int × UInt32 :=
  let n := ast.node i
  if n.kind = .FN ∧ (n.start ≤ target.start ∧ target.stop ≤ n.stop) ∧ n.span < best.2 then (i, n.span) else best

def findEnclosingFnNode (nodeId : Int) : Int :=
  if ¬ast.inTable nodeId then -1
  else ((List.range ast.len).foldl (enclosingFnStep ast (ast.node nodeId)) (-1, 0xFFFFFFFF)).1

def skipTypeParams : Nat → Int → Option Int
  | room, child =>
    if 0 ≤ child ∧ (ast.node child).kind = .TYPE_PARAM then
      match room with
      | 0 => none
      | room + 1 => skipTypeParams room (ast.node child).nextSibling
    else some child

/-- Some parameter of the run of parameters that starts here passes the test. -/
def anyParam (test : Int → Option Bool) : Nat → Int → Option Bool
  | room, child =>
    if 0 ≤ child ∧ (ast.node child).kind = .PARAM then
      match room with
      | 0 => none
      | room + 1 =>
        match test child with
        | none => none
        | some true => some true
        | some false => anyParam test room (ast.node child).nextSibling
    else some false

/-- The entry stands in the function and ends before the node starts. -/
def isEarlierIn (fn node n : AstNode) : Prop := fn.start ≤ n.start ∧ n.stop ≤ fn.stop ∧ n.stop ≤ node.start

instance (fn node n : AstNode) : Decidable (isEarlierIn fn node n) :=
  inferInstanceAs (Decidable (fn.start ≤ n.start ∧ n.stop ≤ fn.stop ∧ n.stop ≤ node.start))

/-- One round of the loop over the whole table: entry `i` is an earlier declaration of the name. -/
def earlierEntryDeclares (room : Nat) (fnNodeId nodeId : Int) (nameStart nameEnd : Nat) (i : Nat) : Option Bool :=
  let n := ast.node i
  if n.kind = .SHORT_ASSIGN ∧ isEarlierIn (ast.node fnNodeId) (ast.node nodeId) n then
    let nameList := fmtFirstChild ast i
    if nameList < 0 ∨ (ast.node nameList).kind ≠ .NAME_LIST then some false
    else anyInChain ast (fun cur => some (nameNodeIs ast src nameStart nameEnd cur)) room (fmtFirstChild ast nameList)
  else if (n.kind = .VAR ∨ n.kind = .CONST) ∧ isEarlierIn (ast.node fnNodeId) (ast.node nodeId) n then
    nodeDeclaresNameRange ast src room i nameStart nameEnd
  else some false

def hasEarlierLocalBindingNamed (room : Nat) (nodeId : Int) (nameStart nameEnd : Nat) : Option Bool :=
  if nameEnd ≤ nameStart then some false
  else
    let fnNodeId := findEnclosingFnNode ast nodeId
    if fnNodeId < 0 then some false
    else do
      let child ← skipTypeParams ast room (fmtFirstChild ast fnNodeId)
      let declares (param : Int) : Option Bool :=
        if (ast.node param).start < (ast.node nodeId).start then
          nodeDeclaresNameRange ast src room param nameStart nameEnd
        else some false
      if ← anyParam ast declares room child then some true
      else
        let earlier := earlierEntryDeclares ast src room fnNodeId nodeId nameStart nameEnd
        (firstIndex earlier (List.range ast.len)).map Option.isSome

/-- The formatter may write `name := init` for this declaration. `room` bounds the sibling chains it walks; the result
is `none` when one does not end. -/
def canEmitShortVarDecl (room : Nat) (kw : String) (nameCount : Nat) (nodeId typeNodeId initNodeId : Int) :
    Option Bool :=
  if kw ≠ "var" ∨ nameCount ≠ 1 ∨ 0 ≤ typeNodeId ∨ initNodeId < 0 then some false
  else if ¬ast.inTable nodeId ∨ ast.len ≤ initNodeId.toNat then some false
  else
    let n := ast.node nodeId
    let init := ast.node initNodeId
    if init.kind ∉ [.INT, .FLOAT, .STRING, .RUNE, .BOOL, .IDENT, .COMPOUND_LIT] then some false
    else do
      let parentNodeId ← findParentNode ast room nodeId
      if parentNodeId < 0 ∨ (ast.node parentNodeId).kind ≠ .BLOCK then some false
      else (hasEarlierLocalBindingNamed ast src room nodeId n.dataStart n.dataEnd).map (!·)

end

/-! What the names of local bindings mean: which node binds a name, and where in the tree it is visible. -/

/-- The constructs that bind a local name. -/
inductive BindingForm
  | param | anonParam | varOrConst | shortAssign | forKey | forValue | caseAlias | localFn
  deriving DecidableEq, Repr

/-- A local binding: the node that makes it and the range of the source with its name. -/
structure Binding where
  form : BindingForm
  node : Int
  nameStart : Nat
  nameEnd : Nat
  deriving DecidableEq, Repr

section

variable (ast : Ast) (src : List UInt8)

/-- `b` stands in the sibling chain that starts with `a`. -/
inductive InChain : Int → Int → Prop
  | here {a : Int} : 0 ≤ a → InChain a a
  | next {a b : Int} : 0 ≤ a → InChain (ast.node a).nextSibling b → InChain a b

def IsChild (parent child : Int) : Prop := InChain ast (ast.node parent).firstChild child

/-- `a` is an earlier sibling of `b`. -/
def Precedes (a b : Int) : Prop := InChain ast (ast.node a).nextSibling b

inductive Within : Int → Int → Prop
  | refl (n : Int) : Within n n
  | child {parent child n : Int} : IsChild ast parent child → Within child n → Within parent n

/-- The binding a node makes of the name it holds itself. -/
def ownBinding (form : BindingForm) (node : Int) : Binding :=
  ⟨form, node, (ast.node node).dataStart, (ast.node node).dataEnd⟩

/-- The binding that a declaration makes of an entry of its name list. -/
def listedBinding (form : BindingForm) (node nameNode : Int) : Binding :=
  ⟨form, node, (ast.node nameNode).dataStart, (ast.node nameNode).dataEnd⟩

/-- The entry of the name list of a declaration. -/
def IsListedName (node nameNode : Int) : Prop :=
  let list := (ast.node node).firstChild
  0 ≤ list ∧ (ast.node list).kind = .NAME_LIST ∧ IsChild ast list nameNode ∧ (ast.node nameNode).kind = .IDENT

/-- What a statement binds for the statements that follow it. -/
inductive Declares (stmt : Int) : Binding → Prop
  | own : (ast.node stmt).kind = .VAR ∨ (ast.node stmt).kind = .CONST → Declares stmt (ownBinding ast .varOrConst stmt)
  | grouped {nameNode : Int} : (ast.node stmt).kind = .VAR ∨ (ast.node stmt).kind = .CONST →
      IsListedName ast stmt nameNode → Declares stmt (listedBinding ast .varOrConst stmt nameNode)
  | shortAssign {nameNode : Int} : (ast.node stmt).kind = .SHORT_ASSIGN →
      IsListedName ast stmt nameNode → Declares stmt (listedBinding ast .shortAssign stmt nameNode)
  | localFn : (ast.node stmt).kind = .FN → Declares stmt (ownBinding ast .localFn stmt)

/-- The node that binds the value of a `for ... in` statement: the child after the key, when it has a key. -/
def forValueNode (n : AstNode) : Int :=
  if n.has AstFlag.FOR_IN_HAS_KEY then (ast.node n.firstChild).nextSibling else n.firstChild

/-- What a node brings into scope for one of its children. -/
inductive BringsIntoScope (parent child : Int) : Binding → Prop
  | earlierStmt {stmt : Int} {b : Binding} : (ast.node parent).kind = .BLOCK → IsChild ast parent stmt →
      Precedes ast stmt child → Declares ast stmt b → BringsIntoScope parent child b
  | forInit {init : Int} {b : Binding} : (ast.node parent).kind = .FOR → ¬(ast.node parent).has AstFlag.FOR_IN →
      init = (ast.node parent).firstChild → 0 ≤ init → Precedes ast init child → Declares ast init b →
      BringsIntoScope parent child b
  | forKey : (ast.node parent).kind = .FOR → (ast.node parent).has AstFlag.FOR_IN →
      (ast.node parent).has AstFlag.FOR_IN_HAS_KEY → (ast.node child).kind = .BLOCK →
      BringsIntoScope parent child (ownBinding ast .forKey (ast.node parent).firstChild)
  | forValue : (ast.node parent).kind = .FOR → (ast.node parent).has AstFlag.FOR_IN →
      ¬(ast.node parent).has AstFlag.FOR_IN_VALUE_DISCARD → (ast.node child).kind = .BLOCK →
      BringsIntoScope parent child (ownBinding ast .forValue (forValueNode ast (ast.node parent)))
  | param {param : Int} : (ast.node parent).kind = .FN → IsChild ast parent param → (ast.node param).kind = .PARAM →
      (ast.node child).kind = .BLOCK → BringsIntoScope parent child (ownBinding ast .param param)
  | anonParam {param : Int} : (ast.node parent).kind = .ANON_FN → IsChild ast parent param →
      (ast.node param).kind = .PARAM → (ast.node child).kind = .BLOCK →
      BringsIntoScope parent child (ownBinding ast .anonParam param)
  | caseAlias {pattern : Int} : (ast.node parent).kind = .CASE → IsChild ast parent pattern →
      (ast.node pattern).kind = .CASE_PATTERN → 0 ≤ (ast.node (ast.node pattern).firstChild).nextSibling →
      (ast.node child).kind = .BLOCK →
      BringsIntoScope parent child (ownBinding ast .caseAlias (ast.node (ast.node pattern).firstChild).nextSibling)
  | ownName : (ast.node parent).kind = .FN → (ast.node parent).has AstFlag.FN_LOCAL →
      (ast.node child).kind = .BLOCK → BringsIntoScope parent child (ownBinding ast .localFn parent)

/-- The binding is visible at the node. -/
def VisibleAt (node : Int) (b : Binding) : Prop :=
  ∃ parent child, IsChild ast parent child ∧ Within ast child node ∧ BringsIntoScope ast parent child b

/-- The binding has the name that stands in the given range of the source. -/
def Binding.Names (b : Binding) (nameStart nameEnd : Nat) : Prop :=
  b.nameStart < b.nameEnd ∧ b.nameEnd ≤ src.length ∧ nameEnd ≤ src.length ∧
    b.nameEnd - b.nameStart = nameEnd - nameStart ∧
    (src.drop b.nameStart).take (b.nameEnd - b.nameStart) = (src.drop nameStart).take (nameEnd - nameStart)

instance (b : Binding) (nameStart nameEnd : Nat) : Decidable (b.Names src nameStart nameEnd) :=
  instDecidableAnd

/-- A named function whose range covers the node. -/
def CoveringFn (nodeId : Int) (fn : Nat) : Prop :=
  fn < ast.len ∧ (ast.node fn).kind = .FN ∧ (ast.node fn).start ≤ (ast.node nodeId).start ∧
    (ast.node nodeId).stop ≤ (ast.node fn).stop

/-- The shortest named function whose range covers the node, the first one in the table when there are several. -/
def InnermostFn (nodeId : Int) (fn : Nat) : Prop :=
  CoveringFn ast nodeId fn ∧ (ast.node fn).span < 0xFFFFFFFF ∧
    ∀ other, CoveringFn ast nodeId other →
      (ast.node fn).span < (ast.node other).span ∨ (ast.node fn).span = (ast.node other).span ∧ fn ≤ other

/-- A parameter in the run of parameters that starts at `child`. -/
inductive InParamRun : Int → Int → Prop
  | here {child : Int} : 0 ≤ child → (ast.node child).kind = .PARAM → InParamRun child child
  | next {child param : Int} : 0 ≤ child → (ast.node child).kind = .PARAM →
      InParamRun (ast.node child).nextSibling param → InParamRun child param

/-- A parameter of the run that follows the type parameters starting at `child`. -/
inductive IsLeadingParam : Int → Int → Prop
  | params {child param : Int} : InParamRun ast child param → IsLeadingParam child param
  | typeParam {child param : Int} : 0 ≤ child → (ast.node child).kind = .TYPE_PARAM →
      IsLeadingParam (ast.node child).nextSibling param → IsLeadingParam child param

/-- The bindings the formatter looks at: the parameters of the innermost named function around the node, and the
variables, constants and short assignments that stand in that function and end before the node starts. -/
def IsSearched (nodeId : Int) (b : Binding) : Prop :=
  ∃ fn, InnermostFn ast nodeId fn ∧
    match b.form with
    | .param =>
      IsLeadingParam ast (ast.node fn).firstChild b.node ∧ (ast.node b.node).start < (ast.node nodeId).start
    | .varOrConst | .shortAssign => isEarlierIn (ast.node fn) (ast.node nodeId) (ast.node b.node)
    | _ => False

end

section

variable {ast : Ast} {src : List UInt8}

theorem node_inTable_of_kind (ast : Ast) {id : Int} (valid : 0 ≤ id) (kind : (ast.node id).kind ≠ .FILE) : ast.inTable id := by
  refine ⟨valid, ?_⟩
  by_contra beyond
  apply kind
  simp only [Ast.node, List.getD_eq_getElem?_getD, List.getElem?_eq_none (Nat.le_of_not_lt beyond), Option.getD_none]
  rfl

theorem InChain.first_valid {a b : Int} (chain : InChain ast a b) : 0 ≤ a := by
  cases chain <;> assumption

theorem InChain.valid {a b : Int} (chain : InChain ast a b) : 0 ≤ b := by
  induction chain with
  | here valid => exact valid
  | next _ _ ih => exact ih

theorem fmtFirstChild_of_inTable {id : Int} (inside : ast.inTable id) :
    fmtFirstChild ast id = (ast.node id).firstChild := by
  simp only [fmtFirstChild, if_pos inside]

theorem fmtSlicesEqual_of_names {b : Binding} {nameStart nameEnd : Nat} (names : b.Names src nameStart nameEnd) :
    fmtSlicesEqual src b.nameStart b.nameEnd nameStart nameEnd = true := by
  obtain ⟨nonempty, inside, inside', length, bytes⟩ := names
  have ordered : nameStart < nameEnd := by omega
  unfold fmtSlicesEqual
  rw [if_neg (by omega), if_neg (by omega)]
  simpa using bytes

/-- A walk that comes to an end finds every node of its chain. -/
theorem anyInChain_of_mem {test : Int → Option Bool} {a b : Int} (chain : InChain ast a b) (passes : test b = some true) :
    ∀ {room : Nat} {found : Bool}, anyInChain ast test room a = some found → found = true := by
  induction chain with
  | @here a valid =>
    intro room found walk
    cases room <;> simp [anyInChain, Int.not_lt.mpr valid, passes] at walk
    exact walk
  | @next a b valid _ ih =>
    intro room found walk
    cases room with
    | zero => simp [anyInChain, Int.not_lt.mpr valid] at walk
    | succ room =>
      rw [anyInChain, if_neg (Int.not_lt.mpr valid)] at walk
      cases here : test a with
      | none => simp [here] at walk
      | some hit =>
        cases hit with
        | true => simpa [here] using walk.symm
        | false => exact ih passes (by simpa [here] using walk)

theorem firstIndex_of_mem {test : Nat → Option Bool} {i : Nat} (passes : ∀ hit, test i = some hit → hit = true) :
    ∀ {ids : List Nat} {found : Option Nat}, i ∈ ids → firstIndex test ids = some found → found.isSome = true := by
  intro ids
  induction ids with
  | nil => intro _ member; simp at member
  | cons id rest ih =>
    intro found member search
    rw [firstIndex] at search
    cases here : test id with
    | none => simp [here] at search
    | some hit =>
      cases hit with
      | true =>
        simp only [here, Option.some.injEq] at search
        simp [← search]
      | false =>
        simp only [here] at search
        rcases List.mem_cons.mp member with same | later
        · exact absurd (passes false (same ▸ here)) (by simp)
        · exact ih later search

theorem anyParam_of_mem {test : Int → Option Bool} {child param : Int} (run : InParamRun ast child param)
    (passes : ∀ hit, test param = some hit → hit = true) :
    ∀ {room : Nat} {found : Bool}, anyParam ast test room child = some found → found = true := by
  induction run with
  | @here child valid kind =>
    intro room found walk
    cases room with
    | zero => simp [anyParam, valid, kind] at walk
    | succ room =>
      rw [anyParam, if_pos ⟨valid, kind⟩] at walk
      cases here : test child with
      | none => simp [here] at walk
      | some hit =>
        rw [here, passes hit here] at walk
        simpa using walk.symm
  | @next child param valid kind _ ih =>
    intro room found walk
    cases room with
    | zero => simp [anyParam, valid, kind] at walk
    | succ room =>
      rw [anyParam, if_pos ⟨valid, kind⟩] at walk
      cases here : test child with
      | none => simp [here] at walk
      | some hit =>
        cases hit with
        | true => simpa [here] using walk.symm
        | false => exact ih passes (by simpa [here] using walk)

theorem skipTypeParams_leading {child param : Int} (leading : IsLeadingParam ast child param) :
    ∀ {room : Nat} {first : Int}, skipTypeParams ast room child = some first → InParamRun ast first param := by
  induction leading with
  | @params child param run =>
    intro room first skip
    have kind : (ast.node child).kind = .PARAM := by cases run <;> assumption
    have stays : skipTypeParams ast room child = some child := by
      unfold skipTypeParams
      rw [if_neg (by simp [kind])]
    rw [stays, Option.some.injEq] at skip
    exact skip ▸ run
  | @typeParam child param valid kind _ ih =>
    intro room first skip
    cases room with
    | zero => simp [skipTypeParams, valid, kind] at skip
    | succ room => exact ih (by simpa [skipTypeParams, valid, kind] using skip)

/-- What the search for the enclosing function has found after the first entries of the table. -/
def BestAmong (ast : Ast) (nodeId : Int) (count : Nat) (best : Int × UInt32) : Prop :=
  ∀ fn, InnermostFn ast nodeId fn →
    if fn < count then best = ((fn : Int), (ast.node fn).span) else (ast.node fn).span < best.2

theorem bestAmong_foldl (nodeId : Int) : ∀ count, count ≤ ast.len →
    BestAmong ast nodeId count
      ((List.range count).foldl (enclosingFnStep ast (ast.node nodeId)) (-1, 0xFFFFFFFF)) := by
  intro count
  induction count with
  | zero =>
    intro _ fn innermost
    simpa using innermost.2.1
  | succ count ih =>
    intro bound fn innermost
    have before := ih (by omega) fn innermost
    rw [List.range_succ, List.foldl_append, List.foldl_cons, List.foldl_nil]
    generalize (List.range count).foldl _ _ = best at before ⊢
    obtain ⟨⟨inside, kind, starts, stops⟩, _, least⟩ := innermost
    by_cases covers : (ast.node count).kind = .FN ∧
        ((ast.node count).start ≤ (ast.node nodeId).start ∧ (ast.node nodeId).stop ≤ (ast.node count).stop)
    · have smallest := least count ⟨by omega, covers.1, covers.2⟩
      rcases Nat.lt_trichotomy fn count with earlier | same | later
      · rw [if_pos earlier] at before
        rw [if_pos (by omega), before, enclosingFnStep, if_neg]
        rintro ⟨_, _, shorter⟩
        rcases smallest with less | ⟨equal, _⟩
        · exact UInt32.lt_asymm less shorter
        · exact UInt32.lt_irrefl _ (equal ▸ shorter)
      · subst same
        rw [if_neg (by omega)] at before
        rw [if_pos (by omega), enclosingFnStep, if_pos ⟨kind, ⟨starts, stops⟩, before⟩]
      · rw [if_neg (by omega)] at before
        rw [if_neg (by omega)]
        have less : (ast.node fn).span < (ast.node count).span := smallest.resolve_right (by omega)
        by_cases shorter : (ast.node count).span < best.2
        · rw [enclosingFnStep, if_pos ⟨covers.1, covers.2, shorter⟩]
          exact less
        · rw [enclosingFnStep, if_neg fun taken => shorter taken.2.2]
          exact before
    · have skip : enclosingFnStep ast (ast.node nodeId) best count = best := by
        rw [enclosingFnStep, if_neg (fun taken => covers ⟨taken.1, taken.2.1⟩)]
      rw [skip]
      have other : fn ≠ count := fun same => covers (same ▸ ⟨kind, starts, stops⟩)
      by_cases earlier : fn < count
      · rw [if_pos earlier] at before
        rwa [if_pos (by omega)]
      · rw [if_neg earlier] at before
        rwa [if_neg (by omega)]

theorem findEnclosingFnNode_innermost {nodeId : Int} {fn : Nat} (inside : ast.inTable nodeId)
    (innermost : InnermostFn ast nodeId fn) : findEnclosingFnNode ast nodeId = fn := by
  have best := bestAmong_foldl nodeId ast.len (Nat.le_refl _) fn innermost
  rw [if_pos innermost.1.1] at best
  rw [findEnclosingFnNode, if_neg (not_not.mpr inside), best]

theorem anyListedName {node nameNode : Int} {form : BindingForm} {nameStart nameEnd : Nat}
    (listed : IsListedName ast node nameNode)
    (names : (listedBinding ast form node nameNode).Names src nameStart nameEnd) {room : Nat} {found : Bool}
    (walk : anyInChain ast (fun cur => some (nameNodeIs ast src nameStart nameEnd cur)) room
      (fmtFirstChild ast (ast.node node).firstChild) = some found) : found = true := by
  obtain ⟨valid, kind, member, ident⟩ := listed
  rw [fmtFirstChild_of_inTable (node_inTable_of_kind ast valid (by simp [kind]))] at walk
  refine anyInChain_of_mem member ?_ walk
  have same := fmtSlicesEqual_of_names names
  simp only [listedBinding] at same
  simp [nameNodeIs, ident, same]

/-- The names of a variable or a constant are found, whether it holds the name itself or in its list. -/
theorem nodeDeclaresNameRange_of_declares {node : Int} {b : Binding} {nameStart nameEnd : Nat}
    (inside : ast.inTable node) (declares : Declares ast node b) (form : b.form = .varOrConst)
    (names : b.Names src nameStart nameEnd) {room : Nat} {found : Bool}
    (search : nodeDeclaresNameRange ast src room node nameStart nameEnd = some found) : found = true := by
  have nonempty : ¬(¬ast.inTable node ∨ nameEnd ≤ nameStart) := by
    obtain ⟨_, _, _, _, _⟩ := names
    rintro (outside | empty)
    · exact outside inside
    · omega
  simp only [nodeDeclaresNameRange, if_neg nonempty] at search
  split at search
  · exact (Option.some.inj search).symm
  case isFalse differs =>
    cases declares with
    | own kind =>
      have same := fmtSlicesEqual_of_names names
      exact absurd ⟨Or.inr kind, same⟩ differs
    | grouped kind listed =>
      have list := listed
      obtain ⟨valid, listKind, _, _⟩ := list
      have listInside := node_inTable_of_kind ast valid (by simp [listKind])
      rw [if_pos kind, fmtFirstChild_of_inTable inside, if_pos ⟨listInside, listKind⟩] at search
      exact anyListedName listed names search
    | shortAssign => simp [listedBinding] at form
    | localFn => simp [ownBinding] at form

theorem earlierEntryDeclares_of_declares {node nodeId : Int} {fn : Nat} {b : Binding} {nameStart nameEnd : Nat}
    (valid : 0 ≤ node) (declares : Declares ast node b) (form : b.form = .varOrConst ∨ b.form = .shortAssign)
    (earlier : isEarlierIn (ast.node fn) (ast.node nodeId) (ast.node node)) (names : b.Names src nameStart nameEnd)
    {room : Nat} {found : Bool}
    (search : earlierEntryDeclares ast src room fn nodeId nameStart nameEnd node.toNat = some found) :
    found = true := by
  have index : ((node.toNat : Nat) : Int) = node := Int.toNat_of_nonneg valid
  simp only [earlierEntryDeclares, index] at search
  have isVariable (kind : (ast.node node).kind = .VAR ∨ (ast.node node).kind = .CONST) (isLocal : b.form = .varOrConst) :
      found = true := by
    have other : ¬((ast.node node).kind = .SHORT_ASSIGN ∧
        isEarlierIn (ast.node fn) (ast.node nodeId) (ast.node node)) := by
      rcases kind with kind | kind <;> simp [kind]
    rw [if_neg other, if_pos ⟨kind, earlier⟩] at search
    have inside := node_inTable_of_kind ast valid (by rcases kind with kind | kind <;> simp [kind])
    exact nodeDeclaresNameRange_of_declares inside declares isLocal names search
  have declared := declares
  cases declared with
  | own kind => exact isVariable kind rfl
  | grouped kind _ => exact isVariable kind rfl
  | shortAssign kind listed =>
    rw [if_pos ⟨kind, earlier⟩, fmtFirstChild_of_inTable (node_inTable_of_kind ast valid (by simp [kind]))] at search
    have list := listed
    obtain ⟨listValid, listKind, _, _⟩ := list
    rw [if_neg (by simp [listKind, Int.not_lt.mpr listValid])] at search
    exact anyListedName listed names search
  | localFn => simp [ownBinding] at form

/-- A binding of the node is a declaration by a statement or one of the other forms. -/
theorem BringsIntoScope.declares_or {parent child : Int} {b : Binding} (brings : BringsIntoScope ast parent child b)
    (form : b.form = .varOrConst ∨ b.form = .shortAssign) : ∃ stmt, 0 ≤ stmt ∧ b.node = stmt ∧ Declares ast stmt b := by
  have node {stmt : Int} (declares : Declares ast stmt b) : b.node = stmt := by cases declares <;> rfl
  cases brings with
  | earlierStmt _ member _ declares => exact ⟨_, member.valid, node declares, declares⟩
  | forInit _ _ _ valid _ declares => exact ⟨_, valid, node declares, declares⟩
  | forKey | forValue | param | anonParam | caseAlias | ownName => simp [ownBinding] at form

theorem BringsIntoScope.param_own {parent child : Int} {b : Binding} (brings : BringsIntoScope ast parent child b)
    (form : b.form = .param) : 0 ≤ b.node ∧ (ast.node b.node).kind = .PARAM ∧ b = ownBinding ast .param b.node := by
  cases brings with
  | param _ member kind _ => exact ⟨member.valid, kind, rfl⟩
  | earlierStmt _ _ _ declares | forInit _ _ _ _ _ declares => cases declares <;> simp [ownBinding, listedBinding] at form
  | forKey | forValue | anonParam | caseAlias | ownName => simp [ownBinding] at form

theorem hasEarlierLocalBindingNamed_of_searched {nodeId : Int} {b : Binding} {nameStart nameEnd : Nat}
    (inside : ast.inTable nodeId) (visible : VisibleAt ast nodeId b) (searched : IsSearched ast nodeId b)
    (names : b.Names src nameStart nameEnd) {room : Nat} {found : Bool}
    (search : hasEarlierLocalBindingNamed ast src room nodeId nameStart nameEnd = some found) : found = true := by
  obtain ⟨fn, innermost, searched⟩ := searched
  obtain ⟨parent, child, _, _, brings⟩ := visible
  have nonempty : ¬nameEnd ≤ nameStart := by
    obtain ⟨_, _, _, _, _⟩ := names
    omega
  have fnInside : ast.inTable fn := ⟨Int.natCast_nonneg fn, innermost.1.1⟩
  simp only [hasEarlierLocalBindingNamed, if_neg nonempty, findEnclosingFnNode_innermost inside innermost,
    Int.not_lt.mpr (Int.natCast_nonneg fn), if_false, fmtFirstChild_of_inTable fnInside] at search
  obtain ⟨first, skip, search⟩ := Option.bind_eq_some_iff.mp search
  obtain ⟨hit, params, search⟩ := Option.bind_eq_some_iff.mp search
  cases hit with
  | true => exact (Option.some.inj search).symm
  | false =>
    simp only [Bool.false_eq_true, if_false] at search
    obtain ⟨index, table, search⟩ := Option.map_eq_some_iff.mp search
    have earlierLocal (form : b.form = .varOrConst ∨ b.form = .shortAssign)
        (earlier : isEarlierIn (ast.node fn) (ast.node nodeId) (ast.node b.node)) : found = true := by
      obtain ⟨stmt, valid, same, declares⟩ := brings.declares_or form
      rw [same] at earlier
      have stmtInside : ast.inTable stmt := by
        refine node_inTable_of_kind ast valid ?_
        cases declares with
        | own kind | grouped kind _ => rcases kind with kind | kind <;> simp [kind]
        | shortAssign kind _ => simp [kind]
        | localFn kind => simp [kind]
      have isSome := firstIndex_of_mem
        (fun hit => earlierEntryDeclares_of_declares valid declares form earlier names)
        (List.mem_range.mpr stmtInside.2) table
      rw [← search, isSome]
    cases form : b.form with
    | varOrConst => exact earlierLocal (.inl form) (by simpa [form] using searched)
    | shortAssign => exact earlierLocal (.inr form) (by simpa [form] using searched)
    | param =>
      simp only [form] at searched
      obtain ⟨leading, before⟩ := searched
      obtain ⟨valid, kind, own⟩ := brings.param_own form
      have paramInside := node_inTable_of_kind ast valid (by simp [kind])
      have declared : nodeDeclaresNameRange ast src room b.node nameStart nameEnd = some true := by
        have same := fmtSlicesEqual_of_names (own ▸ names)
        simp only [ownBinding] at same
        simp [nodeDeclaresNameRange, paramInside, nonempty, kind, same]
      have none := anyParam_of_mem (skipTypeParams_leading leading skip)
        (fun hit test => by simpa [before, declared] using test.symm) params
      simp at none
    | anonParam | forKey | forValue | caseAlias | localFn => simp [form] at searched

/-- Where the formatter writes a short assignment, it has searched: the declaration is in the table and no earlier
binding was found. -/
theorem canEmitShortVarDecl_searched {room : Nat} {kw : String} {nameCount : Nat} {nodeId typeNodeId initNodeId : Int}
    (emits : canEmitShortVarDecl ast src room kw nameCount nodeId typeNodeId initNodeId = some true) :
    ast.inTable nodeId ∧ hasEarlierLocalBindingNamed ast src room nodeId (ast.node nodeId).dataStart
      (ast.node nodeId).dataEnd = some false := by
  unfold canEmitShortVarDecl at emits
  split at emits
  · simp at emits
  split at emits
  · simp at emits
  rename_i inTable
  simp only at emits
  split at emits
  · simp at emits
  obtain ⟨parent, _, emits⟩ := Option.bind_eq_some_iff.mp emits
  split at emits
  · simp at emits
  obtain ⟨found, search, negated⟩ := Option.map_eq_some_iff.mp emits
  have none : found = false := by simpa using negated
  exact ⟨by_contra fun outside => inTable (.inl outside), none ▸ search⟩

/-- Where the formatter writes a short assignment, the declared name is fresh exactly when it is fresh among the
visible bindings that the search does not look at. -/
theorem canEmitShortVarDecl_fresh_iff (room : Nat) (kw : String) (nameCount : Nat) (nodeId typeNodeId initNodeId : Int)
    (emits : canEmitShortVarDecl ast src room kw nameCount nodeId typeNodeId initNodeId = some true) :
    (∀ b, VisibleAt ast nodeId b → ¬b.Names src (ast.node nodeId).dataStart (ast.node nodeId).dataEnd) ↔
      ∀ b, VisibleAt ast nodeId b → ¬IsSearched ast nodeId b →
        ¬b.Names src (ast.node nodeId).dataStart (ast.node nodeId).dataEnd := by
  obtain ⟨inside, search⟩ := canEmitShortVarDecl_searched emits
  constructor
  · intro fresh b visible _
    exact fresh b visible
  · intro fresh b visible names
    by_cases searched : IsSearched ast nodeId b
    · have found := hasEarlierLocalBindingNamed_of_searched inside visible searched names search
      simp at found
    · exact fresh b visible searched names

end

/-- `fn f(xs [int]) { for x in xs { var x = 1 } }` -/
def loopVarSource : List UInt8 := bytesOf "fn f(xs [int]) { for x in xs { var x = 1 } }"

/-- The syntax tree of `loopVarSource`. -/
def loopVarAst : Ast where
  root := 0
  nodes := [
    ⟨0, 44, 1, -1, 0, 0, .INVALID, .FILE, 0⟩,
    ⟨0, 44, 2, -1, 3, 4, .INVALID, .FN, 0⟩,
    ⟨5, 13, 4, 5, 5, 7, .INVALID, .PARAM, 0⟩,
    ⟨9, 12, -1, -1, 9, 12, .INVALID, .TYPE_NAME, 0⟩,
    ⟨8, 13, 3, -1, 0, 0, .INVALID, .TYPE_SLICE, 0⟩,
    ⟨15, 44, 6, -1, 0, 0, .INVALID, .BLOCK, 0⟩,
    ⟨17, 42, 7, -1, 0, 0, .INVALID, .FOR, AstFlag.FOR_IN⟩,
    ⟨21, 22, -1, 8, 21, 22, .INVALID, .IDENT, 0⟩,
    ⟨26, 28, -1, 9, 26, 28, .INVALID, .IDENT, 0⟩,
    ⟨29, 42, 11, -1, 0, 0, .INVALID, .BLOCK, 0⟩,
    ⟨39, 40, -1, -1, 39, 40, .INVALID, .INT, 0⟩,
    ⟨31, 40, 10, -1, 35, 36, .INVALID, .VAR, 0⟩]

/-- The condition is met or missed together with the freshness of the name in `loopVarAst` too. -/
theorem loopVar_fresh_iff :
    (∀ b, VisibleAt loopVarAst 11 b → ¬b.Names loopVarSource 35 36) ↔
      ∀ b, VisibleAt loopVarAst 11 b → ¬IsSearched loopVarAst 11 b → ¬b.Names loopVarSource 35 36 :=
  canEmitShortVarDecl_fresh_iff 12 "var" 1 11 (-1) 10 (by decide)

/-- The formatter writes `x := 1` in the body of the loop, where the loop binding `x` is visible. -/
theorem loopVar_not_fresh :
    canEmitShortVarDecl loopVarAst loopVarSource 12 "var" 1 11 (-1) 10 = some true ∧
      ∃ b, VisibleAt loopVarAst 11 b ∧ b.Names loopVarSource (loopVarAst.node 11).dataStart
        (loopVarAst.node 11).dataEnd := by
  constructor
  · decide
  · refine ⟨ownBinding loopVarAst .forValue 7, ⟨6, 9, ?_, ?_, ?_⟩, by decide⟩
    · exact .next (by decide) (.next (by decide) (.here (by decide)))
    · exact .child (.here (by decide)) (.refl 11)
    · exact .forValue (by decide) (by decide) (by decide) (by decide)

end HopHop
