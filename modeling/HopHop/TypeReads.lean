import HopHop.TypeInstance

namespace HopHop

open TypeTable

namespace NodeList

/-- What holds of every node of the trees. -/
def Forall (p : AstNode → NodeList → Prop) : NodeList → Prop
  | nil => True
  | cons _ n kids rest => p n kids ∧ kids.Forall p ∧ rest.Forall p

/-- What holds of the trees themselves once one that counts stands before, or from the start if `later` is set. -/
def EachLater (p : AstNode → NodeList → Prop) (counts : AstNode → Bool) : Bool → NodeList → Prop
  | _, nil => True
  | later, cons _ n kids rest => (later = true → p n kids) ∧ rest.EachLater p counts (later || counts n)

theorem Forall.mono {p q : AstNode → NodeList → Prop} (imp : ∀ n kids, p n kids → q n kids) :
    ∀ {l : NodeList}, l.Forall p → l.Forall q
  | nil, _ => trivial
  | cons _ n kids _, ⟨here, below, after⟩ => ⟨imp n kids here, Forall.mono imp below, Forall.mono imp after⟩

theorem EachLater.mono {p q : AstNode → NodeList → Prop} (imp : ∀ n kids, p n kids → q n kids)
    {counts : AstNode → Bool} : ∀ {l : NodeList} {later : Bool}, l.EachLater p counts later → l.EachLater q counts later
  | nil, _, _ => trivial
  | cons _ n kids _, _, ⟨here, after⟩ => ⟨fun isLater => imp n kids (here isLater), EachLater.mono imp after⟩

/-- All the nodes are results. -/
def OnlyResults : NodeList → Prop
  | nil => True
  | cons _ n _ rest => n.flags = 1 ∧ rest.OnlyResults

end NodeList

/-- What holds at a node and everywhere below it. -/
def Everywhere (p : AstNode → NodeList → Prop) (n : AstNode) (kids : NodeList) : Prop := p n kids ∧ kids.Forall p

theorem Everywhere.mono {p q : AstNode → NodeList → Prop} (imp : ∀ n kids, p n kids → q n kids) {n : AstNode}
    {kids : NodeList} (all : Everywhere p n kids) : Everywhere q n kids :=
  ⟨imp n kids all.1, all.2.mono imp⟩

/-- The buffers are as they were. -/
def Untouched (r r' : TypeReader) : Prop :=
  r'.scratchParamTypes = r.scratchParamTypes ∧ r'.scratchParamFlags = r.scratchParamFlags

theorem Untouched.refl (r : TypeReader) : Untouched r r := ⟨rfl, rfl⟩

theorem Untouched.trans {r r' r'' : TypeReader} (first : Untouched r r') (second : Untouched r' r'') :
    Untouched r r'' :=
  ⟨second.1.trans first.1, second.2.trans first.2⟩

/-- The type is no alias, or one that is resolved. -/
def Settled (c : TypeTable) (id : TypeId) : Prop :=
  ∀ t, c.entry id = some t → t.kind = .ALIAS → t.flags.aliasResolved = true

/-- An alias that cannot be resolved: it is being resolved, or its declaration starts with a type parameter. -/
def Stuck (scope : TypeScope) (c : TypeTable) (id : Nat) : Prop :=
  ∃ t, c.types[id]? = some t ∧ (t.kind = .ALIAS → t.flags.aliasResolving = true ∨
    ∃ targetId target targetKids rest, scope.declChildren t.declNode = .cons targetId target targetKids rest ∧
      target.kind = .TYPE_PARAM)

/-- What a reader may have done: the table has grown, no type has left the buffers, and what stands in them still names
types of the table. -/
structure ReadsTo (working : List Nat) (r r' : TypeReader) : Prop where
  good : TypeTable.Good working r'.table
  grows : Grows r.table r'.table
  marks : Marks r.table r'.table
  types_length : r'.scratchParamTypes.length = r.scratchParamTypes.length
  flags_length : r'.scratchParamFlags.length = r.scratchParamFlags.length
  kept : ∀ (i : Nat) (id : TypeId), r.scratchParamTypes[i]? = some id → r.table.Holds id →
    ∃ id', r'.scratchParamTypes[i]? = some id' ∧ r'.table.Holds id'

/-- The table that types are read over: it has grown from `start`, the generic declarations are in order, and the
aliases that are set aside cannot be resolved. -/
structure Ready (scope : TypeScope) (start : TypeTable) (working : List Nat) (r : TypeReader) : Prop where
  good : TypeTable.Good working r.table
  grows : Grows start r.table
  lengths : r.scratchParamFlags.length = r.scratchParamTypes.length
  void : r.table.Holds r.table.typeVoid
  anytype : r.table.Holds r.table.typeAnytype
  index : ∀ (i : Nat) (nt : NamedType), r.table.namedTypes[i]? = some nt → nt.templateRootNamedIndex < 0 →
    0 < nt.templateArgCount → i < 2 ^ 15
  generic : ∀ nt ∈ r.table.namedTypes, nt.templateRootNamedIndex < 0 → 0 < nt.templateArgCount →
    ∀ t, r.table.types[nt.typeId]? = some t → t.kind = .ALIAS → nt.typeId ∈ working ∧ t.baseType = none
  stuck : ∀ id ∈ working, Stuck scope r.table id
  idle : ∀ nt ∈ r.table.namedTypes, 0 ≤ nt.templateRootNamedIndex → nt.typeId ∉ working

/-- What the look-ups and the evaluation of constants come to over every table that has grown from `start`. -/
structure TypeScope.Lawful (scope : TypeScope) (values : TypeValues) (start : TypeTable) : Prop where
  good : ∃ working, TypeTable.Good working start
  stable : ∀ {c : TypeTable}, Grows start c →
    scope.findBuiltinType c = scope.findBuiltinType start ∧
    scope.resolveTypeNamePath c = scope.resolveTypeNamePath start ∧
    scope.resolveActiveTypeParamType c = scope.resolveActiveTypeParamType start ∧
    scope.findBuiltinQualifiedNamedType c = scope.findBuiltinQualifiedNamedType start
  holds : ∀ {name : List UInt8} {id : Nat}, scope.findBuiltinType start name = some id ∨
    scope.resolveTypeNamePath start name = some id ∨ scope.resolveActiveTypeParamType start name = some id ∨
    scope.findBuiltinQualifiedNamedType start name = some id → start.Holds (some id)
  constantType : ∀ {working : List Nat} {n : AstNode} {r r' : TypeReader} {id : TypeId},
    Ready scope start working r → scope.constantType n r = .ok (id, r') →
      ReadsTo working r r' ∧ r'.table.Holds id ∧ id = values.constantType (r.table.nameOf n.dataStart n.dataEnd)
  arrayLen : ∀ {working : List Nat} {nodeId : Int} {n : AstNode} {kids : NodeList} {r r' : TypeReader} {len : UInt32},
    Ready scope start working r → scope.arrayLenExpr nodeId n kids r = .ok (len, r') →
      ReadsTo working r r' ∧ len = values.arrayLen n kids

section

variable (scope : TypeScope) (c : TypeTable)

/-- Reading the node itself leaves the buffers alone: it has no elements and no parameters, and neither its length nor
its name is something whose evaluation uses them. -/
def QuietNodeWith (quietAlias : TypeId → Prop) (n : AstNode) (kids : NodeList) : Prop :=
  match n.kind with
  | .TYPE_NAME =>
    match scope.target c (c.nameOf n.dataStart n.dataEnd) with
    | .type id => quietAlias id
    | .generic _ => True
    | .constant => ∀ (r r' : TypeReader) (id : TypeId), scope.constantType n r = .ok (id, r') →
      Untouched r r' ∧ Settled r'.table id
  | .TYPE_ARRAY =>
    match kids with
    | .cons _ _ _ (.cons lenId len lenKids .nil) => ∀ (r r' : TypeReader) (v : UInt32),
      scope.arrayLenExpr lenId len lenKids r = .ok (v, r') → Untouched r r'
    | _ => True
  | .TYPE_FN => kids.OnlyResults
  | .TYPE_TUPLE => False
  | _ => True

/-- Resolving the alias leaves the buffers alone, `depth` declarations down: it is resolved, or its declaration's target
is read without them. -/
def QuietAlias : Nat → TypeId → Prop
  | 0, id => Settled c id
  | depth + 1, id => Settled c id ∨ ∃ t, c.entry id = some t ∧ ∃ targetId target targetKids rest,
    scope.declChildren t.declNode = .cons targetId target targetKids rest ∧
      Everywhere (QuietNodeWith scope c (QuietAlias depth)) target targetKids

abbrev QuietNode (depth : Nat) : AstNode → NodeList → Prop := QuietNodeWith scope c (QuietAlias scope c depth)

/-- No name, length, element or parameter below writes to the buffers. -/
def QuietType (n : AstNode) (kids : NodeList) : Prop := ∃ depth, Everywhere (QuietNode scope c depth) n kids

/-- The node itself is read as it is written: its length is no more than 32 bits hold, and of its elements or
parameters only the first one may use the buffers. -/
def PlainNode (n : AstNode) (kids : NodeList) : Prop :=
  match n.kind with
  | .TYPE_ARRAY => kids.length ≤ 1 → decimal (c.nameOf n.dataStart n.dataEnd) < 2 ^ 32
  | .TYPE_FN => kids.EachLater (fun n kids => n.flags ≠ 1 → QuietType scope c n kids) (·.flags ≠ 1) false
  | .TYPE_TUPLE => kids.EachLater (QuietType scope c) (fun _ => true) false
  | _ => True

/-- The type is read as it is written. -/
abbrev PlainType : AstNode → NodeList → Prop := Everywhere (PlainNode scope c)

end

section

variable {scope : TypeScope} {values : TypeValues} {start : TypeTable} {working : List Nat} {r r' : TypeReader}

theorem ReadsTo.refl (good : TypeTable.Good working r.table) : ReadsTo working r r :=
  ⟨good, .refl _, .refl _, rfl, rfl, fun _ id atI holds => ⟨id, atI, holds⟩⟩

theorem ReadsTo.trans {r'' : TypeReader} (first : ReadsTo working r r') (second : ReadsTo working r' r'') :
    ReadsTo working r r'' where
  good := second.good
  grows := first.grows.trans second.grows
  marks := first.marks.trans second.marks
  types_length := second.types_length.trans first.types_length
  flags_length := second.flags_length.trans first.flags_length
  kept := by
    intro i id atI holds
    obtain ⟨id', atI', holds'⟩ := first.kept i id atI holds
    exact second.kept i id' atI' holds'

/-- Entries and instances that a step adds are no declarations. -/
theorem TypeTable.Grows.decl_old {c c' : TypeTable} (grows : Grows c c') {i : Nat} {nt : NamedType}
    (atI : c'.namedTypes[i]? = some nt) (isDecl : nt.templateRootNamedIndex < 0) : c.namedTypes[i]? = some nt := by
  obtain ⟨more, same, fresh⟩ := grows.named
  rw [same] at atI
  by_cases old : i < c.namedTypes.length
  · rwa [List.getElem?_append_left old] at atI
  · rw [List.getElem?_append_right (by omega)] at atI
    exact absurd (fresh nt (List.mem_of_getElem? atI)).2 (Int16.not_le.mpr isDecl)

theorem Stuck.after {c c' : TypeTable} {id : Nat} (stuck : Stuck scope c id) (grows : Grows c c')
    (marks : Marks c c') : Stuck scope c' id := by
  obtain ⟨t, atId, fails⟩ := stuck
  obtain ⟨t', atId', keeps⟩ := grows.types id t atId
  obtain ⟨u, atU, same⟩ := marks id t atId
  rw [atId'] at atU
  cases atU
  refine ⟨t', atId', fun isAlias => ?_⟩
  rw [same, keeps.declNode]
  exact fails (keeps.kind ▸ isAlias)

theorem Ready.after (ready : Ready scope start working r) (reads : ReadsTo working r r') :
    Ready scope start working r' where
  good := reads.good
  grows := ready.grows.trans reads.grows
  lengths := by rw [reads.types_length, reads.flags_length, ready.lengths]
  void := by
    rw [reads.grows.typeVoid]
    exact reads.grows.holds ready.void
  anytype := by
    rw [reads.grows.typeAnytype]
    exact reads.grows.holds ready.anytype
  index := fun i nt atI isDecl => ready.index i nt (reads.grows.decl_old atI isDecl) isDecl
  generic := by
    intro nt member isDecl some' t' atNt isAlias
    obtain ⟨i, atI⟩ := List.getElem?_of_mem member
    have old := List.mem_of_getElem? (reads.grows.decl_old atI isDecl)
    obtain ⟨t, atNt', -⟩ := ready.good.names.entries nt old
    obtain ⟨u, atU, keeps⟩ := reads.grows.types _ t atNt'
    rw [atNt] at atU
    cases atU
    obtain ⟨member', noBase⟩ := ready.generic nt old isDecl some' t atNt' (keeps.kind ▸ isAlias)
    obtain ⟨u, atU, unresolved⟩ := reads.good.waiting _ member'
    rw [atNt] at atU
    cases atU
    exact ⟨member', (keeps.unresolved unresolved).trans noBase⟩
  stuck := fun id member => (ready.stuck id member).after reads.grows reads.marks
  idle := by
    intro nt member isInstance inWorking
    obtain ⟨more, same, fresh⟩ := reads.grows.named
    rw [same] at member
    rcases List.mem_append.mp member with old | new
    · exact ready.idle nt old isInstance inWorking
    · obtain ⟨t, atId, -⟩ := ready.good.waiting _ inWorking
      have := (List.getElem?_eq_some_iff.mp atId).1
      have := (fresh nt new).1
      omega

theorem Ready.generics (ready : Ready scope start working r) : Generics r.table :=
  ⟨ready.index, fun nt member isDecl some' t atNt isAlias => (ready.generic nt member isDecl some' t atNt isAlias).2⟩

/-- What type names may stand in a place is of no matter to the table. -/
theorem Ready.allowing (ready : Ready scope start working r) (anytype constNumeric : Bool) :
    Ready scope start working
      { r with allowAnytypeParamType := anytype, allowConstNumericTypeName := constNumeric } :=
  ⟨ready.good, ready.grows, ready.lengths, ready.void, ready.anytype, ready.index, ready.generic, ready.stuck, ready.idle⟩

/-- A step of the table alone. -/
theorem ReadsTo.withTable {c : TypeTable} (good : TypeTable.Good working c) (grows : Grows r.table c) (marks : Marks r.table c) :
    ReadsTo working r { r with table := c } :=
  ⟨good, grows, marks, rfl, rfl, fun _ id atI holds => ⟨id, atI, grows.holds holds⟩⟩

/-- An instance goes back to its declaration in the grown table too. -/
theorem rootOf_grows {c : TypeTable} (good : TypeTable.Good working start) (grows : Grows start c) {id : Nat}
    (holds : start.Holds (some id)) : TypeReader.rootOf c (some id) = TypeReader.rootOf start (some id) := by
  obtain ⟨more, same, fresh⟩ := grows.named
  obtain ⟨n, below, isId⟩ := holds
  cases isId
  have none' : more.find? (fun nt => some nt.typeId = some id) = none := by
    rw [List.find?_eq_none]
    intro nt member
    have := (fresh nt member).1
    simp only [decide_eq_true_eq, Option.some.injEq]
    omega
  unfold TypeReader.rootOf
  rw [same, List.find?_append, none', Option.or_none]
  cases found : start.namedTypes.find? (fun nt => some nt.typeId = some id) with
  | none => rfl
  | some nt =>
    have member := List.mem_of_find?_eq_some found
    by_cases isDecl : nt.templateRootNamedIndex < 0
    · simp only [isDecl, if_true]
    · obtain ⟨rootNt, atRoot, -⟩ := good.names.rooted nt member (Int16.not_lt.mp isDecl)
      have atRoot' : (start.namedTypes ++ more)[nt.templateRootNamedIndex.toNatClampNeg]? = some rootNt := by
        rw [List.getElem?_append_left (List.getElem?_eq_some_iff.mp atRoot).1, atRoot]
      simp only [isDecl, if_false, atRoot, atRoot']

/-- A name comes to the same in the grown table. -/
theorem TypeScope.Lawful.target_eq {c : TypeTable} (lawful : scope.Lawful values start) (grows : Grows start c) :
    scope.target c = scope.target start := by
  obtain ⟨working, good⟩ := lawful.good
  obtain ⟨builtin, path, param, qualified⟩ := lawful.stable grows
  funext name
  simp only [TypeScope.target, builtin, path, param, qualified, grows.typeAnytype]
  cases found : scope.findBuiltinType start name with
  | some id => rfl
  | none =>
    cases named : scope.resolveTypeNamePath start name with
    | none => rfl
    | some id => simp only [rootOf_grows good grows (lawful.holds (.inr (.inl named)))]

theorem TypeScope.Lawful.target_holds (lawful : scope.Lawful values start) (ready : Ready scope start working r)
    {name : List UInt8} {id : TypeId} (target : scope.target r.table name = .type id) : r.table.Holds id := by
  obtain ⟨builtin, path, param, qualified⟩ := lawful.stable ready.grows
  simp only [TypeScope.target, builtin, path, param, qualified] at target
  split at target
  · cases target
    exact ready.anytype
  split at target
  · rename_i found
    cases target
    exact ready.grows.holds (lawful.holds (.inl found))
  split at target
  · rename_i named
    have holds := ready.grows.holds (lawful.holds (.inr (.inl named)))
    split at target
    · cases target
      exact holds
    · rename_i isRoot
      split at target
      · cases target
        obtain ⟨i, rootNt, atRoot, rfl, -⟩ := rootOf_spec ready.good isRoot
        exact ready.good.holds_typeId (List.mem_of_getElem? atRoot)
      · cases target
  split at target
  · rename_i found
    cases target
    exact ready.grows.holds (lawful.holds (.inr (.inr (.inl found))))
  split at target
  · rename_i found
    cases target
    exact ready.grows.holds (lawful.holds (.inr (.inr (.inr found))))
  · cases target

theorem Settled.grows {c : TypeTable} (grows : Grows r.table c) {id : TypeId} (holds : r.table.Holds id)
    (settled : Settled r.table id) : Settled c id := by
  intro t' atId' isAlias
  obtain ⟨t, atId⟩ := holds.entry
  obtain ⟨u, atU, keeps⟩ := grows.entry atId
  rw [atId'] at atU
  cases atU
  have resolved := settled t atId (keeps.kind ▸ isAlias)
  rw [(keeps.base fun _ => resolved).2, resolved]

theorem Settled.of_shape {c : TypeTable} {id : TypeId} {s : TypeShape TypeId} (isShape : c.shape id = some s) :
    Settled c id := by
  intro t atId isAlias
  simp [shape_eq atId, shapeOf, isAlias] at isShape

theorem QuietAlias.settled {c : TypeTable} {id : TypeId} (settled : Settled c id) (depth : Nat) :
    QuietAlias scope c depth id := by
  cases depth with
  | zero => exact settled
  | succ depth => exact .inl settled

/-- A node that is read without the buffers is so over the grown table too. -/
theorem QuietNodeWith.grows {c : TypeTable} (lawful : scope.Lawful values start)
    (ready : Ready scope start working r) (grows : Grows r.table c) {q q' : TypeId → Prop}
    (imp : ∀ id, r.table.Holds id → q id → q' id) {n : AstNode} {kids : NodeList}
    (quiet : QuietNodeWith scope r.table q n kids) : QuietNodeWith scope c q' n kids := by
  have same : scope.target c = scope.target r.table :=
    (lawful.target_eq (ready.grows.trans grows)).trans (lawful.target_eq ready.grows).symm
  unfold QuietNodeWith at quiet ⊢
  rw [same, grows.nameOf]
  split at quiet
  · split at quiet
    · rename_i id target
      exact imp id (lawful.target_holds ready target) quiet
    · trivial
    · exact quiet
  · exact quiet
  · exact quiet
  · exact quiet
  · trivial

theorem QuietAlias.grown {c : TypeTable} (lawful : scope.Lawful values start) (ready : Ready scope start working r)
    (grows : Grows r.table c) : ∀ (depth : Nat) (id : TypeId), r.table.Holds id → QuietAlias scope r.table depth id →
      QuietAlias scope c depth id := by
  intro depth
  induction depth with
  | zero => exact fun id holds settled => Settled.grows grows holds settled
  | succ depth ih =>
    intro id holds quiet
    rcases quiet with settled | ⟨t, atId, targetId, target, targetKids, rest, children, all⟩
    · exact .inl (Settled.grows grows holds settled)
    · obtain ⟨t', atId', keeps⟩ := grows.entry atId
      refine .inr ⟨t', atId', targetId, target, targetKids, rest, keeps.declNode ▸ children, all.mono ?_⟩
      intro n kids node
      exact QuietNodeWith.grows lawful ready grows ih node

theorem QuietNode.after (lawful : scope.Lawful values start) (ready : Ready scope start working r)
    (reads : ReadsTo working r r') {depth : Nat} {n : AstNode} {kids : NodeList}
    (quiet : QuietNode scope r.table depth n kids) : QuietNode scope r'.table depth n kids :=
  QuietNodeWith.grows lawful ready reads.grows (QuietAlias.grown lawful ready reads.grows depth) quiet

theorem QuietType.after (lawful : scope.Lawful values start) (ready : Ready scope start working r)
    (reads : ReadsTo working r r') {n : AstNode} {kids : NodeList} (quiet : QuietType scope r.table n kids) :
    QuietType scope r'.table n kids := by
  obtain ⟨depth, all⟩ := quiet
  exact ⟨depth, all.mono fun _ _ node => QuietNode.after lawful ready reads node⟩

theorem PlainNode.after (lawful : scope.Lawful values start) (ready : Ready scope start working r)
    (reads : ReadsTo working r r') {n : AstNode} {kids : NodeList} (plain : PlainNode scope r.table n kids) :
    PlainNode scope r'.table n kids := by
  unfold PlainNode at plain ⊢
  rw [reads.grows.nameOf]
  split at plain
  · exact plain
  · refine plain.mono ?_
    intro n kids quiet isParam
    exact (quiet isParam).after lawful ready reads
  · exact plain.mono fun _ _ quiet => quiet.after lawful ready reads
  · trivial

end

end HopHop
