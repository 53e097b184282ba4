import HopHop.TypeReads

namespace HopHop

open TypeTable TypeReader

theorem ok_of_bind {ε α β : Type} {x : Except ε α} {f : α → Except ε β} {b : β} (result : x >>= f = .ok b) :
    ∃ a, x = .ok a ∧ f a = .ok b := by
  cases x with
  | error e => cases result
  | ok a => exact ⟨a, rfl, result⟩

/-- What the resolver comes to for a type node: a type of the table; the buffers are untouched if the node is quiet, and
the type is the one that is written if the node is plain. -/
structure Resolved (scope : TypeScope) (values : TypeValues) (working : List Nat) (n : AstNode) (kids : NodeList)
    (r : TypeReader) (id : TypeId) (r' : TypeReader) : Prop where
  reads : ReadsTo working r r'
  holds : r'.table.Holds id
  quiet : ∀ depth, Everywhere (QuietNode scope r.table depth) n kids →
    Untouched r r' ∧ QuietAlias scope r'.table depth id
  denotes : PlainType scope r.table n kids → ∃ t, n.written r.table.src values kids = some t ∧
    Denotes scope values r'.table t id

/-- The same for the children of a node. -/
structure ResolvedAll (scope : TypeScope) (values : TypeValues) (working : List Nat) (kids : NodeList)
    (r : TypeReader) (ids : List TypeId) (r' : TypeReader) : Prop where
  reads : ReadsTo working r r'
  holds : ∀ id ∈ ids, r'.table.Holds id
  length : ids.length = kids.length
  quiet : ∀ depth, kids.Forall (QuietNode scope r.table depth) → Untouched r r'
  denotes : kids.Forall (PlainNode scope r.table) →
    ∃ ts, (kids.parts r.table.src values).mapM WrittenPart.term = some ts ∧ DenoteAll scope values r'.table ts ids

def Resolver (scope : TypeScope) (values : TypeValues) (start : TypeTable)
    (resolve : Int → AstNode → NodeList → TypeReader → Except Diag (TypeId × TypeReader)) : Prop :=
  ∀ {working : List Nat} {nodeId : Int} {n : AstNode} {kids : NodeList} {r r' : TypeReader} {id : TypeId},
    Ready scope start working r → resolve nodeId n kids r = .ok (id, r') → Resolved scope values working n kids r id r'

/-- Resolving an alias that is resolved, or no alias, does nothing; it leaves the buffers alone where its declaration
does. -/
def AliasResolver (scope : TypeScope) (start : TypeTable)
    (resolveAlias : TypeReader → TypeId → Except Diag TypeReader) : Prop :=
  ∀ {working : List Nat} {r r' : TypeReader} {id : TypeId},
    Ready scope start working r → resolveAlias r id = .ok r' → ReadsTo working r r' ∧
      (Settled r.table id → r' = r) ∧ ∀ depth, QuietAlias scope r.table depth id → Untouched r r'

section

variable {scope : TypeScope} {values : TypeValues} {start : TypeTable} {working : List Nat}

theorem interned_ok {r r' : TypeReader} {made : TypeId × TypeTable} {id : TypeId}
    (result : r.interned made = .ok (id, r')) :
    ∃ i, made.1 = some i ∧ id = some i ∧ r' = { r with table := made.2 } := by
  obtain ⟨made, c⟩ := made
  cases made with
  | none => cases result
  | some i =>
    cases result
    exact ⟨i, rfl, rfl, rfl⟩

/-- A structural type is interned: only the table grows. -/
theorem TypeTable.Interns.read {r r' : TypeReader} {s : TypeShape TypeId} {made : TypeId × TypeTable} {id : TypeId}
    (interns : Interns working r.table s made) (result : r.interned made = .ok (id, r')) :
    ReadsTo working r r' ∧ r'.table.shape id = some s ∧ Untouched r r' := by
  obtain ⟨i, isMade, rfl, rfl⟩ := interned_ok result
  refine ⟨.withTable interns.good interns.grows interns.marks, ?_, rfl, rfl⟩
  rw [← isMade]
  exact interns.shape i isMade

theorem denotes_made {c : TypeTable} {id : TypeId} {s : TypeShape TypeId} {ts : List TypeTerm}
    (shape : c.shape id = some s) (all : DenoteAll scope values c ts s.parts) :
    Denotes scope values c (.node (.made s.head) ts) id :=
  ⟨.of_shape shape, s.parts, all, s, shape, rfl, rfl⟩

theorem denoteAll_one {c : TypeTable} {t : TypeTerm} {id : TypeId} (denotes : Denotes scope values c t id) :
    DenoteAll scope values c [t] [id] :=
  ⟨id, [], rfl, denotes, rfl⟩

theorem Ready.denotes_after {r r' : TypeReader} (ready : Ready scope start working r)
    (lawful : scope.Lawful values start) (reads : ReadsTo working r r') {t : TypeTerm} {id : TypeId}
    (denotes : Denotes scope values r.table t id) : Denotes scope values r'.table t id :=
  denotes.grows ready.good reads.grows
    ((lawful.target_eq (ready.after reads).grows).trans (lawful.target_eq ready.grows).symm) t

theorem Ready.denoteAll_after {r r' : TypeReader} (ready : Ready scope start working r)
    (lawful : scope.Lawful values start) (reads : ReadsTo working r r') {ts : List TypeTerm} {ids : List TypeId}
    (all : DenoteAll scope values r.table ts ids) : DenoteAll scope values r'.table ts ids :=
  DenoteAll.grows ready.good reads.grows
    ((lawful.target_eq (ready.after reads).grows).trans (lawful.target_eq ready.grows).symm) ts all

/-- The name allows nothing that reading the type depends on. -/
theorem Resolved.allowing {n : AstNode} {kids : NodeList} {r r' : TypeReader} {id : TypeId}
    {anytype constNumeric : Bool}
    (resolved : Resolved scope values working n kids
      { r with allowAnytypeParamType := anytype, allowConstNumericTypeName := constNumeric } id r')
    (anytype' constNumeric' : Bool) :
    Resolved scope values working n kids r id
      { r' with allowAnytypeParamType := anytype', allowConstNumericTypeName := constNumeric' } :=
  ⟨⟨resolved.reads.good, resolved.reads.grows, resolved.reads.marks, resolved.reads.types_length,
    resolved.reads.flags_length, resolved.reads.kept⟩, resolved.holds, resolved.quiet, resolved.denotes⟩

variable {resolve : Int → AstNode → NodeList → TypeReader → Except Diag (TypeId × TypeReader)}
variable {resolveAlias : TypeReader → TypeId → Except Diag TypeReader}

theorem resolveTypeArgs_spec (lawful : scope.Lawful values start) (resolver : Resolver scope values start resolve) :
    ∀ (kids : NodeList) {r r' : TypeReader} {args : List TypeId}, Ready scope start working r →
      resolveTypeArgs resolve kids r = .ok (args, r') → ResolvedAll scope values working kids r args r'
  | .nil, r, _, _, ready, result => by
    cases result
    refine ⟨.refl ready.good, ?_, rfl, fun _ _ => .refl r, fun _ => ⟨[], rfl, rfl⟩⟩
    intro id member
    cases member
  | .cons childId child childKids rest, r, r', args, ready, result => by
    obtain ⟨⟨arg, r₁⟩, here, result⟩ := ok_of_bind result
    obtain ⟨⟨more, r₂⟩, others, result⟩ := ok_of_bind result
    cases result
    have resolved := resolver ready here
    have ready₁ := ready.after resolved.reads
    have tail := resolveTypeArgs_spec lawful resolver rest ready₁ others
    refine ⟨resolved.reads.trans tail.reads, ?_, ?_, ?_, ?_⟩
    · intro id member
      rcases List.mem_cons.mp member with rfl | later
      · exact tail.reads.grows.holds resolved.holds
      · exact tail.holds id later
    · simp only [List.length_cons, NodeList.length, tail.length]
    · intro depth quiet
      have after := quiet.2.2.mono fun _ _ node => QuietNode.after lawful ready resolved.reads node
      exact (resolved.quiet depth ⟨quiet.1, quiet.2.1⟩).1.trans (tail.quiet depth after)
    · intro plain
      obtain ⟨t, written, denotes⟩ := resolved.denotes ⟨plain.1, plain.2.1⟩
      have after := plain.2.2.mono fun _ _ node => node.after lawful ready resolved.reads
      obtain ⟨ts, writtenAll, all⟩ := tail.denotes after
      rw [resolved.reads.grows.src] at writtenAll
      refine ⟨t :: ts, ?_, arg, more, rfl, ready₁.denotes_after lawful tail.reads denotes, all⟩
      rw [AstNode.written] at written
      simp only [NodeList.parts, List.mapM_cons, written, writtenAll]
      rfl

/-- A name without arguments. -/
theorem Resolved.name (lawful : scope.Lawful values start) {n : AstNode} {r r' : TypeReader} {id : TypeId}
    (ready : Ready scope start working r) (reads : ReadsTo working r r') (isName : n.kind = .TYPE_NAME)
    (holds : r'.table.Holds id)
    (quiet : ∀ depth, QuietNode scope r.table depth n .nil → Untouched r r' ∧ QuietAlias scope r'.table depth id)
    (means : LabelMeans scope values r.table (.name (r.table.nameOf n.dataStart n.dataEnd)) [] id) :
    Resolved scope values working n .nil r id r' := by
  refine ⟨reads, holds, fun depth all => quiet depth all.1, fun _ => ⟨.node (.name (r.table.nameOf n.dataStart n.dataEnd)) [], ?_, ?_⟩⟩
  · simp only [AstNode.written, WrittenPart.combine, isName, NodeList.parts]
    rfl
  · refine ⟨holds, [], rfl, ?_⟩
    have same := (lawful.target_eq (ready.after reads).grows).trans (lawful.target_eq ready.grows).symm
    simp only [LabelMeans, same] at means ⊢
    split at means
    · exact means
    · exact absurd rfl means.1
    · exact means

theorem withAlias_ok {r r' : TypeReader} {id id' : TypeId} (result : withAlias resolveAlias r id = .ok (id', r')) :
    id' = id ∧ resolveAlias r id = .ok r' := by
  obtain ⟨r₁, here, result⟩ := ok_of_bind result
  cases result
  exact ⟨rfl, here⟩

/-- A name that stands for one type, whose alias is resolved if there is need. -/
theorem Resolved.ofType (lawful : scope.Lawful values start) (aliases : AliasResolver scope start resolveAlias)
    {n : AstNode} {r r' : TypeReader} {id id' : TypeId} (ready : Ready scope start working r)
    (isName : n.kind = .TYPE_NAME)
    (target : scope.target r.table (r.table.nameOf n.dataStart n.dataEnd) = .type id)
    (result : withAlias resolveAlias r id = .ok (id', r')) : Resolved scope values working n .nil r id' r' := by
  obtain ⟨rfl, here⟩ := withAlias_ok result
  obtain ⟨reads, -, untouched⟩ := aliases ready here
  have holds := lawful.target_holds ready target
  refine .name lawful ready reads isName (reads.grows.holds holds) ?_ ?_
  · intro depth quiet
    simp only [QuietNodeWith, isName, target] at quiet
    exact ⟨untouched depth quiet, QuietAlias.grown lawful ready reads.grows depth _ holds quiet⟩
  · simp [LabelMeans, target]

theorem isEmpty_iff {kids : NodeList} : kids.isEmpty = true ↔ kids = .nil := by
  cases kids <;> simp [NodeList.isEmpty]

theorem resolveOtherName_spec (lawful : scope.Lawful values start) (aliases : AliasResolver scope start resolveAlias)
    {n : AstNode} {hasArgs : Bool} {r r' : TypeReader} {id : TypeId} (ready : Ready scope start working r)
    (isName : n.kind = .TYPE_NAME) (notAny : r.table.nameOf n.dataStart n.dataEnd ≠ bytesOf "anytype")
    (noBuiltin : scope.findBuiltinType r.table (r.table.nameOf n.dataStart n.dataEnd) = none)
    (noPath : scope.resolveTypeNamePath r.table (r.table.nameOf n.dataStart n.dataEnd) = none)
    (result : resolveOtherName resolveAlias scope n hasArgs r = .ok (id, r')) :
    hasArgs = false ∧ Resolved scope values working n .nil r id r' := by
  unfold resolveOtherName at result
  split at result
  · rename_i param active
    have target : scope.target r.table (r.table.nameOf n.dataStart n.dataEnd) = .type (some param) := by
      simp only [TypeScope.target, notAny, if_false, noBuiltin, noPath, active]
    split at result
    · cases result
    · rename_i noArgs
      cases result
      refine ⟨Bool.eq_false_iff.mpr noArgs, ?_⟩
      refine .name lawful ready (.refl ready.good) isName (lawful.target_holds ready target) ?_ ?_
      · intro depth quiet
        simp only [QuietNodeWith, isName, target] at quiet
        exact ⟨.refl r, quiet⟩
      · simp [LabelMeans, target]
  · rename_i noParam
    split at result
    · rename_i named qualified
      have target : scope.target r.table (r.table.nameOf n.dataStart n.dataEnd) = .type (some named) := by
        simp only [TypeScope.target, notAny, if_false, noBuiltin, noPath, noParam, qualified]
      split at result
      · cases result
      · rename_i noArgs
        exact ⟨Bool.eq_false_iff.mpr noArgs, .ofType lawful aliases ready isName target result⟩
    · rename_i unknown
      have target : scope.target r.table (r.table.nameOf n.dataStart n.dataEnd) = .constant := by
        simp only [TypeScope.target, notAny, if_false, noBuiltin, noPath, noParam, unknown]
      obtain ⟨⟨value, r₁⟩, here, result⟩ := ok_of_bind result
      cases hasArgs with
      | true => cases result
      | false =>
        cases result
        obtain ⟨reads, holds, isValue⟩ := lawful.constantType ready here
        refine ⟨rfl, .name lawful ready reads isName holds ?_ ?_⟩
        · intro depth quiet
          simp only [QuietNodeWith, isName, target] at quiet
          obtain ⟨untouched, settled⟩ := quiet _ _ _ here
          exact ⟨untouched, .settled settled depth⟩
        · simp [LabelMeans, target, isValue]

/-- A declared type, alone or with arguments. -/
theorem resolveNamed_spec (lawful : scope.Lawful values start) (resolver : Resolver scope values start resolve)
    (aliases : AliasResolver scope start resolveAlias) {n : AstNode} {kids : NodeList} {named depth : Nat}
    {r r' : TypeReader} {id : TypeId} (ready : Ready scope start working r) (isName : n.kind = .TYPE_NAME)
    (notAny : r.table.nameOf n.dataStart n.dataEnd ≠ bytesOf "anytype")
    (noBuiltin : scope.findBuiltinType r.table (r.table.nameOf n.dataStart n.dataEnd) = none)
    (path : scope.resolveTypeNamePath r.table (r.table.nameOf n.dataStart n.dataEnd) = some named)
    (result : resolveNamed resolve resolveAlias depth n kids (some named) r = .ok (id, r')) :
    Resolved scope values working n kids r id r' := by
  unfold resolveNamed at result
  split at result
  · rename_i noRoot
    have target : scope.target r.table (r.table.nameOf n.dataStart n.dataEnd) = .type (some named) := by
      simp only [TypeScope.target, notAny, if_false, noBuiltin, path, noRoot]
    split at result
    · cases result
    · rename_i noArgs
      simp only [Bool.not_eq_true, Bool.not_eq_false] at noArgs
      rw [isEmpty_iff.mp noArgs]
      exact .ofType lawful aliases ready isName target result
  · rename_i root templateArgCount isRoot
    have target : scope.target r.table (r.table.nameOf n.dataStart n.dataEnd) =
        if templateArgCount = 0 then .type root else .generic root := by
      simp only [TypeScope.target, notAny, if_false, noBuiltin, path, isRoot]
    split at result
    · rename_i plainName
      obtain ⟨noCount, noArgs⟩ := plainName
      rw [if_pos noCount] at target
      rw [isEmpty_iff.mp noArgs]
      exact .ofType lawful aliases ready isName target result
    rename_i withArgs
    split at result
    · cases result
    rename_i notEmpty
    split at result
    · cases result
    rename_i arity
    simp only [ne_eq, not_or, not_not] at arity
    have some' : templateArgCount ≠ 0 := by
      intro none'
      cases kids with
      | nil => exact notEmpty rfl
      | cons => simp only [NodeList.length] at arity; omega
    rw [if_neg some'] at target
    obtain ⟨⟨args, r₁⟩, argsRead, result⟩ := ok_of_bind result
    have all := resolveTypeArgs_spec lawful resolver kids ready argsRead
    have ready₁ := ready.after all.reads
    obtain ⟨i, rootNt, atRoot, rfl, isDecl, count⟩ := rootOf_spec ready.good isRoot
    have atRoot₁ : r₁.table.namedTypes[i]? = some rootNt := by
      obtain ⟨more, same, -⟩ := all.reads.grows.named
      rw [same, List.getElem?_append_left (List.getElem?_eq_some_iff.mp atRoot).1, atRoot]
    have filled : args ≠ [] := by
      intro none'
      have := all.length
      rw [none', List.length_nil] at this
      omega
    simp only [Option.bind_some] at result
    split at result
    · cases result
    rename_i made instantiated
    obtain ⟨⟨instId, r₂⟩, added, result⟩ := ok_of_bind result
    obtain ⟨inst, isMade, rfl, rfl⟩ := interned_ok added
    obtain ⟨made, c⟩ := made
    simp only at isMade
    subst isMade
    have instance' := instantiateNamedType_instance ready₁.good ready₁.generics atRoot₁ isDecl all.holds filled instantiated
    have reads₂ : ReadsTo working r₁ { r₁ with table := c } :=
      .withTable instance'.good instance'.grows instance'.marks
    have ready₂ := ready₁.after reads₂
    obtain ⟨rfl, here⟩ := withAlias_ok result
    obtain ⟨reads₃, idle, -⟩ := aliases ready₂ here
    have holds : c.Holds (some inst) := by
      obtain ⟨nt, member, isId, -⟩ := instance'.isInstance
      rw [isId]
      exact instance'.good.holds_typeId member
    have reads := all.reads.trans (reads₂.trans reads₃)
    refine ⟨reads, reads₃.grows.holds holds, ?_, ?_⟩
    · intro depth quiet
      have settled : Settled c (some inst) := by
        intro t atInst isAlias
        obtain ⟨nt, member, isId, isInstance, -⟩ := instance'.isInstance
        cases isId
        exact instance'.good.names.resolved nt member isInstance (ready₂.idle nt member isInstance) t atInst isAlias
      rw [idle settled]
      exact ⟨all.quiet depth quiet.2, .settled settled depth⟩
    · intro plain
      obtain ⟨ts, written, denoteAll⟩ := all.denotes plain.2
      refine ⟨.node (.name (r.table.nameOf n.dataStart n.dataEnd)) ts, ?_, reads₃.grows.holds holds, args, ?_, ?_⟩
      · simp only [AstNode.written, WrittenPart.combine, isName, written]
        rfl
      · exact ready₁.denoteAll_after lawful (reads₂.trans reads₃) denoteAll
      · have same := (lawful.target_eq (ready.after reads).grows).trans (lawful.target_eq ready.grows).symm
        simp only [LabelMeans, same, target]
        exact ⟨filled, reads₃.grows.instanceOf instance'.good instance'.isInstance⟩

theorem resolveTypeName_spec (lawful : scope.Lawful values start) (resolver : Resolver scope values start resolve)
    (aliases : AliasResolver scope start resolveAlias) {n : AstNode} {kids : NodeList} {depth : Nat}
    {r r' : TypeReader} {id : TypeId} (ready : Ready scope start working r) (isName : n.kind = .TYPE_NAME)
    (result : resolveTypeName resolve resolveAlias scope depth n kids r = .ok (id, r')) :
    Resolved scope values working n kids r id r' := by
  unfold resolveTypeName at result
  split at result
  · rename_i isAny
    have target : scope.target r.table (r.table.nameOf n.dataStart n.dataEnd) = .type r.table.typeAnytype := by
      simp only [TypeScope.target, isAny, if_true]
    split at result
    · cases result
    split at result
    · cases result
    rename_i noArgs
    simp only [Bool.not_eq_true, Bool.not_eq_false] at noArgs
    cases result
    rw [isEmpty_iff.mp noArgs]
    refine .name lawful ready (.refl ready.good) isName ready.anytype ?_ ?_
    · intro depth quiet
      simp only [QuietNodeWith, isName, target] at quiet
      exact ⟨.refl r, quiet⟩
    · simp [LabelMeans, target]
  rename_i notAny
  split at result
  · rename_i builtin found
    have target : scope.target r.table (r.table.nameOf n.dataStart n.dataEnd) = .type (some builtin) := by
      simp only [TypeScope.target, notAny, if_false, found]
    split at result
    · cases result
    split at result
    · cases result
    rename_i noArgs
    simp only [Bool.not_eq_true, Bool.not_eq_false] at noArgs
    cases result
    rw [isEmpty_iff.mp noArgs]
    refine .name lawful ready (.refl ready.good) isName (lawful.target_holds ready target) ?_ ?_
    · intro depth quiet
      simp only [QuietNodeWith, isName, target] at quiet
      exact ⟨.refl r, quiet⟩
    · simp [LabelMeans, target]
  rename_i noBuiltin
  split at result
  · rename_i named path
    exact resolveNamed_spec lawful resolver aliases ready isName notAny noBuiltin path result
  · rename_i noPath
    obtain ⟨noArgs, resolved⟩ := resolveOtherName_spec lawful aliases ready isName notAny noBuiltin noPath result
    simp only [Bool.not_eq_true, decide_eq_false_iff_not, Bool.not_eq_false] at noArgs
    rw [isEmpty_iff.mp noArgs]
    exact resolved

end

end HopHop
