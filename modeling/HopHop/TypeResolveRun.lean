import HopHop.TypeResolvedFn

namespace HopHop

open TypeTable TypeReader

variable {scope : TypeScope} {values : TypeValues} {start : TypeTable} {working : List Nat}
variable {resolve : Int → AstNode → NodeList → TypeReader → Except Diag (TypeId × TypeReader)}
variable {resolveAlias : TypeReader → TypeId → Except Diag TypeReader}

/-- What the loop over the fields of an anonymous aggregate comes to. -/
structure FieldsRead (scope : TypeScope) (values : TypeValues) (working : List Nat) (kids : NodeList)
    (fieldSigs : List AnonFieldSig) (r : TypeReader) (fieldSigs' : List AnonFieldSig) (r' : TypeReader) : Prop where
  reads : ReadsTo working r r'
  holds : ∀ f ∈ fieldSigs', r'.table.Holds f.typeId
  quiet : ∀ depth, kids.Forall (QuietNode scope r.table depth) → Untouched r r'
  denotes : kids.Forall (PlainNode scope r.table) →
    ∃ ts ids, (kids.parts r.table.src values).mapM WrittenPart.term = some ts ∧ DenoteAll scope values r'.table ts ids ∧
      fieldSigs' = fieldSigs ++ List.zipWith (fun p id => ⟨p.node.dataStart, p.node.dataEnd, id⟩)
        (kids.parts r.table.src values) ids

theorem resolveAnonFields_spec (lawful : scope.Lawful values start) (resolver : Resolver scope values start resolve) :
    ∀ (kids : NodeList) {fieldSigs fieldSigs' : List AnonFieldSig} {r r' : TypeReader}, Ready scope start working r →
      (∀ f ∈ fieldSigs, r.table.Holds f.typeId) →
      resolveAnonFields resolve kids fieldSigs r = .ok (fieldSigs', r') →
      FieldsRead scope values working kids fieldSigs r fieldSigs' r'
  | .nil, fieldSigs, fieldSigs', r, r', ready, holds, result => by
    cases result
    exact ⟨.refl ready.good, holds, fun _ _ => .refl r, fun _ => ⟨[], [], rfl, rfl, (List.append_nil _).symm⟩⟩
  | .cons fieldId field fieldKids rest, fieldSigs, fieldSigs', r, r', ready, holds, result => by
    simp only [resolveAnonFields] at result
    split at result
    · cases result
    rename_i isField
    simp only [ne_eq, not_not] at isField
    split at result
    · cases result
    split at result
    · cases result
    split at result
    · cases result
    rename_i typeId typeNode typeKids others
    split at result
    · cases result
    obtain ⟨⟨fieldType, r₁⟩, here, more⟩ := ok_of_bind result
    have resolved := resolver ready here
    have ready₁ := ready.after resolved.reads
    have holds₁ : ∀ f ∈ fieldSigs ++ [⟨field.dataStart, field.dataEnd, fieldType⟩], r₁.table.Holds f.typeId := by
      intro f member
      rcases List.mem_append.mp member with old | new
      · exact resolved.reads.grows.holds (holds f old)
      · rw [List.mem_singleton.mp new]
        exact resolved.holds
    have tail := resolveAnonFields_spec lawful resolver rest ready₁ holds₁ more
    refine ⟨resolved.reads.trans tail.reads, tail.holds, ?_, ?_⟩
    · intro depth quiet
      have quiet' := quiet.2.2.mono fun _ _ node => QuietNode.after lawful ready resolved.reads node
      exact (resolved.quiet depth ⟨quiet.2.1.1, quiet.2.1.2.1⟩).1.trans (tail.quiet depth quiet')
    · intro plain
      obtain ⟨t, written, denotes⟩ := resolved.denotes ⟨plain.2.1.1, plain.2.1.2.1⟩
      have plain' := plain.2.2.mono fun _ _ node => node.after lawful ready resolved.reads
      obtain ⟨ts, ids, writtenAll, all, isFields⟩ := tail.denotes plain'
      simp only [resolved.reads.grows.src] at writtenAll isFields
      have isTerm : field.written r.table.src values (.cons typeId typeNode typeKids others) = some t := by
        rw [AstNode.written, WrittenPart.combine, isField]
        exact written
      refine ⟨t :: ts, fieldType :: ids, ?_, ?_, ?_⟩
      · simp only [parts_cons, List.mapM_cons, isTerm, writtenAll]
        rfl
      · exact ⟨fieldType, ids, rfl, ready₁.denotes_after lawful tail.reads denotes, all⟩
      · rw [isFields, parts_cons, List.zipWith_cons_cons, List.append_assoc]
        rfl

/-- The names of the fields, each with its type, as the shape of an aggregate has them. -/
theorem signature_zipWith (c : TypeTable) : ∀ (parts : List WrittenPart) (ids : List TypeId),
    c.signature ((List.zipWith (fun p id => (⟨p.node.dataStart, p.node.dataEnd, id⟩ : AnonFieldSig)) parts ids).map
      AnonFieldSig.toField) = List.zip (parts.map fun p => c.nameOf p.node.dataStart p.node.dataEnd) ids
  | [], _ => rfl
  | _ :: _, [] => rfl
  | p :: parts, id :: ids => by
    have rest := signature_zipWith c parts ids
    simp only [TypeTable.signature, List.zipWith_cons_cons, List.map_cons, List.zip_cons_cons] at rest ⊢
    rw [rest]
    rfl

/-- An aggregate is the names of its fields with their types. -/
theorem denotes_aggregate {c : TypeTable} {id : TypeId} {names : List (List UInt8)} {ids : List TypeId}
    {ts : List TypeTerm} {shapeOver : {α : Type} → List (List UInt8 × α) → TypeShape α}
    (heads : ∀ fields : List (List UInt8 × TypeId), (shapeOver fields).head = shapeOver (fields.map fun f => (f.1, ())))
    (parts : ∀ fields : List (List UInt8 × TypeId), (shapeOver fields).parts = fields.map Prod.snd)
    (shape : c.shape id = some (shapeOver (names.zip ids))) (lengths : ids.length = names.length)
    (all : DenoteAll scope values c ts ids) :
    Denotes scope values c (.node (.made (shapeOver (names.map fun name => (name, ())))) ts) id := by
  have firsts : (names.zip ids).map Prod.fst = names := List.map_fst_zip (by omega)
  have seconds : (names.zip ids).map Prod.snd = ids := List.map_snd_zip (by omega)
  have named : (names.map fun name => (name, ())) = (names.zip ids).map fun f => (f.1, ()) := by
    rw [← firsts, List.map_map, firsts]
    rfl
  rw [named, ← heads]
  refine denotes_made shape ?_
  rw [parts, seconds]
  exact all

theorem resolveAnonAggregate_spec (lawful : scope.Lawful values start) (resolver : Resolver scope values start resolve)
    {nodeId : Int} {n : AstNode} {kids : NodeList} {r r' : TypeReader} {id : TypeId}
    (ready : Ready scope start working r) (isAnon : n.kind = .TYPE_ANON_STRUCT ∨ n.kind = .TYPE_ANON_UNION)
    (result : resolveAnonAggregate resolve nodeId n kids r = .ok (id, r')) :
    Resolved scope values working n kids r id r' := by
  obtain ⟨⟨fields, r₁⟩, read, made⟩ := ok_of_bind result
  have nothing : ∀ f ∈ ([] : List AnonFieldSig), r.table.Holds f.typeId := by
    intro f member
    cases member
  have anon := resolveAnonFields_spec lawful resolver kids ready nothing read
  have ready₁ := ready.after anon.reads
  obtain ⟨reads, shape, untouched⟩ := (internAnonAggregateType_interns ready₁.good _ anon.holds _ _ _).read made
  refine ⟨anon.reads.trans reads, .of_shape shape, ?_, ?_⟩
  · intro depth quiet
    exact ⟨(anon.quiet depth quiet.2).trans untouched, .settled (.of_shape shape) depth⟩
  intro plain
  obtain ⟨ts, ids, written, all, isFields⟩ := anon.denotes plain.2
  rw [List.nil_append] at isFields
  rw [isFields, anonShape, signature_zipWith] at shape
  have names : (fun p : WrittenPart => r₁.table.nameOf p.node.dataStart p.node.dataEnd) =
      fun p => WrittenPart.bytesFrom r.table.src p.node.dataStart p.node.dataEnd := by
    funext p
    rw [anon.reads.grows.nameOf]
    rfl
  rw [names] at shape
  have lengths : ids.length = ((kids.parts r.table.src values).map fun p =>
      WrittenPart.bytesFrom r.table.src p.node.dataStart p.node.dataEnd).length := by
    have := all.length
    have := length_of_mapM written
    rw [List.length_map]
    omega
  have all' := ready₁.denoteAll_after lawful reads all
  have pairs : ((kids.parts r.table.src values).map fun p =>
      (WrittenPart.bytesFrom r.table.src p.node.dataStart p.node.dataEnd, ())) =
      ((kids.parts r.table.src values).map fun p =>
        WrittenPart.bytesFrom r.table.src p.node.dataStart p.node.dataEnd).map fun name => (name, ()) := by
    rw [List.map_map]
    rfl
  rcases isAnon with isStruct | isUnion
  · simp only [isStruct, reduceCtorEq, decide_false, Bool.false_eq_true, if_false] at shape
    refine ⟨.node (.made (.anonStruct _)) ts, ?_, denotes_aggregate (fun _ => rfl) (fun _ => rfl) shape lengths all'⟩
    rw [AstNode.written, WrittenPart.combine, isStruct]
    simp only [written, Option.map_some, pairs]
  · simp only [isUnion, decide_true, if_true] at shape
    refine ⟨.node (.made (.anonUnion _)) ts, ?_, denotes_aggregate (fun _ => rfl) (fun _ => rfl) shape lengths all'⟩
    rw [AstNode.written, WrittenPart.combine, isUnion]
    simp only [written, Option.map_some, pairs]

/-- Whether an alias is being resolved is of no matter to what the entry is. -/
theorem ReadsTo.withMark {r r' : TypeReader} (reads : ReadsTo working r r') (id : Nat) (resolving : Bool) :
    TypeTable.Good working (setResolving r' id resolving).table ∧ Grows r'.table (setResolving r' id resolving).table := by
  have keeps : ∀ t : TCType, TypeTable.Keeps t { t with flags := { t.flags with aliasResolving := resolving } } :=
    fun t => ⟨rfl, rfl, rfl, rfl, rfl, rfl, rfl, fun _ => ⟨rfl, rfl⟩, fun _ => rfl⟩
  exact ⟨reads.good.modify id keeps (fun _ => rfl) fun _ => rfl, .modify _ id _ fun t _ => keeps t⟩

theorem entry_setResolving {r : TypeReader} (id : Nat) {i : Nat} {t : TCType} (resolving : Bool)
    (atI : r.table.types[i]? = some t) :
    (setResolving r id resolving).table.types[i]? = some
      (if i = id then { t with flags := { t.flags with aliasResolving := resolving } } else t) := by
  simp only [TypeReader.setResolving, List.getElem?_modify, atI, Option.map_eq_map, Option.map_some, Option.some.injEq]
  by_cases same : id = i
  · simp only [same, if_true]
  · simp only [same, Ne.symm same, if_false]

/-- The table while the alias is being resolved: the alias is set aside. -/
theorem Ready.startAlias {r : TypeReader} (ready : Ready scope start working r) {id : Nat} {t : TCType}
    (atId : r.table.types[id]? = some t) (isAlias : t.kind = .ALIAS) (unresolved : t.flags.aliasResolved = false)
    (idle : id ∉ working) : Ready scope start (id :: working) (setResolving r id true) := by
  obtain ⟨good, grows⟩ := (ReadsTo.refl ready.good).withMark id true
  have marked := entry_setResolving id true atId
  rw [if_pos rfl] at marked
  have noInstance : ∀ nt ∈ r.table.namedTypes, 0 ≤ nt.templateRootNamedIndex → nt.typeId ≠ id := by
    intro nt member isInstance same
    have resolved := ready.good.names.resolved nt member isInstance (ready.idle nt member isInstance) t (same ▸ atId) isAlias
    rw [unresolved] at resolved
    cases resolved
  refine ⟨⟨good.types, { good.names with resolved := ?_ }, ?_⟩, ready.grows.trans grows, ready.lengths,
    grows.holds ready.void, grows.holds ready.anytype, ready.index, ?_, ?_, ?_⟩
  · intro nt member isInstance notIn
    exact good.names.resolved nt member isInstance fun inWorking => notIn (List.mem_cons_of_mem id inWorking)
  · intro other member
    rcases List.mem_cons.mp member with rfl | old
    · exact ⟨_, marked, unresolved⟩
    · exact good.waiting other old
  · intro nt member isDecl some' t' atNt isAlias'
    obtain ⟨u, atU, -⟩ := ready.good.names.entries nt member
    have now := entry_setResolving id true atU
    rw [atNt] at now
    cases now
    have kind : u.kind = .ALIAS := by
      by_cases same : nt.typeId = id
      · rw [if_pos same] at isAlias'
        exact isAlias'
      · rw [if_neg same] at isAlias'
        exact isAlias'
    obtain ⟨inWorking, noBase⟩ := ready.generic nt member isDecl some' u atU kind
    refine ⟨List.mem_cons_of_mem id inWorking, ?_⟩
    by_cases same : nt.typeId = id
    · rw [if_pos same]
      exact noBase
    · rw [if_neg same]
      exact noBase
  · intro other member
    rcases List.mem_cons.mp member with rfl | old
    · exact ⟨_, marked, fun _ => .inl rfl⟩
    · obtain ⟨u, atU, fails⟩ := ready.stuck other old
      have now := entry_setResolving id true atU
      have differs : other ≠ id := fun same => idle (same ▸ old)
      rw [if_neg differs] at now
      exact ⟨u, now, fails⟩
  · intro nt member isInstance
    simp only [List.mem_cons, not_or]
    exact ⟨noInstance nt member isInstance, ready.idle nt member isInstance⟩

/-- The alias comes to stand for the type that its declaration's target is. -/
theorem ReadsTo.finishAlias {r r' : TypeReader} (ready : Ready scope start working r) {id : Nat} {t : TCType}
    (atId : r.table.types[id]? = some t) (isAlias : t.kind = .ALIAS) (notResolving : t.flags.aliasResolving = false)
    (idle : id ∉ working) (nested : ReadsTo (id :: working) (setResolving r id true) r') {target : TypeId}
    (holds : r'.table.Holds target) :
    ReadsTo working r { setResolving r' id false with
      table := { (setResolving r' id false).table with
        types := (setResolving r' id false).table.types.modify id (TCType.resolvedTo · target) } } := by
  obtain ⟨-, grows₁⟩ := (ReadsTo.refl ready.good).withMark id true
  obtain ⟨good₃, grows₃⟩ := nested.withMark id false
  have start₁ := entry_setResolving id true atId
  rw [if_pos rfl] at start₁
  obtain ⟨t₂, at₂, keeps⟩ := nested.grows.types id _ start₁
  have at₃ := entry_setResolving id false at₂
  rw [if_pos rfl] at at₃
  have isAlias₃ : t₂.kind = .ALIAS := keeps.kind.trans isAlias
  obtain ⟨good, grows₄⟩ := good₃.fill idle at₃ isAlias₃ (grows₃.holds holds)
  have grows := grows₁.trans (nested.grows.trans (grows₃.trans grows₄))
  refine ⟨good, grows, ?_, nested.types_length, nested.flags_length, ?_⟩
  · intro i u atI
    have before := entry_setResolving id true atI
    obtain ⟨u₂, atU₂, same⟩ := nested.marks i _ before
    have after := entry_setResolving id false atU₂
    by_cases here : i = id
    · subst here
      rw [atId] at atI
      cases atI
      rw [if_pos rfl] at after
      exact ⟨_, by simp only [List.getElem?_modify, after, if_true, Option.map_eq_map, Option.map_some]; rfl,
        notResolving.symm⟩
    · rw [if_neg here] at after same
      exact ⟨u₂, by rw [List.getElem?_modify_ne _ _ (Ne.symm here), after], same⟩
  · intro i old atI oldHolds
    obtain ⟨id', atI', holds'⟩ := nested.kept i old atI (grows₁.holds oldHolds)
    exact ⟨id', atI', (grows₃.trans grows₄).holds holds'⟩

theorem resolveAliasEntry_spec (lawful : scope.Lawful values start) (resolver : Resolver scope values start resolve)
    (aliases : AliasResolver scope start resolveAlias)
    (rejects : ∀ {nodeId : Int} {n : AstNode} {kids : NodeList} {r r' : TypeReader} {id : TypeId},
      n.kind = .TYPE_PARAM → resolve nodeId n kids r ≠ .ok (id, r')) :
    AliasResolver scope start (resolveAliasEntry resolve resolveAlias scope) := by
  intro working r r' id ready result
  unfold resolveAliasEntry at result
  split at result
  · rename_i typeId t atId
    split at result
    · cases result
      exact ⟨.refl ready.good, fun _ => rfl, fun _ _ => .refl r⟩
    rename_i pending
    simp only [not_or, ne_eq, not_not, Bool.not_eq_true] at pending
    obtain ⟨isAlias, unresolved⟩ := pending
    split at result
    · cases result
    rename_i notResolving
    simp only [Bool.not_eq_true] at notResolving
    split at result
    · cases result
    simp only at result
    split at result
    · cases result
    rename_i targetId target targetKids others children
    obtain ⟨⟨targetType, r₁⟩, here, more⟩ := ok_of_bind result
    simp only at more
    split at more
    · cases more
    obtain ⟨r₂, nestedAlias, more⟩ := ok_of_bind more
    cases more
    have idle : typeId ∉ working := by
      intro inWorking
      obtain ⟨u, atU, fails⟩ := ready.stuck typeId inWorking
      have same : some u = some t := atU.symm.trans atId
      cases same
      rcases fails isAlias with marked | ⟨firstId, first, firstKids, rest, starts, isParam⟩
      · rw [notResolving] at marked
        cases marked
      · rw [children] at starts
        cases starts
        exact rejects isParam here
    have ready₁ := ready.startAlias atId isAlias unresolved idle
    have resolved := resolver ready₁ here
    obtain ⟨reads₂, -, untouched₂⟩ := aliases (ready₁.after resolved.reads) nestedAlias
    have pending : ¬Settled r.table (some typeId) := by
      intro settled
      have isResolved := settled t atId isAlias
      rw [unresolved] at isResolved
      cases isResolved
    refine ⟨.finishAlias ready atId isAlias notResolving idle (resolved.reads.trans reads₂)
      (reads₂.grows.holds resolved.holds), fun settled => absurd settled pending, ?_⟩
    intro depth quiet
    cases depth with
    | zero => exact absurd quiet pending
    | succ depth =>
      rcases quiet with settled | ⟨u, atU, firstId, first, firstKids, rest, starts, all⟩
      · exact absurd settled pending
      · rw [atId] at atU
        cases atU
        rw [children] at starts
        cases starts
        obtain ⟨-, grows⟩ := (ReadsTo.refl ready.good).withMark typeId true
        have marked : Everywhere (QuietNode scope (setResolving r typeId true).table depth) target targetKids := by
          refine all.mono ?_
          intro n kids node
          exact QuietNodeWith.grows lawful ready grows (QuietAlias.grown lawful ready grows depth) node
        obtain ⟨untouched, quietTarget⟩ := resolved.quiet depth marked
        exact untouched.trans (untouched₂ depth quietTarget)
  · cases result

theorem resolveNode_spec (lawful : scope.Lawful values start) (resolver : Resolver scope values start resolve)
    (aliases : AliasResolver scope start resolveAlias) {depth : Nat} :
    Resolver scope values start (resolveNode resolve resolveAlias scope depth) := by
  intro working nodeId n kids r r' id ready result
  unfold resolveNode at result
  split at result
  · rename_i isName
    exact resolveTypeName_spec lawful resolver aliases ready isName result
  · rename_i isPtr
    exact resolvePointer_spec lawful resolver ready (.inl isPtr) result
  · rename_i isRef
    exact resolvePointer_spec lawful resolver ready (.inr (.inl isRef)) result
  · rename_i isMutRef
    exact resolvePointer_spec lawful resolver ready (.inr (.inr isMutRef)) result
  · rename_i isArray
    exact resolveArray_spec lawful resolver ready isArray result
  · rename_i isSlice
    refine resolveOver_spec lawful ready (.slice · false) (fun c base => c.internSliceType base _ n.start n.stop) result
      resolver (fun _ => rfl) (fun _ => rfl) ?_ ?_
    · intro c base good holds
      simp only [isSlice, reduceCtorEq, decide_false]
      exact internSliceType_interns good holds false _ _
    · rw [AstNode.written, WrittenPart.combine, isSlice]
  · rename_i isMutSlice
    refine resolveOver_spec lawful ready (.slice · true) (fun c base => c.internSliceType base _ n.start n.stop) result
      resolver (fun _ => rfl) (fun _ => rfl) ?_ ?_
    · intro c base good holds
      simp only [isMutSlice, decide_true]
      exact internSliceType_interns good holds true _ _
    · rw [AstNode.written, WrittenPart.combine, isMutSlice]
  · rename_i isOptional
    refine resolveOver_spec lawful ready .optional (fun c base => c.internOptionalType base n.start n.stop) result
      resolver (fun _ => rfl) (fun _ => rfl) ?_ ?_
    · intro c base good holds
      exact internOptionalType_interns good holds _ _
    · rw [AstNode.written, WrittenPart.combine, isOptional]
  · rename_i isFn
    exact resolveFn_spec lawful resolver ready isFn result
  · rename_i isTuple
    exact resolveTuple_spec lawful resolver ready isTuple result
  · rename_i isStruct
    exact resolveAnonAggregate_spec lawful resolver ready (.inl isStruct) result
  · rename_i isUnion
    exact resolveAnonAggregate_spec lawful resolver ready (.inr isUnion) result
  · cases result

theorem resolveTypeNode_rejects {depth : Nat} {nodeId : Int} {n : AstNode} {kids : NodeList} {r r' : TypeReader}
    {id : TypeId} (isParam : n.kind = .TYPE_PARAM) : resolveTypeNode scope depth nodeId n kids r ≠ .ok (id, r') := by
  intro result
  cases depth with
  | zero =>
    unfold resolveTypeNode at result
    cases result
  | succ depth =>
    unfold resolveTypeNode at result
    simp only [resolveNode, isParam] at result
    cases result

/-- The resolver of types and that of aliases, at any depth of the recursion. -/
theorem resolvers_spec (lawful : scope.Lawful values start) : ∀ depth : Nat,
    Resolver scope values start (resolveTypeNode scope depth) ∧
      AliasResolver scope start (resolveAliasTypeId scope depth) := by
  intro depth
  induction depth with
  | zero =>
    constructor
    · intro working nodeId n kids r r' id _ result
      unfold resolveTypeNode at result
      cases result
    · intro working r r' id _ result
      unfold resolveAliasTypeId at result
      cases result
  | succ depth ih =>
    obtain ⟨resolver, aliases⟩ := ih
    constructor
    · intro working nodeId n kids r r' id ready result
      unfold resolveTypeNode at result
      exact resolveNode_spec lawful resolver aliases ready result
    · intro working r r' id ready result
      unfold resolveAliasTypeId at result
      exact resolveAliasEntry_spec lawful resolver aliases resolveTypeNode_rejects ready result

end HopHop
