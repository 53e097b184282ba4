import HopHop.TypeInvariant

namespace HopHop.TypeTable

variable {c : TypeTable} {working : List Nat}

theorem Grows.failSpan (c : TypeTable) (code : DiagCode) (errStart errEnd : Nat) :
    Grows c (c.failSpan code errStart errEnd).2 :=
  { Grows.refl c with types := fun _ t atI => ⟨t, atI, .refl t⟩ }

theorem Good.failSpan (good : Good working c) (code : DiagCode) (errStart errEnd : Nat) :
    Good working (c.failSpan code errStart errEnd).2 :=
  good.grows (.failSpan c code errStart errEnd) rfl rfl rfl

theorem Spent.failSpan (c : TypeTable) (code : DiagCode) (errStart errEnd n : Nat) :
    Spent c (c.failSpan code errStart errEnd).2 n :=
  ⟨Nat.le_add_right _ _, Nat.le_add_right _ _, Nat.le_add_right _ _, Nat.le_add_right _ _⟩

/-- A step that fails for want of room. -/
theorem Makes.refused (good : Good working c) {n : Nat} (full : ¬Room c n) (code : DiagCode) (errStart errEnd : Nat) :
    Makes working c n (c.failSpan code errStart errEnd) where
  good := good.failSpan code errStart errEnd
  grows := .failSpan c code errStart errEnd
  spent := .failSpan c code errStart errEnd n
  holds := fun room => absurd room full

theorem Makes.found (good : Good working c) {n i : Nat} {same : TCType → Bool}
    (found : c.types.findIdx? same = some i) : Makes working c n (some i, c) where
  good := good
  grows := .refl c
  spent := .refl c n
  holds := fun _ => ⟨i, (List.findIdx?_eq_some_iff_findIdx_eq.mp found).1, rfl⟩

theorem Makes.mono {n m : Nat} {made : TypeId × TypeTable} (makes : Makes working c n made) (le : n ≤ m) :
    Makes working c m made where
  good := makes.good
  grows := makes.grows
  spent := makes.spent.mono le
  holds := fun room => makes.holds (room.mono le)

/-- The step goes on from a table that has grown. -/
theorem Makes.after {c' : TypeTable} {n m : Nat} {made : TypeId × TypeTable} (makes : Makes working c' m made)
    (grows : Grows c c') (spent : Spent c c' n) : Makes working c (n + m) made where
  good := makes.good
  grows := grows.trans makes.grows
  spent := spent.trans makes.spent
  holds := fun room => makes.holds (room.after spent grows)

theorem addType_makes (good : Good working c) {t : TCType} (closed : ClosedEntry c t)
    (fresh : ∀ s, c.shapeOf t = some s → some s ∉ c.shapes) (errStart errEnd : Nat) :
    Makes working c 1 (c.addType t errStart errEnd) := by
  unfold addType
  split
  · rename_i full
    refine .refused good ?_ _ _ _
    intro room
    have := room.types
    omega
  · constructor
    · exact good.push closed fresh
    · exact .push c t
    · constructor <;> simp
    · intro _
      exact ⟨c.types.length, by simp, rfl⟩

/-- An entry of a structural type whose parts are there. -/
theorem ClosedEntry.of_shape {t : TCType} {s : TypeShape TypeId} (inRange : InRange c t) (shape : c.shapeOf t = some s)
    (parts : ∀ p ∈ s.parts, c.Holds p) : ClosedEntry c t where
  inRange := inRange
  parts := by
    intro s' shape'
    rw [shape] at shape'
    cases shape'
    exact parts
  base := by
    intro isAlias
    simp [shapeOf, isAlias] at shape

/-- The search finds every entry of the type, so that one is added only when there is none. -/
theorem not_mem_shapes {same : TCType → Bool} {s : TypeShape TypeId}
    (search : ∀ u ∈ c.types, c.shapeOf u = some s → same u = true) (missed : c.types.findIdx? same = none) :
    some s ∉ c.shapes := by
  intro member
  obtain ⟨u, atU, isShape⟩ := List.mem_map.mp member
  have other := List.findIdx?_eq_none_iff.mp missed u atU
  rw [search u atU isShape] at other
  cases other

theorem fresh_of_search {same : TCType → Bool} {t : TCType} {s : TypeShape TypeId} (shape : c.shapeOf t = some s)
    (search : ∀ u ∈ c.types, c.shapeOf u = some s → same u = true) (missed : c.types.findIdx? same = none) :
    ∀ s', c.shapeOf t = some s' → some s' ∉ c.shapes := by
  intro s' shape'
  rw [shape] at shape'
  cases shape'
  exact not_mem_shapes search missed

theorem internType_makes (good : Good working c) {same : TCType → Bool} {t : TCType} {s : TypeShape TypeId}
    (inRange : InRange c t) (shape : c.shapeOf t = some s) (parts : ∀ p ∈ s.parts, c.Holds p)
    (search : ∀ u ∈ c.types, c.shapeOf u = some s → same u = true) (errStart errEnd : Nat) :
    Makes working c 1 (c.internType same t errStart errEnd) := by
  unfold internType
  split
  · rename_i i found
    exact .found good found
  · rename_i missed
    exact addType_makes good (.of_shape inRange shape parts) (fresh_of_search shape search missed) _ _

theorem shapeOf_kind {u : TCType} {s : TypeShape TypeId} (shape : c.shapeOf u = some s) :
    match s with
    | .ptr base => u.kind = .PTR ∧ u.baseType = base
    | .ref base mutable => u.kind = .REF ∧ u.baseType = base ∧ u.flags.mutable = mutable
    | .optional base => u.kind = .OPTIONAL ∧ u.baseType = base
    | .array base len => u.kind = .ARRAY ∧ u.baseType = base ∧ u.arrayLen = len
    | .slice base mutable => u.kind = .SLICE ∧ u.baseType = base ∧ u.flags.mutable = mutable
    | .function result params variadic => u.kind = .FUNCTION ∧ u.baseType = result ∧
        (c.componentsOf u).map (fun p => (p.typeId, p.isConst)) = params ∧ u.flags.functionVariadic = variadic
    | .tuple elems => u.kind = .TUPLE ∧ (c.componentsOf u).map FuncParam.typeId = elems
    | .pack elems => u.kind = .PACK ∧ (c.componentsOf u).map FuncParam.typeId = elems
    | .anonStruct fields => u.kind = .ANON_STRUCT ∧ c.signature (c.fieldsOf u) = fields
    | .anonUnion fields => u.kind = .ANON_UNION ∧ c.signature (c.fieldsOf u) = fields := by
  cases kind : u.kind <;> simp only [shapeOf, kind, Option.some.injEq, reduceCtorEq] at shape
  all_goals subst shape; simp [signature]

theorem inRange_blank {kind : TCTypeKind} (notTuple : kind ≠ .TUPLE) (baseType : TypeId) (arrayLen : UInt32)
    (flags : TCTypeFlags) : InRange c { TCType.blank kind with baseType, arrayLen, flags } :=
  ⟨fun _ => Nat.zero_le _, fun _ => Nat.zero_le _, fun tuple => absurd tuple notTuple⟩

theorem internPtrType_makes (good : Good working c) {baseType : TypeId} (holds : c.Holds baseType)
    (errStart errEnd : Nat) : Makes working c 1 (c.internPtrType baseType errStart errEnd) := by
  refine internType_makes (s := .ptr baseType) good (inRange_blank (show TCTypeKind.PTR ≠ .TUPLE by decide) baseType 0 .none) rfl ?_ ?_ _ _
  · simpa [TypeShape.parts] using holds
  · intro u _ shape
    simpa using shapeOf_kind shape

theorem internRefType_makes (good : Good working c) {baseType : TypeId} (holds : c.Holds baseType) (isMutable : Bool)
    (errStart errEnd : Nat) : Makes working c 1 (c.internRefType baseType isMutable errStart errEnd) := by
  refine internType_makes (s := .ref baseType isMutable) good (inRange_blank (show TCTypeKind.REF ≠ .TUPLE by decide) baseType 0 _) rfl ?_ ?_ _ _
  · simpa [TypeShape.parts] using holds
  · intro u _ shape
    obtain ⟨kind, base, mutable⟩ := shapeOf_kind shape
    simp [kind, base, TCType.isMutable, mutable]

theorem internArrayType_makes (good : Good working c) {baseType : TypeId} (holds : c.Holds baseType)
    (arrayLen : UInt32) (errStart errEnd : Nat) :
    Makes working c 1 (c.internArrayType baseType arrayLen errStart errEnd) := by
  refine internType_makes (s := .array baseType arrayLen) good (inRange_blank (show TCTypeKind.ARRAY ≠ .TUPLE by decide) baseType arrayLen .none) rfl ?_ ?_ _ _
  · simpa [TypeShape.parts] using holds
  · intro u _ shape
    simpa using shapeOf_kind shape

theorem internSliceType_makes (good : Good working c) {baseType : TypeId} (holds : c.Holds baseType) (isMutable : Bool)
    (errStart errEnd : Nat) : Makes working c 1 (c.internSliceType baseType isMutable errStart errEnd) := by
  refine internType_makes (s := .slice baseType isMutable) good (inRange_blank (show TCTypeKind.SLICE ≠ .TUPLE by decide) baseType 0 _) rfl ?_ ?_ _ _
  · simpa [TypeShape.parts] using holds
  · intro u _ shape
    obtain ⟨kind, base, mutable⟩ := shapeOf_kind shape
    simp [kind, base, TCType.isMutable, mutable]

theorem internOptionalType_makes (good : Good working c) {baseType : TypeId} (holds : c.Holds baseType)
    (errStart errEnd : Nat) : Makes working c 1 (c.internOptionalType baseType errStart errEnd) := by
  refine internType_makes (s := .optional baseType) good (inRange_blank (show TCTypeKind.OPTIONAL ≠ .TUPLE by decide) baseType 0 .none) rfl ?_ ?_ _ _
  · simpa [TypeShape.parts] using holds
  · intro u _ shape
    simpa using shapeOf_kind shape

theorem Grows.params_append (c : TypeTable) (params : List FuncParam) :
    Grows c { c with funcParams := c.funcParams ++ params } :=
  { Grows.refl c with
    types := fun _ t atI => ⟨t, atI, .refl t⟩
    params := List.prefix_append _ _ }

theorem Grows.fields_append (c : TypeTable) (fields : List TCField) :
    Grows c { c with fields := c.fields ++ fields } :=
  { Grows.refl c with
    types := fun _ t atI => ⟨t, atI, .refl t⟩
    fields := List.prefix_append _ _ }

/-- The components of an entry that has just been given its own place in the parameter array. -/
theorem componentsOf_append (c : TypeTable) (t : TCType) (params : List FuncParam) :
    TypeTable.componentsOf { c with funcParams := c.funcParams ++ params }
      { t with fieldStart := c.funcParams.length, fieldCount := params.length } = params := by
  simp [TypeTable.componentsOf]

theorem fieldsOf_append (c : TypeTable) (t : TCType) (fields : List TCField) :
    TypeTable.fieldsOf { c with fields := c.fields ++ fields }
      { t with fieldStart := c.fields.length, fieldCount := fields.length } = fields := by
  simp [TypeTable.fieldsOf]

theorem addTypeWithParams_makes (good : Good working c) {t : TCType} {params : List FuncParam}
    {s : TypeShape TypeId}
    (shape : TypeTable.shapeOf { c with funcParams := c.funcParams ++ params }
      { t with fieldStart := c.funcParams.length, fieldCount := params.length } = some s)
    (kind : t.kind ≠ .ANON_STRUCT ∧ t.kind ≠ .ANON_UNION) (tuple : t.kind = .TUPLE → 2 ≤ params.length) (parts : ∀ p ∈ s.parts, c.Holds p) (fresh : some s ∉ c.shapes)
    (errStart errEnd : Nat) :
    Makes working c (params.length + 1) (c.addTypeWithParams t params errStart errEnd) := by
  unfold addTypeWithParams
  split
  · rename_i full
    refine .refused good ?_ _ _ _
    intro room
    have := room.params
    omega
  · have grows := Grows.params_append c params
    have good' := good.grows grows rfl rfl rfl
    have spent : Spent c { c with funcParams := c.funcParams ++ params } params.length := by
      constructor <;> simp
    have inRange : InRange { c with funcParams := c.funcParams ++ params }
        { t with fieldStart := c.funcParams.length, fieldCount := params.length } := by
      constructor
      · intro _
        simp
      · rintro (isStruct | isUnion)
        · exact absurd isStruct kind.1
        · exact absurd isUnion kind.2
      · exact tuple
    refine (addType_makes good' (.of_shape inRange shape ?_) ?_ _ _).after grows spent
    · intro p member
      exact grows.holds (parts p member)
    · intro s' shape'
      rw [shape] at shape'
      cases shape'
      rw [grows.shapes good.types rfl]
      exact fresh

theorem InRange.components_length {t : TCType} (inRange : InRange c t)
    (kind : t.kind = .FUNCTION ∨ t.kind = .TUPLE ∨ t.kind = .PACK) : (c.componentsOf t).length = t.fieldCount := by
  have := inRange.params kind
  simp only [TypeTable.componentsOf, List.length_take, List.length_drop]
  omega

theorem InRange.fields_length {t : TCType} (inRange : InRange c t)
    (kind : t.kind = .ANON_STRUCT ∨ t.kind = .ANON_UNION) : (c.fieldsOf t).length = t.fieldCount := by
  have := inRange.fields kind
  simp only [TypeTable.fieldsOf, List.length_take, List.length_drop]
  omega

theorem elemsMatch_of_shape (good : Good working c) {kind : TCTypeKind} {elemTypes : List TypeId} {u : TCType}
    (member : u ∈ c.types) (isKind : u.kind = kind) (either : kind = .TUPLE ∨ kind = .PACK)
    (elems : (c.componentsOf u).map FuncParam.typeId = elemTypes) : c.elemsMatch kind elemTypes u = true := by
  have length := (good.types.closed u member).inRange.components_length (.inr (isKind ▸ either))
  have count : u.fieldCount = elemTypes.length := by rw [← elems, List.length_map, length]
  simp [elemsMatch, isKind, count, elems]

theorem elemParams_typeIds (elemTypes : List TypeId) : (elemParams elemTypes).map FuncParam.typeId = elemTypes := by
  simp [elemParams, Function.comp_def]

theorem internTupleType_makes (good : Good working c) {elemTypes : List TypeId} (holds : ∀ p ∈ elemTypes, c.Holds p)
    (length : 2 ≤ elemTypes.length ∧ elemTypes.length ≤ 0xFFFF) (errStart errEnd : Nat) :
    Makes working c (elemTypes.length + 1) (c.internTupleType elemTypes errStart errEnd) := by
  unfold internTupleType
  rw [if_neg (by omega)]
  split
  · rename_i i found
    exact .found good found
  · rename_i missed
    have places : (elemParams elemTypes).length = elemTypes.length := by simp [elemParams]
    rw [← places]
    refine addTypeWithParams_makes (s := .tuple elemTypes) good ?_ (by decide) (fun _ => places ▸ length.1) holds ?_ _ _
    · have components := componentsOf_append c (TCType.blank .TUPLE) (elemParams elemTypes)
      simp only [TypeTable.shapeOf, TCType.blank] at components ⊢
      rw [components, elemParams_typeIds]
    · refine not_mem_shapes ?_ missed
      intro u member shape
      obtain ⟨kind, elems⟩ := shapeOf_kind shape
      exact elemsMatch_of_shape good member kind (.inl rfl) elems

theorem internPackType_makes (good : Good working c) {elemTypes : List TypeId} (holds : ∀ p ∈ elemTypes, c.Holds p)
    (length : elemTypes.length ≤ 0xFFFF) (errStart errEnd : Nat) :
    Makes working c (elemTypes.length + 1) (c.internPackType elemTypes errStart errEnd) := by
  unfold internPackType
  split
  · rename_i i found
    exact .found good found
  · rename_i missed
    rw [if_neg (by omega)]
    have places : (elemParams elemTypes).length = elemTypes.length := by simp [elemParams]
    rw [← places]
    refine addTypeWithParams_makes (s := .pack elemTypes) good ?_ (by decide) (fun isTuple => by cases isTuple) holds
      ?_ _ _
    · have components := componentsOf_append c (TCType.blank .PACK) (elemParams elemTypes)
      simp only [TypeTable.shapeOf, TCType.blank] at components ⊢
      rw [components, elemParams_typeIds]
    · refine not_mem_shapes ?_ missed
      intro u member shape
      obtain ⟨kind, elems⟩ := shapeOf_kind shape
      exact elemsMatch_of_shape good member kind (.inr rfl) elems

theorem Keeps.noteFunction (t : TCType) (funcIndex : Option Nat) : Keeps t (TCType.noteFunction t funcIndex) := by
  unfold TCType.noteFunction
  split
  · exact ⟨rfl, rfl, rfl, rfl, rfl, rfl, rfl, fun _ => ⟨rfl, rfl⟩, fun _ => rfl⟩
  · exact .refl t

theorem Grows.modify (c : TypeTable) (i : Nat) (f : TCType → TCType) (keeps : ∀ t, c.types[i]? = some t → Keeps t (f t)) :
    Grows c { c with types := c.types.modify i f } :=
  { Grows.refl c with
    types := by
      intro j t atJ
      simp only [List.getElem?_modify, atJ, Option.map_eq_map, Option.map_some]
      by_cases same : i = j
      · subst same
        exact ⟨f t, by simp, keeps t atJ⟩
      · exact ⟨t, by simp [same], .refl t⟩ }

theorem noteFunction_base (t : TCType) (funcIndex : Option Nat) :
    (TCType.noteFunction t funcIndex).baseType = t.baseType ∧
      (TCType.noteFunction t funcIndex).flags = t.flags := by
  unfold TCType.noteFunction
  split <;> exact ⟨rfl, rfl⟩

/-- A change of one entry that touches neither its base nor whether it is resolved. -/
theorem Good.modify (good : Good working c) (i : Nat) {f : TCType → TCType} (keeps : ∀ t, Keeps t (f t))
    (base : ∀ t, (f t).baseType = t.baseType)
    (resolved : ∀ t, (f t).flags.aliasResolved = t.flags.aliasResolved) :
    Good working { c with types := c.types.modify i f } := by
  have grows := Grows.modify c i f fun t _ => keeps t
  have same : ∀ {j : Nat} {t : TCType}, c.types[j]? = some t →
      ∃ t', (c.types.modify i f)[j]? = some t' ∧ t'.kind = t.kind ∧ t'.baseType = t.baseType ∧
        t'.flags.aliasResolved = t.flags.aliasResolved := by
    intro j t atJ
    simp only [List.getElem?_modify, atJ, Option.map_eq_map, Option.map_some]
    by_cases here : i = j
    · simp only [here, if_true]
      exact ⟨_, rfl, (keeps t).kind, base t, resolved t⟩
    · simp only [here, if_false]
      exact ⟨_, rfl, rfl, rfl, rfl⟩
  refine ⟨good.types.grows grows (by simp) ?_, good.names.grows grows rfl rfl, ?_⟩
  · intro t' member isAlias isResolved
    obtain ⟨j, atJ⟩ := List.getElem?_of_mem member
    have below : j < c.types.length := by simpa using (List.getElem?_eq_some_iff.mp atJ).1
    obtain ⟨u, atU, kind, sameBase, sameFlag⟩ := same (List.getElem?_eq_getElem below)
    rw [atJ] at atU
    cases atU
    rw [sameBase]
    exact grows.holds ((good.types.closed _ (List.getElem_mem below)).base (kind ▸ isAlias) (sameFlag ▸ isResolved))
  · intro id member
    obtain ⟨t, atId, unresolved⟩ := good.waiting id member
    obtain ⟨t', atId', -, -, flag⟩ := same atId
    exact ⟨t', atId', flag ▸ unresolved⟩

theorem Good.noteFunction (good : Good working c) (i : Nat) (funcIndex : Option Nat) :
    Good working { c with types := c.types.modify i (TCType.noteFunction · funcIndex) } :=
  good.modify i (fun t => .noteFunction t funcIndex) (fun t => (noteFunction_base t funcIndex).1)
    fun t => by rw [(noteFunction_base t funcIndex).2]

theorem params_of_pairs {params params' : List FuncParam}
    (same : params.map (fun p => (p.typeId, p.isConst)) = params'.map fun p => (p.typeId, p.isConst)) :
    params = params' := by
  refine List.map_injective_iff.mpr ?_ same
  intro p p' pairs
  cases p
  cases p'
  simpa using pairs

theorem internFunctionType_makes (good : Good working c) {returnType : TypeId} {params : List FuncParam}
    (result : c.Holds returnType) (holds : ∀ p ∈ params, c.Holds p.typeId) (length : params.length ≤ 0xFFFF)
    (isVariadic : Bool) (funcIndex : Option Nat) (errStart errEnd : Nat) :
    Makes working c (params.length + 1)
      (c.internFunctionType returnType params isVariadic funcIndex errStart errEnd) := by
  unfold internFunctionType
  rw [if_neg (by omega)]
  split
  · rename_i i found
    have grows := Grows.modify c i (TCType.noteFunction · funcIndex) fun t _ => .noteFunction t funcIndex
    refine ⟨good.noteFunction i funcIndex, grows, ?_, ?_⟩
    · constructor <;> simp
    · intro _
      exact grows.holds ⟨i, (List.findIdx?_eq_some_iff_findIdx_eq.mp found).1, rfl⟩
  · rename_i missed
    refine addTypeWithParams_makes
      (s := .function returnType (params.map fun p => (p.typeId, p.isConst)) isVariadic) good ?_ (by simp [TCType.blank])
      (fun isTuple => by cases isTuple) ?_ ?_ _ _
    · have components := componentsOf_append c
        { TCType.blank .FUNCTION with
          baseType := returnType, funcIndex, flags := { TCTypeFlags.none with functionVariadic := isVariadic } } params
      simp only [TypeTable.shapeOf, TCType.blank] at components ⊢
      rw [components]
    · intro p member
      simp only [TypeShape.parts, List.mem_cons, List.map_map, List.mem_map, Function.comp_apply] at member
      rcases member with rfl | ⟨param, inParams, rfl⟩
      · exact result
      · exact holds param inParams
    · refine not_mem_shapes ?_ missed
      intro u member shape
      obtain ⟨kind, base, pairs, variadic⟩ := shapeOf_kind shape
      have components := params_of_pairs pairs
      have count := (good.types.closed u member).inRange.components_length (.inl kind)
      rw [components] at count
      simp [functionTypeMatchesSignature, kind, base, variadic, components, count]

theorem anonKind_shape (isUnion : Bool) (t : TCType) (kind : t.kind = anonKind isUnion) :
    c.shapeOf t = some (if isUnion then .anonUnion (c.signature (c.fieldsOf t))
      else .anonStruct (c.signature (c.fieldsOf t))) := by
  cases isUnion <;> simp [TypeTable.shapeOf, kind, anonKind, signature]

theorem signature_eq_of_search (good : Good working c) {isUnion : Bool} {fields : List TCField} {u : TCType}
    (member : u ∈ c.types) (shape : c.shapeOf u = some (if isUnion then .anonUnion (c.signature fields)
      else .anonStruct (c.signature fields))) :
    u.kind = anonKind isUnion ∧ u.fieldCount = fields.length ∧ c.signature (c.fieldsOf u) = c.signature fields := by
  have spec := shapeOf_kind shape
  have lengths : c.signature (c.fieldsOf u) = c.signature fields → (c.fieldsOf u).length = fields.length := by
    intro same
    have := congrArg List.length same
    simpa [signature] using this
  cases isUnion with
  | false =>
    obtain ⟨kind, same⟩ := spec
    have count := (good.types.closed u member).inRange.fields_length (.inl kind)
    exact ⟨kind, count ▸ lengths same, same⟩
  | true =>
    obtain ⟨kind, same⟩ := spec
    have count := (good.types.closed u member).inRange.fields_length (.inr kind)
    exact ⟨kind, count ▸ lengths same, same⟩

theorem internAnonAggregateType_good (good : Good working c) (isUnion : Bool) {fields : List AnonFieldSig}
    (holds : ∀ f ∈ fields, c.Holds f.typeId) (declNode : Int) (errStart errEnd : Nat) :
    Good working (c.internAnonAggregateType isUnion fields declNode errStart errEnd).2 := by
  simp only [internAnonAggregateType]
  split
  · exact good.failSpan _ _ _
  split
  · exact good
  rename_i missed
  split
  · exact good.failSpan _ _ _
  have count : (fields.map AnonFieldSig.toField).length = fields.length := List.length_map _
  have grows := Grows.fields_append c (fields.map AnonFieldSig.toField)
  have good' := good.grows grows rfl rfl rfl
  unfold addType
  split
  · rename_i full failed
    split at failed
    · cases failed
      exact good.failSpan _ _ _
    · cases failed
  · rename_i typeId added done
    split at done
    · cases done
    · cases done
      have noParams : ¬(anonKind isUnion = .FUNCTION ∨ anonKind isUnion = .TUPLE ∨ anonKind isUnion = .PACK) := by
        cases isUnion <;> decide
      have content := fieldsOf_append c { TCType.blank (anonKind isUnion) with declNode } (fields.map AnonFieldSig.toField)
      rw [count] at content
      have shape := anonKind_shape (c := { c with fields := c.fields ++ fields.map AnonFieldSig.toField }) isUnion
        { TCType.blank (anonKind isUnion) with
          declNode, fieldStart := c.fields.length, fieldCount := fields.length } rfl
      rw [content] at shape
      refine good'.push (.of_shape ?_ shape ?_) ?_
      · constructor
        · intro isKind
          exact absurd isKind noParams
        · intro _
          simp
        · intro isTuple
          exact absurd (.inr (.inl isTuple)) noParams
      · intro p member
        refine grows.holds ?_
        have inFields : p ∈ fields.map AnonFieldSig.typeId := by
          cases isUnion <;> simpa [TypeShape.parts, signature, AnonFieldSig.toField, Function.comp_def] using member
        obtain ⟨f, isField, rfl⟩ := List.mem_map.mp inFields
        exact holds f isField
      · intro s shape'
        rw [shape] at shape'
        cases shape'
        rw [grows.shapes good.types rfl]
        refine not_mem_shapes ?_ missed
        intro u member isShape
        simpa using signature_eq_of_search good member isShape

end HopHop.TypeTable
