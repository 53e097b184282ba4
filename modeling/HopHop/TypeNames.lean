import HopHop.TypeMakes

namespace HopHop.TypeTable

open Interning

variable {c : TypeTable} {working : List Nat}

theorem templateArgs_append {nt : NamedType} (inside : nt.templateArgStart + nt.templateArgCount ≤ c.genericArgTypes.length)
    (more : List TypeId) :
    TypeTable.templateArgs { c with genericArgTypes := c.genericArgTypes ++ more } nt = c.templateArgs nt :=
  take_drop_prefix (List.prefix_append _ _) inside

theorem Grows.args_append (c : TypeTable) (more : List TypeId) :
    Grows c { c with genericArgTypes := c.genericArgTypes ++ more } :=
  { Grows.refl c with
    types := fun _ t atI => ⟨t, atI, .refl t⟩
    args := List.prefix_append _ _ }

theorem Good.args_append (good : Good working c) {more : List TypeId} (holds : ∀ arg ∈ more, c.Holds arg) :
    Good working { c with genericArgTypes := c.genericArgTypes ++ more } where
  types := by
    refine good.types.grows (.args_append c more) rfl ?_
    intro t member isAlias resolved
    exact (good.types.closed t member).base isAlias resolved
  names := { good.names with
    args := by
      intro arg member
      rcases List.mem_append.mp member with old | new
      · exact good.names.args arg old
      · exact holds arg new
    argRange := by
      intro nt member
      have := good.names.argRange nt member
      simp only [List.length_append]
      omega
    instances := by
      have keys : TypeTable.instanceKeys { c with genericArgTypes := c.genericArgTypes ++ more } = c.instanceKeys := by
        refine List.map_congr_left fun nt member => ?_
        simp only [instanceKey, templateArgs_append (good.names.argRange nt member)]
      rw [keys]
      exact good.names.instances }
  waiting := good.waiting

/-- The structural types do not depend on the declarations. -/
theorem GoodTypes.withNamed (good : GoodTypes c) (namedTypes : List NamedType) :
    GoodTypes { c with namedTypes := namedTypes } where
  closed := by
    intro t member
    obtain ⟨⟨params, fields, tuple⟩, parts, base⟩ := good.closed t member
    exact ⟨⟨params, fields, tuple⟩, parts, base⟩
  distinct := good.distinct

/-- Registers a declaration or an instance whose entry no other has. -/
theorem Good.record (good : Good working c) {nt : NamedType} {t : TCType} (atNt : c.types[nt.typeId]? = some t)
    (kind : t.kind = .NAMED ∨ t.kind = .ALIAS) (once : ∀ other ∈ c.namedTypes, other.typeId ≠ nt.typeId)
    (range : nt.templateArgStart + nt.templateArgCount ≤ c.genericArgTypes.length)
    (rooted : 0 ≤ nt.templateRootNamedIndex →
      ∃ root, c.namedTypes[nt.templateRootNamedIndex.toNatClampNeg]? = some root ∧ root.templateRootNamedIndex < 0 ∧
        root.templateArgCount = nt.templateArgCount ∧ 0 < nt.templateArgCount)
    (key : ∀ k, c.instanceKey nt = some k → some k ∉ c.instanceKeys)
    (resolved : 0 ≤ nt.templateRootNamedIndex → nt.typeId ∉ working → t.kind = .ALIAS → t.flags.aliasResolved = true) :
    Good working { c with namedTypes := c.namedTypes ++ [nt] } where
  types := good.types.withNamed _
  names := {
    args := good.names.args
    entries := by
      intro other member
      rcases List.mem_append.mp member with old | new
      · exact good.names.entries other old
      · rw [List.mem_singleton.mp new]
        exact ⟨t, atNt, kind⟩
    once := by
      rw [List.map_append, List.map_cons, List.map_nil, List.nodup_append]
      refine ⟨good.names.once, List.pairwise_singleton _ _, ?_⟩
      intro id member other isNew
      obtain ⟨old, inTable, rfl⟩ := List.mem_map.mp member
      rw [List.mem_singleton.mp isNew]
      exact once old inTable
    argRange := by
      intro other member
      rcases List.mem_append.mp member with old | new
      · exact good.names.argRange other old
      · rw [List.mem_singleton.mp new]
        exact range
    rooted := by
      intro other member isInstance
      have grown : ∀ {i : Nat} {root : NamedType}, c.namedTypes[i]? = some root →
          (c.namedTypes ++ [nt])[i]? = some root := by
        intro i root atI
        rw [List.getElem?_append_left (List.getElem?_eq_some_iff.mp atI).1, atI]
      rcases List.mem_append.mp member with old | new
      · obtain ⟨root, atRoot, spec⟩ := good.names.rooted other old isInstance
        exact ⟨root, grown atRoot, spec⟩
      · rw [List.mem_singleton.mp new] at isInstance ⊢
        obtain ⟨root, atRoot, spec⟩ := rooted isInstance
        exact ⟨root, grown atRoot, spec⟩
    instances := by
      have keys : TypeTable.instanceKeys { c with namedTypes := c.namedTypes ++ [nt] } =
          c.instanceKeys ++ [c.instanceKey nt] := by
        simp only [instanceKeys, List.map_append, List.map_cons, List.map_nil]
        rfl
      rw [keys]
      exact good.names.instances.append key
    resolved := by
      intro other member isInstance idle u atU isAlias
      rcases List.mem_append.mp member with old | new
      · exact good.names.resolved other old isInstance idle u atU isAlias
      · rw [List.mem_singleton.mp new] at isInstance idle atU
        rw [atNt] at atU
        cases atU
        exact resolved isInstance idle isAlias }
  waiting := good.waiting

theorem Good.typeId_lt (good : Good working c) {nt : NamedType} (member : nt ∈ c.namedTypes) :
    nt.typeId < c.types.length := by
  obtain ⟨t, atNt, -⟩ := good.names.entries nt member
  exact (List.getElem?_eq_some_iff.mp atNt).1

theorem Good.holds_typeId (good : Good working c) {nt : NamedType} (member : nt ∈ c.namedTypes) :
    c.Holds (some nt.typeId) :=
  ⟨nt.typeId, good.typeId_lt member, rfl⟩

/-- An entry with no parts yet: a declaration, a type parameter or an instance. -/
theorem ClosedEntry.of_name {t : TCType} (kind : t.kind = .NAMED ∨ t.kind = .ALIAS ∨ t.kind = .TYPE_PARAM)
    (unresolved : t.flags.aliasResolved = false) : ClosedEntry c t where
  inRange := by
    constructor
    · rintro (other | other | other) <;> rcases kind with kind | kind | kind <;> rw [kind] at other <;> cases other
    · rintro (other | other) <;> rcases kind with kind | kind | kind <;> rw [kind] at other <;> cases other
    · intro other
      rcases kind with kind | kind | kind <;> rw [kind] at other <;> cases other
  parts := by
    intro s shape
    rcases kind with kind | kind | kind <;> simp [TypeTable.shapeOf, kind] at shape
  base := by
    intro _ resolved
    rw [unresolved] at resolved
    cases resolved

theorem shapeOf_name {t : TCType} (kind : t.kind = .NAMED ∨ t.kind = .ALIAS ∨ t.kind = .TYPE_PARAM) :
    c.shapeOf t = none := by
  rcases kind with kind | kind | kind <;> simp [TypeTable.shapeOf, kind]

/-- A new entry with no parts yet. -/
theorem Good.push_name (good : Good working c) {t : TCType}
    (kind : t.kind = .NAMED ∨ t.kind = .ALIAS ∨ t.kind = .TYPE_PARAM) (unresolved : t.flags.aliasResolved = false) :
    Good working { c with types := c.types ++ [t] } := by
  refine good.push (.of_name kind unresolved) ?_
  intro s shape
  rw [shapeOf_name kind] at shape
  cases shape

theorem Good.addType_name (good : Good working c) {t : TCType}
    (kind : t.kind = .NAMED ∨ t.kind = .ALIAS ∨ t.kind = .TYPE_PARAM) (unresolved : t.flags.aliasResolved = false)
    (errStart errEnd : Nat) : Good working (c.addType t errStart errEnd).2 := by
  unfold addType
  split
  · exact good.failSpan _ _ _
  · exact good.push_name kind unresolved

theorem addType_cases (c : TypeTable) (t : TCType) (errStart errEnd : Nat) :
    c.addType t errStart errEnd = c.failSpan .ARENA_OOM errStart errEnd ∨
      c.addType t errStart errEnd = (some c.types.length, { c with types := c.types ++ [t] }) := by
  unfold addType
  split
  · exact .inl rfl
  · exact .inr rfl

/-- The placeholders of type parameters, and what they leave as it was. -/
theorem addPlaceholders_good (declNode : Int) (params : List AstNode) : ∀ {c : TypeTable}, Good working c →
    Good working (addPlaceholders declNode c params).2 ∧ Grows c (addPlaceholders declNode c params).2 ∧
      (addPlaceholders declNode c params).2.namedTypes = c.namedTypes ∧
      ((addPlaceholders declNode c params).1 = true →
        (addPlaceholders declNode c params).2.genericArgTypes.length = c.genericArgTypes.length + params.length) := by
  induction params with
  | nil =>
    intro c good
    exact ⟨good, .refl c, rfl, fun _ => rfl⟩
  | cons n rest ih =>
    intro c good
    simp only [addPlaceholders]
    rcases addType_cases c (placeholderType declNode n) n.start n.stop with failed | added
    · rw [failed]
      exact ⟨good.failSpan _ _ _, .failSpan _ _ _ _, rfl, fun done => by cases done⟩
    · rw [added]
      have entered := good.push_name (t := placeholderType declNode n) (.inr (.inr rfl)) rfl
      have holds : TypeTable.Holds { c with types := c.types ++ [placeholderType declNode n] } (some c.types.length) :=
        ⟨c.types.length, by simp, rfl⟩
      have argHolds : ∀ arg ∈ [some c.types.length],
          TypeTable.Holds { c with types := c.types ++ [placeholderType declNode n] } arg := by simpa using holds
      have good' := entered.args_append argHolds
      have grows := (Grows.push c (placeholderType declNode n)).trans (.args_append _ [some c.types.length])
      obtain ⟨goodRest, growsRest, named, length⟩ := ih good'
      refine ⟨goodRest, grows.trans growsRest, named, ?_⟩
      intro done
      rw [length done]
      simp only [List.length_append, List.length_cons, List.length_nil]
      omega

/-- The placeholders do not depend on the declarations. -/
theorem addPlaceholders_named (declNode : Int) (params : List AstNode) : ∀ (c : TypeTable) (namedTypes : List NamedType),
    addPlaceholders declNode { c with namedTypes := namedTypes } params =
      ((addPlaceholders declNode c params).1, { (addPlaceholders declNode c params).2 with namedTypes := namedTypes }) := by
  induction params with
  | nil =>
    intro c namedTypes
    rfl
  | cons n rest ih =>
    intro c namedTypes
    simp only [addPlaceholders, addType]
    by_cases full : c.typeCap ≤ c.types.length
    · simp only [full, if_true, TypeTable.failSpan]
    · simp only [full, if_false]
      exact ih { c with
        types := c.types ++ [placeholderType declNode n]
        genericArgTypes := c.genericArgTypes ++ [some c.types.length] } namedTypes

theorem modify_append_last {α : Type} (l : List α) (x : α) (f : α → α) :
    (l ++ [x]).modify ((l ++ [x]).length - 1) f = l ++ [f x] := by
  rw [List.modify_eq_take_drop]
  simp

/-- Registers a declaration without type parameters, or with those that have just been added. -/
theorem Good.declare (good : Good working c) {nt : NamedType} {t : TCType} (atNt : c.types[nt.typeId]? = some t)
    (kind : t.kind = .NAMED ∨ t.kind = .ALIAS) (once : ∀ other ∈ c.namedTypes, other.typeId ≠ nt.typeId)
    (range : nt.templateArgStart + nt.templateArgCount ≤ c.genericArgTypes.length)
    (isDecl : nt.templateRootNamedIndex < 0) : Good working { c with namedTypes := c.namedTypes ++ [nt] } := by
  have notInstance : ¬0 ≤ nt.templateRootNamedIndex := Int16.not_le.mpr isDecl
  refine good.record atNt kind once range (fun isInstance => absurd isInstance notInstance) ?_
    (fun isInstance => absurd isInstance notInstance)
  intro k key
  simp [instanceKey, notInstance] at key

theorem declaredType_kind (nodeId : Int) (node : AstNode) :
    (declaredType nodeId node).kind = .NAMED ∨ (declaredType nodeId node).kind = .ALIAS := by
  by_cases isAlias : node.kind = .TYPE_ALIAS
  · exact .inr (by simp [declaredType, TCType.blank, isAlias])
  · exact .inl (by simp [declaredType, TCType.blank, isAlias])

/-- The placeholders of a declaration that is registered before they are added and gets its arguments after. -/
theorem appendPlaceholders_good (good : Good working c) {nt : NamedType} {t : TCType}
    (atNt : c.types[nt.typeId]? = some t) (kind : t.kind = .NAMED ∨ t.kind = .ALIAS)
    (once : ∀ other ∈ c.namedTypes, other.typeId ≠ nt.typeId) (isDecl : nt.templateRootNamedIndex < 0)
    (empty : nt.templateArgStart = 0 ∧ nt.templateArgCount = 0) (nodeId : Int) (node : AstNode)
    (typeParams : List AstNode) {done : Bool} {c' : TypeTable}
    (result : appendDeclTypeParamPlaceholders { c with namedTypes := c.namedTypes ++ [nt] } nodeId node typeParams =
      (done, c')) :
    c'.namedTypes = c.namedTypes ++ [nt] ∧ Good working c' ∧
      (done = true → Good working { c' with
        namedTypes := c.namedTypes ++ [NamedType.withArgs nt c.genericArgTypes.length typeParams.length] }) := by
  unfold appendDeclTypeParamPlaceholders at result
  split at result
  · cases result
    refine ⟨rfl, ?_, fun done => by cases done⟩
    exact (good.declare atNt kind once (by omega) isDecl).failSpan _ _ _
  · rw [addPlaceholders_named] at result
    cases result
    obtain ⟨good', grows, named, length⟩ := addPlaceholders_good nodeId typeParams good
    obtain ⟨t', atNt', keeps⟩ := grows.types _ _ atNt
    have declared : ∀ nt' : NamedType, nt'.typeId = nt.typeId →
        nt'.templateArgStart + nt'.templateArgCount ≤ (addPlaceholders nodeId c typeParams).2.genericArgTypes.length →
        nt'.templateRootNamedIndex < 0 →
        Good working { (addPlaceholders nodeId c typeParams).2 with namedTypes := c.namedTypes ++ [nt'] } := by
      intro nt' sameId range isDecl'
      rw [← named]
      exact good'.declare (sameId ▸ atNt') (keeps.kind ▸ kind) (by rw [named, sameId]; exact once) range isDecl'
    refine ⟨rfl, declared nt rfl (by omega) isDecl, ?_⟩
    intro success
    exact declared _ rfl (by rw [length success]; exact Nat.le_refl _) isDecl

theorem addNamedType_good (good : Good working c) (nodeId : Int) (node : AstNode) (typeParams : List AstNode)
    (ownerTypeId : TypeId) : Good working (c.addNamedType nodeId node typeParams ownerTypeId).2 := by
  unfold addNamedType
  split
  · exact good.failSpan _ _ _
  split
  · exact good.failSpan _ _ _
  have kind := declaredType_kind nodeId node
  have entered : Good working { c with types := c.types ++ [declaredType nodeId node] } := by
    refine good.push_name ?_ rfl
    rcases kind with named | isAlias
    · exact .inl named
    · exact .inr (.inl isAlias)
  rcases addType_cases c (declaredType nodeId node) node.start node.stop with failed | added
  · rw [failed]
    exact good.failSpan _ _ _
  rw [added]
  simp only
  split
  · exact entered.failSpan _ _ _
  cases result : appendDeclTypeParamPlaceholders
      { c with
        types := c.types ++ [declaredType nodeId node]
        namedTypes := c.namedTypes ++ [declaredName nodeId node ownerTypeId c.types.length] } nodeId node typeParams with
  | mk done c' =>
    have once : ∀ other ∈ c.namedTypes, other.typeId ≠ c.types.length := fun other member =>
      (good.typeId_lt member).ne
    have atNew : (c.types ++ [declaredType nodeId node])[
        (declaredName nodeId node ownerTypeId c.types.length).typeId]? = some (declaredType nodeId node) := by
      simp [declaredName]
    obtain ⟨named, good', args⟩ := appendPlaceholders_good entered atNew kind once
      (show (-1 : Int16) < 0 by decide) ⟨rfl, rfl⟩ nodeId node typeParams result
    cases done with
    | false => exact good'
    | true =>
      simp only [named, modify_append_last]
      exact args rfl

end HopHop.TypeTable
