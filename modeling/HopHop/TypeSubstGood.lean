import HopHop.TypeAdmits

namespace HopHop.TypeTable

open Interning

variable {c : TypeTable} {working : List Nat}

/-- A list of types made one after the other, all of them there. -/
structure MakesAll (working : List Nat) (c : TypeTable) (n count : Nat) (made : List TypeId × TypeTable) : Prop where
  good : Good working made.2
  grows : Grows c made.2
  spent : Spent c made.2 n
  length : made.1.length = count
  holds : ∀ id ∈ made.1, made.2.Holds id

theorem Good.forget {id : Nat} (good : Good (id :: working) c)
    (done : ∀ t, c.types[id]? = some t → t.kind = .ALIAS → t.flags.aliasResolved = true) : Good working c where
  types := good.types
  names := { good.names with
    resolved := by
      intro nt member isInstance idle t atNt isAlias
      by_cases same : nt.typeId = id
      · exact done t (same ▸ atNt) isAlias
      · refine good.names.resolved nt member isInstance ?_ t atNt isAlias
        simp only [List.mem_cons, not_or]
        exact ⟨same, idle⟩ }
  waiting := fun other member => good.waiting other (List.mem_cons_of_mem id member)

theorem instanceName_root (c : TypeTable) {rootNamedIndex : Nat} (index : rootNamedIndex < 2 ^ 15) (rootNt : NamedType)
    (rootType : TCType) (argTypes : List TypeId) :
    (c.instanceName rootNamedIndex rootNt rootType argTypes).templateRootNamedIndex.toInt = rootNamedIndex ∧
      0 ≤ (c.instanceName rootNamedIndex rootNt rootType argTypes).templateRootNamedIndex := by
  have value : (Int16.ofNat rootNamedIndex).toInt = rootNamedIndex := Int16.toInt_ofNat_of_lt index
  refine ⟨value, ?_⟩
  rw [instanceName, Int16.le_iff_toInt_le, value]
  exact Int.natCast_nonneg _

theorem Grows.addInstance (c : TypeTable) {rootNamedIndex : Nat} (index : rootNamedIndex < 2 ^ 15)
    (rootNt : NamedType) (rootType : TCType) (argTypes : List TypeId) : Grows c (c.addInstance rootNamedIndex rootNt rootType argTypes) :=
  { Grows.refl c with
    types := (Grows.push c (instanceType rootType)).types
    named := by
      refine ⟨_, rfl, ?_⟩
      intro nt member
      rw [List.mem_singleton.mp member]
      exact ⟨Nat.le_refl _, (instanceName_root c index rootNt rootType argTypes).2⟩
    args := List.prefix_append _ _ }

theorem spent_addInstance (c : TypeTable) (rootNamedIndex : Nat) (rootNt : NamedType) (rootType : TCType)
    (argTypes : List TypeId) :
    Spent c (c.addInstance rootNamedIndex rootNt rootType argTypes) (argTypes.length + 1) := by
  constructor <;> simp [addInstance]

/-- What an instance is made from: a declaration that stands at an index that 16 bits hold, with as many parameters. -/
structure RootOf (c : TypeTable) (rootNamedIndex : Nat) (rootNt : NamedType) (rootType : TCType)
    (argTypes : List TypeId) : Prop where
  root : c.namedTypes[rootNamedIndex]? = some rootNt
  isDecl : rootNt.templateRootNamedIndex < 0
  index : rootNamedIndex < 2 ^ 15
  entry : c.types[rootNt.typeId]? = some rootType
  arity : rootNt.templateArgCount = argTypes.length
  some' : 0 < argTypes.length

theorem templateArgs_length (good : Good working c) {nt : NamedType} (member : nt ∈ c.namedTypes) :
    (c.templateArgs nt).length = nt.templateArgCount := by
  have := good.names.argRange nt member
  simp only [TypeTable.templateArgs, List.length_take, List.length_drop]
  omega

theorem addInstance_good (good : Good working c) {rootNamedIndex : Nat} {rootNt : NamedType} {rootType : TCType}
    {argTypes : List TypeId} (from' : RootOf c rootNamedIndex rootNt rootType argTypes)
    (holds : ∀ arg ∈ argTypes, c.Holds arg)
    (missed : c.namedTypes.find? (c.isInstance rootNamedIndex argTypes) = none) :
    Good (c.types.length :: working) (c.addInstance rootNamedIndex rootNt rootType argTypes) := by
  obtain ⟨t, atRoot, kind⟩ := good.names.entries rootNt (List.mem_of_getElem? from'.root)
  rw [from'.entry] at atRoot
  cases atRoot
  have names : (instanceType rootType).kind = .NAMED ∨ (instanceType rootType).kind = .ALIAS ∨
      (instanceType rootType).kind = .TYPE_PARAM := kind.imp_right .inl
  have pushed : Good working { c with types := c.types ++ [instanceType rootType] } := good.push_name names rfl
  have waiting : Good (c.types.length :: working) { c with types := c.types ++ [instanceType rootType] } :=
    { pushed with
      names := { pushed.names with
        resolved := fun nt member isInstance idle =>
          pushed.names.resolved nt member isInstance fun inWorking => idle (List.mem_cons_of_mem _ inWorking) }
      waiting := by
        intro id member
        rcases List.mem_cons.mp member with rfl | old
        · exact ⟨instanceType rootType, by simp, rfl⟩
        · exact pushed.waiting id old }
  have withArgs := waiting.args_append fun arg member => (Grows.push c _).holds (holds arg member)
  obtain ⟨index, isInstance⟩ := instanceName_root c from'.index rootNt rootType argTypes
  refine withArgs.record (t := instanceType rootType) ?_ kind ?_ ?_ ?_ ?_ ?_
  · simp [instanceName]
  · intro other member
    exact (good.typeId_lt member).ne
  · simp [instanceName]
  · intro _
    refine ⟨rootNt, ?_, from'.isDecl, from'.arity, from'.some'⟩
    rw [instanceName, Int16.toNatClampNeg_ofNat_of_lt from'.index]
    exact from'.root
  · intro k key member
    obtain ⟨other, inTable, otherKey⟩ := List.mem_map.mp member
    have others := List.find?_eq_none.mp missed other inTable
    rw [← key] at otherKey
    simp only [instanceKey] at otherKey
    rw [if_pos isInstance] at otherKey
    split at otherKey
    · simp only [Option.some.injEq, Prod.mk.injEq] at otherKey
      obtain ⟨sameRoot, sameArgs⟩ := otherKey
      have oldArgs := templateArgs_append (good.names.argRange other inTable) argTypes
      have newArgs : TypeTable.templateArgs { c with genericArgTypes := c.genericArgTypes ++ argTypes }
          (c.instanceName rootNamedIndex rootNt rootType argTypes) = argTypes := by
        simp [TypeTable.templateArgs, instanceName]
      have same : c.templateArgs other = argTypes := oldArgs.symm.trans (Eq.trans sameArgs newArgs)
      have count := templateArgs_length good inTable
      rw [same] at count
      have root : other.templateRootNamedIndex.toInt = rootNamedIndex := sameRoot.trans index
      simp [TypeTable.isInstance, same, ← count, root] at others
    · cases otherKey
  · intro _ idle
    exact absurd List.mem_cons_self idle

theorem Keeps.resolvedTo {t : TCType} (isAlias : t.kind = .ALIAS) (unresolved : t.flags.aliasResolved = false)
    (base : TypeId) : Keeps t (TCType.resolvedTo t base) := by
  refine ⟨rfl, rfl, rfl, rfl, rfl, rfl, rfl, ?_, ?_⟩
  · intro resolved
    rw [resolved isAlias] at unresolved
    cases unresolved
  · intro still
    cases still

/-- The base of an alias is filled in. -/
theorem Good.fill {id : Nat} {t : TCType} (good : Good (id :: working) c) (idle : id ∉ working)
    (atId : c.types[id]? = some t) (isAlias : t.kind = .ALIAS) {base : TypeId} (holds : c.Holds base) :
    Good working { c with types := c.types.modify id (TCType.resolvedTo · base) } ∧
      Grows c { c with types := c.types.modify id (TCType.resolvedTo · base) } := by
  obtain ⟨u, atU, unresolved⟩ := good.waiting id List.mem_cons_self
  rw [atId] at atU
  cases atU
  have grows : Grows c { c with types := c.types.modify id (TCType.resolvedTo · base) } := by
    refine .modify c id _ ?_
    intro u atU
    rw [atId] at atU
    cases atU
    exact .resolvedTo isAlias unresolved base
  have entries : ∀ {j : Nat} {t' : TCType}, (c.types.modify id (TCType.resolvedTo · base))[j]? = some t' →
      id = j ∧ t' = TCType.resolvedTo t base ∨ id ≠ j ∧ c.types[j]? = some t' := by
    intro j t' atJ
    by_cases same : id = j
    · subst same
      simp only [List.getElem?_modify, atId, Option.map_eq_map, Option.map_some, if_true, Option.some.injEq] at atJ
      exact .inl ⟨rfl, atJ.symm⟩
    · rw [List.getElem?_modify_ne _ _ same] at atJ
      exact .inr ⟨same, atJ⟩
  have filled : Good (id :: working) c → GoodTypes { c with types := c.types.modify id (TCType.resolvedTo · base) } := by
    intro good
    refine good.types.grows grows (by simp) ?_
    intro t' member isAlias' resolved
    obtain ⟨j, atJ⟩ := List.getElem?_of_mem member
    rcases entries atJ with ⟨rfl, rfl⟩ | ⟨-, old⟩
    · exact grows.holds holds
    · exact grows.holds ((good.types.closed t' (List.mem_of_getElem? old)).base isAlias' resolved)
  refine ⟨⟨filled good, { good.names.grows grows rfl rfl with resolved := ?_ }, ?_⟩, grows⟩
  · intro nt member isInstance idle' t' atNt isAlias'
    rcases entries atNt with ⟨-, rfl⟩ | ⟨other, old⟩
    · rfl
    · refine good.names.resolved nt member isInstance ?_ t' old isAlias'
      simp only [List.mem_cons, not_or]
      exact ⟨fun same => other same.symm, idle'⟩
  · intro other member
    obtain ⟨u, atOther, unresolved'⟩ := good.waiting other (List.mem_cons_of_mem id member)
    have differs : id ≠ other := fun same => idle (same ▸ member)
    exact ⟨u, by rw [List.getElem?_modify_ne _ _ differs, atOther], unresolved'⟩

/-- An instance of a declaration that is no alias. -/
theorem newInstance_named {subst : Subst} (good : Good working c) {rootNamedIndex : Nat} {rootNt : NamedType}
    {rootType : TCType} {argTypes : List TypeId} (root : RootOf c rootNamedIndex rootNt rootType argTypes)
    (holds : ∀ arg ∈ argTypes, c.Holds arg)
    (missed : c.namedTypes.find? (c.isInstance rootNamedIndex argTypes) = none) (notAlias : rootType.kind ≠ .ALIAS)
    {made : TypeId × TypeTable} (result : newInstance subst c rootNamedIndex rootNt rootType argTypes = some made) :
    Makes working c (argTypes.length + 1) made := by
  unfold newInstance at result
  split at result
  · rename_i full
    cases result
    refine .refused good ?_ _ _ _
    intro room
    obtain ⟨types, -, named, args⟩ := room
    omega
  · cases result
    have grows := Grows.addInstance c root.index rootNt rootType argTypes
    refine ⟨(addInstance_good good root holds missed).forget ?_, grows, spent_addInstance .., ?_⟩
    · intro t atNew isAlias
      simp only [addInstance, List.getElem?_concat_length, Option.some.injEq] at atNew
      subst atNew
      exact absurd isAlias notAlias
    · intro _
      exact ⟨c.types.length, by simp [addInstance], rfl⟩

/-- An instance of an alias, whose base can be substituted in with the room there is. -/
theorem newInstance_alias {subst : Subst} (good : Good working c) {rootNamedIndex : Nat} {rootNt : NamedType}
    {rootType : TCType} {argTypes : List TypeId} (root : RootOf c rootNamedIndex rootNt rootType argTypes)
    (holds : ∀ arg ∈ argTypes, c.Holds arg)
    (missed : c.namedTypes.find? (c.isInstance rootNamedIndex argTypes) = none) (isAlias : rootType.kind = .ALIAS)
    {n : Nat} (room : Room c (argTypes.length + 1 + n))
    (base : ∀ {working' : List Nat} {c' : TypeTable} {made : TypeId × TypeTable}, Good working' c' → Grows c c' →
      Room c' n → (∀ arg ∈ argTypes, c'.Holds arg) →
      subst c' rootType.baseType (c.templateArgs rootNt) argTypes rootType.nameStart rootType.nameEnd = some made →
      Makes working' c' n made)
    {made : TypeId × TypeTable} (result : newInstance subst c rootNamedIndex rootNt rootType argTypes = some made) :
    Makes working c (argTypes.length + 1 + n) made := by
  have space : ¬(c.typeCap ≤ c.types.length ∨ c.namedTypeCap ≤ c.namedTypes.length ∨
      c.genericArgCap < c.genericArgTypes.length + argTypes.length) := by
    obtain ⟨types, -, named, args⟩ := room
    omega
  have grows := Grows.addInstance c root.index rootNt rootType argTypes
  have spent := spent_addInstance c rootNamedIndex rootNt rootType argTypes
  have started := addInstance_good good root holds missed
  simp only [newInstance, space, if_false, isAlias, if_true] at result
  cases substituted : subst (c.addInstance rootNamedIndex rootNt rootType argTypes) rootType.baseType
      (c.templateArgs rootNt) argTypes rootType.nameStart rootType.nameEnd with
  | none =>
    rw [substituted] at result
    cases result
  | some baseMade =>
    have makes := base started grows (room.after spent grows) (fun arg member => grows.holds (holds arg member))
      substituted
    have there := makes.holds (room.after spent grows)
    obtain ⟨baseId, c'⟩ := baseMade
    obtain ⟨b, below, rfl⟩ := there
    rw [substituted] at result
    cases result
    obtain ⟨t, atNew, keeps⟩ := makes.grows.types c.types.length (instanceType rootType) (by simp [addInstance])
    have fresh : c.types.length ∉ working := by
      intro member
      obtain ⟨u, atU, -⟩ := good.waiting _ member
      have := (List.getElem?_eq_some_iff.mp atU).1
      omega
    have baseHolds : c'.Holds (some b) := ⟨b, below, rfl⟩
    obtain ⟨good', filled⟩ := makes.good.fill fresh atNew (keeps.kind.trans isAlias) baseHolds
    refine ⟨good', grows.trans (makes.grows.trans filled), ?_, ?_⟩
    · have all := spent.trans makes.spent
      exact ⟨by simpa using all.types, all.params, all.named, all.args⟩
    · intro _
      exact filled.holds ⟨c.types.length, (List.getElem?_eq_some_iff.mp atNew).1, rfl⟩

end HopHop.TypeTable
