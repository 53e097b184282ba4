import HopHop.TypeInterns
import HopHop.TypeSubstRun

namespace HopHop.TypeTable

variable {c : TypeTable} {working : List Nat}

/-- The declarations that instances can be made of: 16 bits hold the index of each, and an alias among them has no
base, as none that takes parameters is ever resolved. -/
structure Generics (c : TypeTable) : Prop where
  index : ∀ (i : Nat) (nt : NamedType), c.namedTypes[i]? = some nt → nt.templateRootNamedIndex < 0 → 0 < nt.templateArgCount → i < 2 ^ 15
  noBase : ∀ nt ∈ c.namedTypes, nt.templateRootNamedIndex < 0 → 0 < nt.templateArgCount →
    ∀ t, c.types[nt.typeId]? = some t → t.kind = .ALIAS → t.baseType = none

/-- The declaration that a type goes back to. -/
theorem rootOf_spec (good : Good working c) {id root : TypeId} {templateArgCount : Nat}
    (isRoot : TypeReader.rootOf c id = some (root, templateArgCount)) :
    ∃ (i : Nat) (rootNt : NamedType), c.namedTypes[i]? = some rootNt ∧ root = some rootNt.typeId ∧ rootNt.templateRootNamedIndex < 0 ∧
      rootNt.templateArgCount = templateArgCount := by
  unfold TypeReader.rootOf at isRoot
  split at isRoot
  · cases isRoot
  · rename_i nt found
    have member := List.mem_of_find?_eq_some found
    have isId : some nt.typeId = id := by simpa using List.find?_some found
    split at isRoot
    · rename_i isDecl
      cases isRoot
      obtain ⟨i, atI⟩ := List.getElem?_of_mem member
      exact ⟨i, nt, atI, isId.symm, isDecl, rfl⟩
    · rename_i isInstance
      obtain ⟨rootNt, atRoot, isDecl, -⟩ := good.names.rooted nt member (Int16.not_lt.mp isInstance)
      rw [atRoot] at isRoot
      cases isRoot
      exact ⟨_, rootNt, atRoot, rfl, isDecl, rfl⟩

/-- What a step makes that gives an instance. -/
structure Instantiates (working : List Nat) (c : TypeTable) (root : Nat) (args : List TypeId) (id : TypeId)
    (c' : TypeTable) : Prop where
  good : Good working c'
  grows : Grows c c'
  marks : Marks c c'
  isInstance : c'.InstanceOf (some root) args id

theorem instantiateNamedType_instance (good : Good working c) (generics : Generics c) {i : Nat} {rootNt : NamedType}
    (atRoot : c.namedTypes[i]? = some rootNt) (isDecl : rootNt.templateRootNamedIndex < 0) {args : List TypeId}
    (holds : ∀ arg ∈ args, c.Holds arg) (notEmpty : args ≠ []) {depth id : Nat} {c' : TypeTable}
    (made : instantiateNamedType depth c rootNt.typeId args = some (some id, c')) :
    Instantiates working c rootNt.typeId args (some id) c' := by
  have rootIndex : c.rootNamedIndex i = i := by
    simp only [rootNamedIndex, atRoot, Int16.not_le.mpr isDecl, if_false]
  simp only [instantiateNamedType, instantiateWith, findIdx_typeId good atRoot, rootIndex, atRoot] at made
  split at made
  · cases made
  rename_i arity
  simp only [ne_eq, not_not] at arity
  have some' : 0 < args.length := List.length_pos_iff.mpr notEmpty
  rw [if_neg (by omega)] at made
  split at made
  · rename_i nt found
    cases made
    refine ⟨good, .refl c, .refl c, nt, List.mem_of_find?_eq_some found, rfl, ?_⟩
    have searched := List.find?_some found
    simp only [isInstance, decide_eq_true_eq] at searched
    obtain ⟨root, -, sameArgs⟩ := searched
    have index : nt.templateRootNamedIndex.toNatClampNeg = i := by
      have := Int16.toNat_toInt nt.templateRootNamedIndex
      omega
    refine ⟨?_, ⟨rootNt, index ▸ atRoot, rfl⟩, sameArgs⟩
    rw [Int16.le_iff_toInt_le, Int16.toInt_zero, root]
    exact Int.natCast_nonneg i
  · rename_i missed
    split at made
    · cases made
    · rename_i rootType atType
      by_cases isAlias : rootType.kind = .ALIAS
      · have noBase := generics.noBase rootNt (List.mem_of_getElem? atRoot) isDecl (by omega) rootType atType isAlias
        unfold newInstance at made
        split at made
        · cases made
        · simp only [noBase] at made
          cases depth with
          | zero => simp [substituteType] at made
          | succ depth => simp [substituteType, entry] at made
      · have root : RootOf c i rootNt rootType args :=
          ⟨atRoot, isDecl, generics.index i rootNt atRoot isDecl (by omega), atType, arity, some'⟩
        have makes := newInstance_named good root holds missed isAlias made
        unfold newInstance at made
        split at made
        · cases made
        · cases made
          obtain ⟨rootBack, isInstance⟩ := instanceName_root c root.index rootNt rootType args
          refine ⟨makes.good, makes.grows, .of_extends (List.prefix_append _ _),
            c.instanceName i rootNt rootType args, ?_, rfl, isInstance, ?_, ?_⟩
          · simp [addInstance]
          · have index : (c.instanceName i rootNt rootType args).templateRootNamedIndex.toNatClampNeg = i := by
              have := Int16.toNat_toInt (c.instanceName i rootNt rootType args).templateRootNamedIndex
              omega
            refine ⟨rootNt, ?_, rfl⟩
            rw [index, addInstance]
            simp only
            rw [List.getElem?_append_left (List.getElem?_eq_some_iff.mp atRoot).1, atRoot]
          · simp [TypeTable.templateArgs, addInstance, instanceName]

end HopHop.TypeTable
