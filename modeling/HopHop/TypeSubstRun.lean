import HopHop.TypeSubstGood
import Mathlib.Data.List.Nodup

namespace HopHop.TypeTable

variable {c : TypeTable} {working : List Nat}

/-- An id finds the one declaration or instance that has it. -/
theorem findIdx_typeId (good : Good working c) {i : Nat} {nt : NamedType} (atI : c.namedTypes[i]? = some nt) :
    c.namedTypes.findIdx? (·.typeId = nt.typeId) = some i := by
  obtain ⟨below, same⟩ := List.getElem?_eq_some_iff.mp atI
  rw [List.findIdx?_eq_some_iff_getElem]
  refine ⟨below, by simp [same], ?_⟩
  intro j before isSame
  have atJ := List.getElem?_eq_getElem (before.trans below)
  have equal := good.named_inj atJ atI (by simpa using isSame)
  omega

theorem Makes.known (good : Good working c) {nt : NamedType} (member : nt ∈ c.namedTypes) (n : Nat) :
    Makes working c n (some nt.typeId, c) where
  good := good
  grows := .refl c
  spent := .refl c n
  holds := fun _ => good.holds_typeId member

/-- An instance of a declaration, known or new. -/
theorem instantiateWith_makes {subst : Subst} (good : Good working c) {i : Nat} {nt : NamedType}
    {argTypes : List TypeId} (atI : c.namedTypes[i]? = some nt) (isDecl : nt.templateRootNamedIndex < 0)
    (index : i < 2 ^ 15) (arity : nt.templateArgCount = argTypes.length) (some' : 0 < argTypes.length)
    (holds : ∀ arg ∈ argTypes, c.Holds arg) {n : Nat} (room : Room c (argTypes.length + 1 + n))
    (base : ∀ rootType, c.types[nt.typeId]? = some rootType → rootType.kind = .ALIAS →
      ∀ {working' : List Nat} {c' : TypeTable} {made : TypeId × TypeTable}, Good working' c' → Grows c c' →
        Room c' n → (∀ arg ∈ argTypes, c'.Holds arg) →
        subst c' rootType.baseType (c.templateArgs nt) argTypes rootType.nameStart rootType.nameEnd = some made →
        Makes working' c' n made)
    {made : TypeId × TypeTable} (result : instantiateWith subst c nt.typeId argTypes = some made) :
    Makes working c (argTypes.length + 1 + n) made := by
  have ownRoot : c.rootNamedIndex i = i := by
    simp only [rootNamedIndex, atI, Int16.not_le.mpr isDecl, if_false]
  have notEmpty : argTypes.length ≠ 0 := by omega
  simp only [instantiateWith, findIdx_typeId good atI, ownRoot, atI, arity, ne_eq, not_true_eq_false, if_false,
    notEmpty] at result
  split at result
  · rename_i known found
    cases result
    exact .known good (List.mem_of_find?_eq_some found) _
  · rename_i missed
    split at result
    · rename_i noEntry
      obtain ⟨t, atNt, -⟩ := good.names.entries nt (List.mem_of_getElem? atI)
      rw [noEntry] at atNt
      cases atNt
    · rename_i rootType atType
      have root : RootOf c i nt rootType argTypes := ⟨atI, isDecl, index, atType, arity, some'⟩
      by_cases isAlias : rootType.kind = .ALIAS
      · exact newInstance_alias good root holds missed isAlias room (base rootType atType isAlias) result
      · exact (newInstance_named good root holds missed isAlias result).mono (by omega)

/-- What is known of a substitution that goes through types the table `c₀` admits. -/
def Substitutes (c₀ : TypeTable) (ids : List TypeId) (n : Nat) : Prop :=
  ∀ {c : TypeTable} {working : List Nat} {depth : Nat} {paramTypes argTypes : List TypeId} {errStart errEnd : Nat}
    {made : List TypeId × TypeTable}, Grows c₀ c → Good working c → Room c n → (∀ arg ∈ argTypes, c.Holds arg) →
    substituteAll (substituteType depth) paramTypes argTypes errStart errEnd c ids = some made →
    MakesAll working c n ids.length made

theorem substituteAll_single {subst : Subst} {paramTypes argTypes : List TypeId} {errStart errEnd : Nat}
    {id : TypeId} {made : TypeId × TypeTable} (result : subst c id paramTypes argTypes errStart errEnd = some made) :
    substituteAll subst paramTypes argTypes errStart errEnd c [id] = some ([made.1], made.2) := by
  simp only [substituteAll, result, Option.map_some]

theorem Substitutes.single {c₀ : TypeTable} {id : TypeId} {n : Nat} (all : Substitutes c₀ [id] n) {depth : Nat}
    {paramTypes argTypes : List TypeId} {errStart errEnd : Nat} {made : TypeId × TypeTable} (grows : Grows c₀ c)
    (good : Good working c) (room : Room c n) (holds : ∀ arg ∈ argTypes, c.Holds arg)
    (result : substituteType depth c id paramTypes argTypes errStart errEnd = some made) :
    Makes working c n made ∧ made.2.Holds made.1 := by
  obtain ⟨good', grows', spent, -, there⟩ := all grows good room holds (substituteAll_single result)
  have holdsMade := there made.1 (List.mem_singleton.mpr rfl)
  exact ⟨⟨good', grows', spent, fun _ => holdsMade⟩, holdsMade⟩

/-- A type built on one component that has been substituted in. -/
theorem rebuilt_makes {id base : TypeId} {n : Nat} {part : TypeId × TypeTable} (holds : c.Holds id)
    (makes : Makes working c n part) (partHolds : part.2.Holds part.1)
    {intern : TypeTable → TypeId → TypeId × TypeTable}
    (interns : ∀ {c' : TypeTable} {b : TypeId}, Good working c' → c'.Holds b → Makes working c' 1 (intern c' b)) :
    Makes working c (n + 1) (rebuilt id base intern part) := by
  obtain ⟨b, c'⟩ := part
  simp only [rebuilt]
  by_cases unchanged : b = base
  · rw [if_pos unchanged]
    exact ⟨makes.good, makes.grows, makes.spent.mono (by omega), fun _ => makes.grows.holds holds⟩
  · rw [if_neg unchanged]
    exact (interns makes.good partHolds).after makes.grows makes.spent

theorem Makes.same (good : Good working c) {id : TypeId} (holds : c.Holds id) (n : Nat) : Makes working c n (id, c) :=
  ⟨good, .refl c, .refl c n, fun _ => holds⟩

/-- Elements that have been substituted in, given back to an intern function when they have changed. -/
theorem MakesAll.rebuilt {id : TypeId} {n count : Nat} {part : List TypeId × TypeTable} (holds : c.Holds id)
    (makes : MakesAll working c n count part) {same : Prop} [Decidable same] {made : TypeId × TypeTable} {m : Nat}
    (interns : Good working part.2 → (∀ p ∈ part.1, part.2.Holds p) → Makes working part.2 m made) :
    Makes working c (n + m) (if same then (id, part.2) else made) := by
  split
  · exact ⟨makes.good, makes.grows, makes.spent.mono (by omega), fun _ => makes.grows.holds holds⟩
  · exact (interns makes.good makes.holds).after makes.grows makes.spent

theorem lookupSubstitutedType_mem (paramTypes argTypes : List TypeId) (id : TypeId) :
    lookupSubstitutedType paramTypes argTypes id = id ∨ lookupSubstitutedType paramTypes argTypes id ∈ argTypes := by
  unfold lookupSubstitutedType
  cases found : (paramTypes.zip argTypes).find? (·.1 = id) with
  | none => exact .inl rfl
  | some pair => exact .inr (List.of_mem_zip (List.mem_of_find?_eq_some found)).2

/-- Where a substitution goes in an instance or a generic declaration that it does not refuse. -/
theorem namedParts_cases {id : TypeId} {nt : NamedType}
    (found : c.namedTypes.find? (fun nt => some nt.typeId = id) = some nt)
    (notPlain : ¬(nt.templateRootNamedIndex < 0 ∧ nt.templateArgCount = 0)) {parts bases : List TypeId}
    (into : c.namedParts id = some (parts, bases)) :
    parts = c.templateArgs nt ∧ (0 ≤ nt.templateRootNamedIndex → ∀ root,
      c.namedTypes[nt.templateRootNamedIndex.toNatClampNeg]? = some root →
        ∃ rootType, c.types[root.typeId]? = some rootType ∧ (rootType.kind = .ALIAS →
          rootType.flags.aliasResolved = true ∧ bases = [rootType.baseType])) := by
  simp only [namedParts, found] at into
  rw [if_neg notPlain] at into
  split at into
  · cases into
  split at into
  · rename_i isDecl
    cases into
    exact ⟨rfl, fun isInstance => absurd isInstance (Int16.not_le.mpr isDecl)⟩
  split at into
  · cases into
  rename_i root atRoot
  split at into
  · cases into
  rename_i rootType atType
  have sameRoot : ∀ root', c.namedTypes[nt.templateRootNamedIndex.toNatClampNeg]? = some root' → root' = root := by
    intro root' at'
    rw [atRoot] at at'
    exact (Option.some.inj at').symm
  split at into
  · rename_i notAlias
    cases into
    refine ⟨rfl, fun _ root' at' => ⟨rootType, sameRoot root' at' ▸ atType, fun isAlias => absurd isAlias notAlias⟩⟩
  split at into
  · rename_i resolved
    cases into
    exact ⟨rfl, fun _ root' at' => ⟨rootType, sameRoot root' at' ▸ atType, fun _ => ⟨resolved, rfl⟩⟩⟩
  · cases into

/-- A substitution in a declared type or an instance. -/
theorem substituteNamed_makes {c₀ : TypeTable} {id : TypeId} {parts bases : List TypeId} {n m : Nat}
    {started : List Nat} (good₀ : Good started c₀) (holds₀ : c₀.Holds id)
    (into : c₀.namedParts id = some (parts, bases)) (partsIn : Substitutes c₀ parts n)
    (basesIn : Substitutes c₀ bases m) {depth : Nat} {paramTypes argTypes : List TypeId} {errStart errEnd : Nat}
    {made : TypeId × TypeTable} (grows : Grows c₀ c) (good : Good working c)
    (room : Room c (parts.length + 1 + n + m)) (argHolds : ∀ arg ∈ argTypes, c.Holds arg)
    (result : substituteNamed (substituteType depth) c id paramTypes argTypes errStart errEnd = some made) :
    Makes working c (parts.length + 1 + n + m) made := by
  have holds := grows.holds holds₀
  have into' := grows.namedParts good₀ holds₀ into
  unfold substituteNamed at result
  split at result
  · cases result
    exact .same good holds _
  rename_i nt found
  have member := List.mem_of_find?_eq_some found
  split at result
  · cases result
    exact .same good holds _
  rename_i notPlain
  obtain ⟨isParts, rootSpec⟩ := namedParts_cases found notPlain into'
  split at result
  · rename_i tooMany
    simp only [namedParts, found] at into'
    rw [if_neg notPlain, if_pos tooMany] at into'
    cases into'
  split at result
  · cases result
  rename_i args c₁ substituted
  rw [← isParts] at substituted
  have all := partsIn grows good (room.mono (by omega)) argHolds substituted
  split at result
  · cases result
    exact ⟨all.good, all.grows, all.spent.mono (by omega), fun _ => all.grows.holds holds⟩
  rename_i changed
  simp only [not_or] at changed
  have isInstance : 0 ≤ nt.templateRootNamedIndex := Int16.not_lt.mp changed.1
  obtain ⟨root, atRoot, isDecl, arity, some'⟩ := good.names.rooted nt member isInstance
  obtain ⟨rootType, atType, aliasBase⟩ := rootSpec isInstance root atRoot
  have atRoot₁ := all.grows.namedAt atRoot
  rw [atRoot₁] at result
  simp only at result
  have count : args.length = parts.length := all.length
  have partCount : parts.length = nt.templateArgCount := by rw [isParts, templateArgs_length good member]
  have room₁ : Room c (n + (args.length + 1 + m)) := room.mono (by omega)
  have arity₁ : root.templateArgCount = args.length := by omega
  have some₁ : 0 < args.length := by omega
  have argsHold : ∀ arg ∈ args, c₁.Holds arg := all.holds
  have instantiated := instantiateWith_makes all.good atRoot₁ isDecl (Int16.toNatClampNeg_lt _)
    arity₁ some₁ argsHold (room₁.after all.spent all.grows) ?_ result
  · exact (instantiated.after all.grows all.spent).mono (by omega)
  · intro rootType₁ atType₁ isAlias working' c' made' good' grows' room' holds' substituted'
    obtain ⟨u, atU, keeps⟩ := all.grows.types _ _ atType
    rw [atType₁] at atU
    cases atU
    obtain ⟨resolved, isBases⟩ := aliasBase (keeps.kind ▸ isAlias)
    rw [(keeps.base fun _ => resolved).1] at substituted'
    rw [isBases] at basesIn
    exact (basesIn.single (grows.trans (all.grows.trans grows')) good' room' holds' substituted').1

theorem Substitutes.rebuilt {c₀ : TypeTable} {id base : TypeId} {n : Nat} (partsIn : Substitutes c₀ [base] n)
    {depth : Nat} {paramTypes argTypes : List TypeId} {errStart errEnd : Nat} {made : TypeId × TypeTable}
    (grows : Grows c₀ c) (good : Good working c) (room : Room c n) (argHolds : ∀ arg ∈ argTypes, c.Holds arg)
    (holds : c.Holds id) {intern : TypeTable → TypeId → TypeId × TypeTable}
    (interns : ∀ {c' : TypeTable} {b : TypeId}, Good working c' → c'.Holds b → Makes working c' 1 (intern c' b))
    (result : (substituteType depth c base paramTypes argTypes errStart errEnd).map
      (TypeTable.rebuilt id base intern) = some made) : Makes working c (n + 1) made := by
  obtain ⟨part, substituted, rfl⟩ := Option.map_eq_some_iff.mp result
  obtain ⟨makes, partHolds⟩ := partsIn.single grows good room argHolds substituted
  exact rebuilt_makes holds makes partHolds interns

/-- A substitution in the elements of a tuple or pack. -/
theorem Substitutes.elems {c₀ : TypeTable} {id : TypeId} {elems : List TypeId} {n : Nat}
    (partsIn : Substitutes c₀ elems n) {depth : Nat} {paramTypes argTypes : List TypeId} {errStart errEnd : Nat}
    {made : TypeId × TypeTable} (grows : Grows c₀ c) (good : Good working c) (room : Room c n)
    (argHolds : ∀ arg ∈ argTypes, c.Holds arg) (holds : c.Holds id)
    (intern : TypeTable → List TypeId → TypeId × TypeTable)
    (interns : ∀ {c' : TypeTable} {elems' : List TypeId}, Good working c' → (∀ p ∈ elems', c'.Holds p) →
      elems'.length = elems.length → Makes working c' (elems'.length + 1) (intern c' elems'))
    (result : (substituteAll (substituteType depth) paramTypes argTypes errStart errEnd c elems).map
      (fun r => if r.1 = elems then (id, r.2) else intern r.2 r.1) = some made) :
    Makes working c (n + (elems.length + 1)) made := by
  obtain ⟨part, substituted, rfl⟩ := Option.map_eq_some_iff.mp result
  have all := partsIn grows good room argHolds substituted
  refine all.rebuilt holds ?_
  intro good' holds'
  rw [← all.length]
  exact interns good' holds' all.length

theorem zipWith_params {elems : List TypeId} {params : List FuncParam} (length : elems.length = params.length) :
    (List.zipWith (fun elem param => (⟨elem, param.isConst⟩ : FuncParam)) elems params).length = params.length ∧
      ∀ p ∈ List.zipWith (fun elem param => (⟨elem, param.isConst⟩ : FuncParam)) elems params, p.typeId ∈ elems := by
  constructor
  · rw [List.length_zipWith, length, Nat.min_self]
  · intro p member
    obtain ⟨i, below, rfl⟩ := List.mem_iff_getElem.mp member
    rw [List.getElem_zipWith]
    exact List.getElem_mem _

/-- A substitution in one type, where it can go through the parts. -/
theorem substituteType_makes {c₀ : TypeTable} {id : TypeId} {parts bases : List TypeId} {n m : Nat}
    {started : List Nat} (good₀ : Good started c₀) (into : c₀.substParts id = some (parts, bases))
    (partsIn : Substitutes c₀ parts n) (basesIn : Substitutes c₀ bases m) {depth : Nat}
    {paramTypes argTypes : List TypeId} {errStart errEnd : Nat} {made : TypeId × TypeTable} (grows : Grows c₀ c)
    (good : Good working c) (room : Room c (parts.length + 1 + n + m)) (argHolds : ∀ arg ∈ argTypes, c.Holds arg)
    (result : substituteType depth c id paramTypes argTypes errStart errEnd = some made) :
    Makes working c (parts.length + 1 + n + m) made := by
  cases depth with
  | zero => cases result
  | succ depth =>
    have into' := grows.substParts good₀ into
    cases atId₀ : c₀.entry id with
    | none =>
      simp only [substParts, atId₀] at into
      cases into
    | some t₀ =>
    have holds₀ := holds_of_entry atId₀
    have holds := grows.holds holds₀
    obtain ⟨t, atId, keeps⟩ := grows.entry atId₀
    have inTable : t ∈ c.types := by
      obtain ⟨i, rfl, atI⟩ := Option.bind_eq_some_iff.mp atId
      exact List.mem_of_getElem? atI
    have closed := good.types.closed t inTable
    simp only [substituteType, atId] at result
    split at result
    · cases result
      exact .same good holds _
    have within : Room c n := room.mono (by omega)
    have unary : ∀ {intern : TypeTable → TypeId → TypeId × TypeTable}, parts = [t.baseType] →
        (∀ {c' : TypeTable} {b : TypeId}, Good working c' → c'.Holds b → Makes working c' 1 (intern c' b)) →
        (substituteType depth c t.baseType paramTypes argTypes errStart errEnd).map
          (rebuilt id t.baseType intern) = some made → Makes working c (parts.length + 1 + n + m) made := by
      intro intern isParts interns result
      rw [isParts] at partsIn
      exact (partsIn.rebuilt grows good within argHolds holds interns result).mono (by omega)
    have declared : c₀.namedParts id = some (parts, bases) →
        substituteNamed (substituteType depth) c id paramTypes argTypes errStart errEnd = some made →
        Makes working c (parts.length + 1 + n + m) made := fun named result =>
      substituteNamed_makes good₀ holds₀ named partsIn basesIn grows good room argHolds result
    simp only [substParts, atId] at into'
    simp only [substParts, atId₀] at into
    have kind₀ := keeps.kind
    cases kind : t.kind <;> rw [kind] at kind₀ <;> simp only [kind, ← kind₀] at result into' into
    case PTR =>
      cases into'
      exact unary rfl (fun good holds => internPtrType_makes good holds _ _) result
    case REF =>
      cases into'
      exact unary rfl (fun good holds => internRefType_makes good holds _ _ _) result
    case ARRAY =>
      cases into'
      exact unary rfl (fun good holds => internArrayType_makes good holds _ _ _) result
    case SLICE =>
      cases into'
      exact unary rfl (fun good holds => internSliceType_makes good holds _ _ _) result
    case OPTIONAL =>
      cases into'
      exact unary rfl (fun good holds => internOptionalType_makes good holds _ _) result
    case NAMED | ALIAS => exact declared into result
    case TYPE_PARAM =>
      cases result
      refine ⟨good, .refl c, .refl c _, fun _ => ?_⟩
      rcases lookupSubstitutedType_mem paramTypes argTypes id with same | isArg
      · rw [same]
        exact holds
      · exact argHolds _ isArg
    case TUPLE =>
      split at into'
      · cases into'
      rename_i few
      rw [if_neg few] at result
      cases into'
      have count := closed.inRange.components_length (.inr (.inl kind))
      have two := closed.inRange.tuple kind
      simp only [if_true] at result
      refine (partsIn.elems grows good within argHolds holds (fun c elems => c.internTupleType elems errStart errEnd)
        ?_ result).mono (by omega)
      intro c' elems' good' holds' length
      rw [List.length_map, count] at length
      exact internTupleType_makes good' holds' (by omega) _ _
    case PACK =>
      split at into'
      · cases into'
      rename_i few
      rw [if_neg few] at result
      cases into'
      have count := closed.inRange.components_length (.inr (.inr kind))
      simp only [reduceCtorEq, if_false] at result
      refine (partsIn.elems grows good within argHolds holds (fun c elems => c.internPackType elems errStart errEnd)
        ?_ result).mono (by omega)
      intro c' elems' good' holds' length
      rw [List.length_map, count] at length
      exact internPackType_makes good' holds' (by omega) _ _
    case FUNCTION =>
      split at into'
      · cases into'
      rename_i few
      rw [if_neg few] at result
      cases into'
      have count := closed.inRange.components_length (.inl kind)
      obtain ⟨part, substituted, rfl⟩ := Option.map_eq_some_iff.mp result
      have all := partsIn grows good within argHolds substituted
      obtain ⟨types, c'⟩ := part
      cases types with
      | nil => exact absurd all.length (by simp)
      | cons returnType paramTypes' =>
        have length : paramTypes'.length = (c.componentsOf t).length := by simpa using all.length
        obtain ⟨zipped, members⟩ := zipWith_params length
        simp only
        refine (all.rebuilt (m := (c.componentsOf t).length + 1) holds ?_).mono (by simp; omega)
        intro good' holds'
        have made := internFunctionType_makes good' (holds' returnType List.mem_cons_self)
          (fun p member => holds' p.typeId (List.mem_cons_of_mem _ (members p member))) (by omega)
          t.flags.functionVariadic ((c'.entry id).bind TCType.funcIndex) errStart errEnd
        rw [zipped] at made
        exact made
    all_goals
      cases result
      exact .same good holds _

/-- Types a table admits are substituted in without failure, whatever the table has grown to and however deep the
recursion goes. -/
theorem Admits.substitutes {c₀ : TypeTable} {started : List Nat} (good₀ : Good started c₀) {ids : List TypeId}
    {n : Nat} (admits : c₀.Admits ids n) : Substitutes c₀ ids n := by
  induction admits with
  | nil =>
    intro c working depth paramTypes argTypes errStart errEnd made _ good _ _ result
    cases result
    exact ⟨good, .refl c, .refl c 0, rfl, fun id member => by cases member⟩
  | @cons id rest parts bases n m k into _ _ _ partsIn basesIn restIn =>
    intro c working depth paramTypes argTypes errStart errEnd made grows good room argHolds result
    simp only [substituteAll] at result
    split at result
    · cases result
    · rename_i elem c' substituted
      have within : Room c (parts.length + 1 + n + m) := room.mono (by omega)
      have makes := substituteType_makes good₀ into partsIn basesIn grows good within argHolds substituted
      have elemHolds := makes.holds within
      obtain ⟨others, substitutedRest, rfl⟩ := Option.map_eq_some_iff.mp result
      have rests := restIn (grows.trans makes.grows) makes.good (room.after makes.spent makes.grows)
        (fun arg member => makes.grows.holds (argHolds arg member)) substitutedRest
      refine ⟨rests.good, makes.grows.trans rests.grows, makes.spent.trans rests.spent, ?_, ?_⟩
      · rw [List.length_cons, List.length_cons, rests.length]
      · intro other member
        rcases List.mem_cons.mp member with rfl | inRest
        · exact rests.grows.holds elemHolds
        · exact rests.holds other inRest

end HopHop.TypeTable
