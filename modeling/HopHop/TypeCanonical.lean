import HopHop.TypeSubstRun

namespace HopHop.TypeTable

open Interning

/-- The part of `H2TCResolveAliasTypeId` after the declaration's target has come to a type. An alias among the targets
has been resolved before. -/
def resolveAliasTo (c : TypeTable) (typeId : Nat) (targetType : TypeId) : TypeTable :=
  match c.types[typeId]? with
  | none => (c.failSpan .UNKNOWN_TYPE 0 0).2
  | some t =>
    if t.kind ≠ .ALIAS ∨ t.flags.aliasResolved then c
    else
      match c.entry targetType with
      | none => (c.failNode (c.ast.node t.declNode) .TYPE_MISMATCH).2
      | some target =>
        if targetType = some typeId then (c.failNode (c.ast.node t.declNode) .TYPE_MISMATCH).2
        else if target.kind = .ALIAS ∧ ¬target.flags.aliasResolved then c
        else { c with types := c.types.modify typeId (TCType.resolvedTo · targetType) }

/-- The operations on the table. -/
inductive TypeOp
  | ptr (baseType : TypeId)
  | ref (baseType : TypeId) (isMutable : Bool)
  | array (baseType : TypeId) (arrayLen : UInt32)
  | slice (baseType : TypeId) (isMutable : Bool)
  | optional (baseType : TypeId)
  | anonAggregate (isUnion : Bool) (fields : List AnonFieldSig) (declNode : Int)
  | function (returnType : TypeId) (params : List FuncParam) (isVariadic : Bool) (funcIndex : Option Nat)
  | tuple (elemTypes : List TypeId)
  | pack (elemTypes : List TypeId)
  | declare (nodeId : Int) (node : AstNode) (typeParams : List AstNode) (ownerTypeId : TypeId)
  | resolveAlias (typeId : Nat) (targetType : TypeId)
  | substitute (typeId : TypeId) (paramTypes argTypes : List TypeId)
  | instantiate (rootTypeId : Nat) (argTypes : List TypeId)

/-- The table an operation leaves, whether it fails or not; `none` when the recursion needs more depth. -/
def TypeOp.run (depth errStart errEnd : Nat) (c : TypeTable) : TypeOp → Option TypeTable
  | ptr baseType => some (c.internPtrType baseType errStart errEnd).2
  | ref baseType isMutable => some (c.internRefType baseType isMutable errStart errEnd).2
  | array baseType arrayLen => some (c.internArrayType baseType arrayLen errStart errEnd).2
  | slice baseType isMutable => some (c.internSliceType baseType isMutable errStart errEnd).2
  | optional baseType => some (c.internOptionalType baseType errStart errEnd).2
  | anonAggregate isUnion fields declNode =>
    some (c.internAnonAggregateType isUnion fields declNode errStart errEnd).2
  | function returnType params isVariadic funcIndex =>
    some (c.internFunctionType returnType params isVariadic funcIndex errStart errEnd).2
  | tuple elemTypes => some (c.internTupleType elemTypes errStart errEnd).2
  | pack elemTypes => some (c.internPackType elemTypes errStart errEnd).2
  | declare nodeId node typeParams ownerTypeId => some (c.addNamedType nodeId node typeParams ownerTypeId).2
  | resolveAlias typeId targetType => some (c.resolveAliasTo typeId targetType)
  | substitute typeId paramTypes argTypes =>
    (substituteType depth c typeId paramTypes argTypes errStart errEnd).map Prod.snd
  | instantiate rootTypeId argTypes => (instantiateNamedType depth c rootTypeId argTypes).map Prod.snd

/-- The table goes from `c` to `c'` by operations for which `ok` holds where they start. -/
def Reaches (ok : TypeTable → TypeOp → Prop) : TypeTable → TypeTable → Prop :=
  Relation.ReflTransGen fun c c' => ∃ op, ok c op ∧ ∃ depth errStart errEnd, op.run depth errStart errEnd c = some c'

/-- Type equality is equality of ids, each generic declaration has one instance for each list of arguments, and
nothing is missing in an entry. -/
structure Canonical (c : TypeTable) : Prop where
  structural : ∀ i j si sj, c.shape (some i) = some si → c.shape (some j) = some sj → (i = j ↔ si = sj)
  parts : ∀ id s, c.shape id = some s → ∀ p ∈ s.parts, c.Holds p
  oneInstance : ∀ (i j : Nat) (a b : NamedType), c.namedTypes[i]? = some a → c.namedTypes[j]? = some b →
    0 ≤ a.templateRootNamedIndex → a.templateRootNamedIndex = b.templateRootNamedIndex →
    c.templateArgs a = c.templateArgs b → i = j
  complete : ∀ nt ∈ c.namedTypes, 0 ≤ nt.templateRootNamedIndex → (∀ arg ∈ c.templateArgs nt, c.Holds arg) ∧
    ∃ t, c.types[nt.typeId]? = some t ∧ (t.kind = .ALIAS → t.flags.aliasResolved = true ∧ c.Holds t.baseType)

section

variable (c : TypeTable)

/-- A substitution refuses the type at once: it has too many components or arguments. -/
def Refused (id : TypeId) : Prop :=
  ∃ t, c.entry id = some t ∧
    ((t.kind = .TUPLE ∨ t.kind = .PACK ∨ t.kind = .FUNCTION) ∧ 256 < t.fieldCount ∨
      (t.kind = .NAMED ∨ t.kind = .ALIAS) ∧ ∃ nt, c.namedTypes.find? (fun nt => some nt.typeId = id) = some nt ∧
        ¬(nt.templateRootNamedIndex < 0 ∧ nt.templateArgCount = 0) ∧ 64 < nt.templateArgCount)

/-- A new instance can be made: 16 bits hold the index of the declaration, and an alias has a base that the arguments
can be substituted in, with room for what that adds. -/
def Instantiable (rootNamedIndex : Nat) (rootNt : NamedType) (argTypes : List TypeId) : Prop :=
  rootNamedIndex < 2 ^ 15 ∧ (∀ arg ∈ argTypes, c.Holds arg) ∧
    ∀ rootType, c.types[rootNt.typeId]? = some rootType → rootType.kind = .ALIAS →
      rootType.flags.aliasResolved = true ∧
        ∃ n, c.Admits [rootType.baseType] n ∧ c.Room (argTypes.length + 1 + n)

/-- The condition on an operation: components are types of the table; a substitution refuses its type at once or can
go through all of it, with room for what it adds; an instance that has to be made can be. -/
def Sound : TypeOp → Prop
  | .ptr baseType | .ref baseType _ | .array baseType _ | .slice baseType _ | .optional baseType => c.Holds baseType
  | .anonAggregate _ fields _ => ∀ f ∈ fields, c.Holds f.typeId
  | .function returnType params _ _ => c.Holds returnType ∧ ∀ p ∈ params, c.Holds p.typeId
  | .tuple elemTypes | .pack elemTypes => ∀ elem ∈ elemTypes, c.Holds elem
  | .declare .. | .resolveAlias .. => True
  | .substitute typeId _ argTypes =>
    argTypes = [] ∨ ¬c.Holds typeId ∨ c.Refused typeId ∨
      (∀ arg ∈ argTypes, c.Holds arg) ∧ ∃ n, c.Admits [typeId] n ∧ c.Room n
  | .instantiate rootTypeId argTypes =>
    ∀ namedIndex rootNt, c.namedTypes.findIdx? (·.typeId = rootTypeId) = some namedIndex →
      c.namedTypes[c.rootNamedIndex namedIndex]? = some rootNt → rootNt.templateArgCount = argTypes.length →
        argTypes = [] ∨ (c.namedTypes.find? (c.isInstance (c.rootNamedIndex namedIndex) argTypes)).isSome ∨
          c.Instantiable (c.rootNamedIndex namedIndex) rootNt argTypes

end

variable {c : TypeTable}

theorem Good.canonical (good : Good [] c) : c.Canonical where
  structural := by
    intro i j si sj shapeI shapeJ
    have atKey : ∀ {k : Nat} {s : TypeShape TypeId}, c.shape (some k) = some s → c.shapes[k]? = some (some s) := by
      intro k s isShape
      obtain ⟨t, atK, ofT⟩ := Option.bind_eq_some_iff.mp isShape
      have entry : c.types[k]? = some t := atK
      simp only [shapes, List.getElem?_map, entry, Option.map_some, ofT]
    constructor
    · intro same
      rw [← same, shapeI] at shapeJ
      exact Option.some.inj shapeJ
    · intro same
      exact good.types.distinct i j si (atKey shapeI) (atKey (same ▸ shapeJ))
  parts := by
    intro id s isShape p member
    obtain ⟨t, atId, ofT⟩ := Option.bind_eq_some_iff.mp isShape
    obtain ⟨i, rfl, atI⟩ := Option.bind_eq_some_iff.mp atId
    exact (good.types.closed t (List.mem_of_getElem? atI)).parts s ofT p member
  oneInstance := by
    intro i j a b atI atJ isInstance sameRoot sameArgs
    have keyA : c.instanceKeys[i]? = some (c.instanceKey a) := by simp [instanceKeys, atI]
    have keyB : c.instanceKeys[j]? = some (c.instanceKey b) := by simp [instanceKeys, atJ]
    have sameKey : c.instanceKey b = c.instanceKey a := by simp only [instanceKey, sameRoot, sameArgs]
    have isKey : c.instanceKey a = some (a.templateRootNamedIndex.toInt, c.templateArgs a) := by
      simp only [instanceKey, isInstance, if_true]
    exact good.names.instances i j _ (isKey ▸ keyA) (isKey ▸ sameKey ▸ keyB)
  complete := by
    intro nt member isInstance
    constructor
    · intro arg inArgs
      exact good.names.args arg (List.mem_of_mem_drop (List.mem_of_mem_take inArgs))
    · obtain ⟨t, atNt, -⟩ := good.names.entries nt member
      refine ⟨t, atNt, fun isAlias => ?_⟩
      have resolved := good.names.resolved nt member isInstance List.not_mem_nil t atNt isAlias
      exact ⟨resolved, (good.types.closed t (List.mem_of_getElem? atNt)).base isAlias resolved⟩

theorem Good.substitute (good : Good [] c) {typeId : TypeId} {paramTypes argTypes : List TypeId}
    (sound : c.Sound (.substitute typeId paramTypes argTypes)) {depth errStart errEnd : Nat}
    {made : TypeId × TypeTable}
    (result : substituteType depth c typeId paramTypes argTypes errStart errEnd = some made) : Good [] made.2 := by
  rcases sound with isEmpty | absent | ⟨t, atId, tooMany⟩ | ⟨holds, n, admits, room⟩
  · cases depth with
    | zero => cases result
    | succ depth =>
      simp only [substituteType, isEmpty, List.length_nil, if_true] at result
      split at result <;> cases result <;> exact good
  · cases depth with
    | zero => cases result
    | succ depth =>
      have missing : c.entry typeId = none := by
        cases atId : c.entry typeId with
        | none => rfl
        | some t => exact absurd (holds_of_entry atId) absent
      simp only [substituteType, missing] at result
      cases result
      exact good
  · cases depth with
    | zero => cases result
    | succ depth =>
      simp only [substituteType, atId] at result
      split at result
      · cases result
        exact good
      rcases tooMany with ⟨kind | kind | kind, many⟩ | ⟨kind | kind, nt, found, notPlain, many⟩
      · simp only [kind, many, if_true] at result
        cases result
        exact good
      · simp only [kind, many, if_true] at result
        cases result
        exact good
      · simp only [kind, many, if_true] at result
        cases result
        exact good
      · simp only [kind, substituteNamed, found, many, if_true] at result
        rw [if_neg notPlain] at result
        cases result
        exact good
      · simp only [kind, substituteNamed, found, many, if_true] at result
        rw [if_neg notPlain] at result
        cases result
        exact good
  · have substitutes : Substitutes c [typeId] n := admits.substitutes good
    exact (substitutes.single (.refl c) good room holds result).1.good

/-- The declaration an instance goes back to is no instance. -/
theorem Good.root_isDecl (good : Good [] c) {namedIndex : Nat} (inTable : namedIndex < c.namedTypes.length)
    {rootNt : NamedType} (atRoot : c.namedTypes[c.rootNamedIndex namedIndex]? = some rootNt) :
    rootNt.templateRootNamedIndex < 0 := by
  have atIndex := List.getElem?_eq_getElem inTable
  generalize c.namedTypes[namedIndex] = nt at atIndex
  simp only [rootNamedIndex, atIndex] at atRoot
  by_cases isInstance : 0 ≤ nt.templateRootNamedIndex
  · rw [if_pos isInstance] at atRoot
    obtain ⟨root, atRoot', isDecl, -⟩ := good.names.rooted nt (List.mem_of_getElem? atIndex) isInstance
    rw [atRoot] at atRoot'
    cases atRoot'
    exact isDecl
  · rw [if_neg isInstance, atIndex] at atRoot
    cases atRoot
    exact Int16.not_le.mp isInstance

theorem Good.instantiate (good : Good [] c) {rootTypeId : Nat} {argTypes : List TypeId}
    (sound : c.Sound (.instantiate rootTypeId argTypes)) {depth : Nat} {made : TypeId × TypeTable}
    (result : instantiateNamedType depth c rootTypeId argTypes = some made) : Good [] made.2 := by
  simp only [instantiateNamedType, instantiateWith] at result
  split at result
  · cases result
    exact good
  rename_i namedIndex found
  split at result
  · cases result
    exact good
  rename_i rootNt atRoot
  split at result
  · cases result
    exact good
  rename_i arity
  simp only [ne_eq, not_not] at arity
  split at result
  · cases result
    exact good
  rename_i notEmpty
  split at result
  · cases result
    exact good
  rename_i missed
  split at result
  · cases result
    exact good
  rename_i rootType atType
  rcases sound namedIndex rootNt found atRoot arity with isEmpty | known | ⟨index, holds, aliasBase⟩
  · exact absurd (by rw [isEmpty]; rfl) notEmpty
  · rw [missed] at known
    cases known
  · have isDecl := good.root_isDecl (List.findIdx?_eq_some_iff_findIdx_eq.mp found).1 atRoot
    have root : RootOf c (c.rootNamedIndex namedIndex) rootNt rootType argTypes :=
      ⟨atRoot, isDecl, index, atType, arity, by omega⟩
    by_cases isAlias : rootType.kind = .ALIAS
    · obtain ⟨-, n, admits, room⟩ := aliasBase rootType atType isAlias
      have substitutes : Substitutes c [rootType.baseType] n := admits.substitutes good
      refine (newInstance_alias good root holds missed isAlias room ?_ result).good
      intro working' c' made' good' grows room' holds' substituted
      exact (substitutes.single grows good' room' holds' substituted).1
    · exact (newInstance_named good root holds missed isAlias result).good

theorem Good.resolveAlias (good : Good [] c) (typeId : Nat) (targetType : TypeId) :
    Good [] (c.resolveAliasTo typeId targetType) := by
  unfold resolveAliasTo
  split
  · exact good.failSpan _ _ _
  rename_i t atId
  split
  · exact good
  rename_i unresolved
  simp only [ne_eq, not_or, not_not, Bool.not_eq_true] at unresolved
  obtain ⟨isAlias, open'⟩ := unresolved
  split
  · exact good.failSpan _ _ _
  rename_i target atTarget
  split
  · exact good.failSpan _ _ _
  split
  · exact good
  have waiting : Good [typeId] c :=
    { good with
      names := { good.names with
        resolved := fun nt member isInstance _ => good.names.resolved nt member isInstance List.not_mem_nil }
      waiting := by
        intro id member
        rw [List.mem_singleton.mp member]
        exact ⟨t, atId, open'⟩ }
  exact (waiting.fill List.not_mem_nil atId isAlias (holds_of_entry atTarget)).1

theorem Good.tuple (good : Good [] c) {elemTypes : List TypeId} (holds : ∀ elem ∈ elemTypes, c.Holds elem)
    (errStart errEnd : Nat) : Good [] (c.internTupleType elemTypes errStart errEnd).2 := by
  by_cases length : 2 ≤ elemTypes.length ∧ elemTypes.length ≤ 0xFFFF
  · exact (internTupleType_makes good holds length errStart errEnd).good
  · unfold internTupleType
    rw [if_pos (by omega)]
    exact good.failSpan _ _ _

theorem Good.pack (good : Good [] c) {elemTypes : List TypeId} (holds : ∀ elem ∈ elemTypes, c.Holds elem)
    (errStart errEnd : Nat) : Good [] (c.internPackType elemTypes errStart errEnd).2 := by
  by_cases length : elemTypes.length ≤ 0xFFFF
  · exact (internPackType_makes good holds length errStart errEnd).good
  · unfold internPackType
    split
    · exact good
    · rw [if_pos (by omega)]
      exact good.failSpan _ _ _

theorem Good.function (good : Good [] c) {returnType : TypeId} {params : List FuncParam} (result : c.Holds returnType)
    (holds : ∀ p ∈ params, c.Holds p.typeId) (isVariadic : Bool) (funcIndex : Option Nat) (errStart errEnd : Nat) :
    Good [] (c.internFunctionType returnType params isVariadic funcIndex errStart errEnd).2 := by
  by_cases length : params.length ≤ 0xFFFF
  · exact (internFunctionType_makes good result holds length isVariadic funcIndex errStart errEnd).good
  · unfold internFunctionType
    rw [if_pos (by omega)]
    exact good.failSpan _ _ _

/-- A sound operation keeps the table good. -/
theorem Good.step {c' : TypeTable} (good : Good [] c) {op : TypeOp} (sound : c.Sound op) {depth errStart errEnd : Nat}
    (run : op.run depth errStart errEnd c = some c') : Good [] c' := by
  cases op with
  | ptr baseType =>
    cases run
    exact (internPtrType_makes good sound errStart errEnd).good
  | ref baseType isMutable =>
    cases run
    exact (internRefType_makes good sound isMutable errStart errEnd).good
  | array baseType arrayLen =>
    cases run
    exact (internArrayType_makes good sound arrayLen errStart errEnd).good
  | slice baseType isMutable =>
    cases run
    exact (internSliceType_makes good sound isMutable errStart errEnd).good
  | optional baseType =>
    cases run
    exact (internOptionalType_makes good sound errStart errEnd).good
  | anonAggregate isUnion fields declNode =>
    cases run
    exact internAnonAggregateType_good good isUnion sound declNode errStart errEnd
  | function returnType params isVariadic funcIndex =>
    cases run
    exact good.function sound.1 sound.2 isVariadic funcIndex errStart errEnd
  | tuple elemTypes =>
    cases run
    exact good.tuple sound errStart errEnd
  | pack elemTypes =>
    cases run
    exact good.pack sound errStart errEnd
  | declare nodeId node typeParams ownerTypeId =>
    cases run
    exact addNamedType_good good nodeId node typeParams ownerTypeId
  | resolveAlias typeId targetType =>
    cases run
    exact good.resolveAlias typeId targetType
  | substitute typeId paramTypes argTypes =>
    obtain ⟨made, result, rfl⟩ := Option.map_eq_some_iff.mp run
    exact good.substitute sound result
  | instantiate rootTypeId argTypes =>
    obtain ⟨made, result, rfl⟩ := Option.map_eq_some_iff.mp run
    exact good.instantiate sound result

/-- The entries that stand in every table from the start are no structural types. -/
theorem good_initial (src : List UInt8) (ast : Ast) (capBase : Nat) : Good [] (initial src ast capBase) where
  types := by
    have plain : ∀ t ∈ (initial src ast capBase).types, t.kind ∈ [.BUILTIN, .ALIAS, .ANYTYPE, .UNTYPED_INT,
        .UNTYPED_FLOAT, .NULL] ∧ (t.kind = .ALIAS → t.baseType = some 5) := by
      change ∀ t ∈ (initial [] ⟨[], -1⟩ 0).types, _
      decide
    have noShape : ∀ t ∈ (initial src ast capBase).types, (initial src ast capBase).shapeOf t = none := by
      intro t member
      obtain ⟨kinds, -⟩ := plain t member
      cases kind : t.kind <;> simp [kind] at kinds <;> simp [shapeOf, kind]
    constructor
    · intro t member
      obtain ⟨kinds, base⟩ := plain t member
      refine ⟨?_, ?_, ?_⟩
      · constructor
        · rintro (kind | kind | kind) <;> simp [kind] at kinds
        · rintro (kind | kind) <;> simp [kind] at kinds
        · intro kind
          simp [kind] at kinds
      · intro s shape
        rw [noShape t member] at shape
        cases shape
      · intro isAlias _
        rw [base isAlias]
        exact ⟨5, show 5 < (initial [] ⟨[], -1⟩ 0).types.length by decide, rfl⟩
    · intro i j s atI
      obtain ⟨t, member, shape⟩ := List.mem_map.mp (List.mem_of_getElem? atI)
      rw [noShape t member] at shape
      cases shape
  names := {
    entries := fun nt member => by cases member
    once := List.Pairwise.nil
    args := fun arg member => by cases member
    argRange := fun nt member => by cases member
    rooted := fun nt member => by cases member
    instances := fun i j k atI => by cases atI
    resolved := fun nt member => by cases member }
  waiting := fun id member => by cases member

/-- A declaration of the name at a range of the source. -/
def declNode (kind : AstKind) (start stop : Nat) : AstNode :=
  { AstNode.fresh kind start stop with dataStart := start, dataEnd := stop }

/-- The table after the generic alias `A[T]` has been declared and `A[i32]` asked for. -/
def pendingAlias : TypeTable :=
  let declared := ((initial (bytesOf "A") ⟨[], -1⟩ 32).addNamedType 0 (declNode .TYPE_ALIAS 0 1)
    [declNode .TYPE_PARAM 1 2] none).2
  ((instantiateNamedType 2 declared 22 [some 9]).map Prod.snd).getD declared

/-- The table after the generic struct `A[T]` has been declared and `*A[i32]` made. -/
def pointerToInstance : TypeTable :=
  let declared := ((initial (bytesOf "A") ⟨[], -1⟩ 32).addNamedType 0 (declNode .STRUCT 0 1)
    [declNode .TYPE_PARAM 1 2] none).2
  let made := ((instantiateNamedType 1 declared 22 [some 9]).map Prod.snd).getD declared
  (made.internPtrType (some 24) 0 0).2

end HopHop.TypeTable
