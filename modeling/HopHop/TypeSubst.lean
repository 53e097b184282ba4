import HopHop.TypeIntern

namespace HopHop.TypeTable

/-- The argument that stands for a type parameter; a parameter that is none of the list stays as it is. -/
def lookupSubstitutedType (paramTypes argTypes : List TypeId) (typeId : TypeId) : TypeId :=
  (((paramTypes.zip argTypes).find? (·.1 = typeId)).map Prod.snd).getD typeId

/-- What a substitution does to a type, with the range a diagnostic would point at: the type it gives and the table
it leaves. -/
abbrev Subst := TypeTable → TypeId → List TypeId → List TypeId → Nat → Nat → Option (TypeId × TypeTable)

/-- Substitutes in a list of types from left to right, over the table as it grows. -/
def substituteAll (subst : Subst) (paramTypes argTypes : List TypeId) (errStart errEnd : Nat) :
    TypeTable → List TypeId → Option (List TypeId × TypeTable)
  | c, [] => some ([], c)
  | c, typeId :: rest =>
    match subst c typeId paramTypes argTypes errStart errEnd with
    | none => none
    | some (elem, c) =>
      (substituteAll subst paramTypes argTypes errStart errEnd c rest).map fun r => (elem :: r.1, r.2)

/-- The generic arguments of a declaration or an instance. -/
def templateArgs (c : TypeTable) (nt : NamedType) : List TypeId :=
  (c.genericArgTypes.drop nt.templateArgStart).take nt.templateArgCount

/-- The entry belongs to the instance of the root with these arguments. -/
def isInstance (c : TypeTable) (rootNamedIndex : Nat) (argTypes : List TypeId) (nt : NamedType) : Bool :=
  nt.templateRootNamedIndex.toInt = rootNamedIndex ∧ nt.templateArgCount = argTypes.length
    ∧ c.templateArgs nt = argTypes

/-- The declaration a named entry goes back to: its root, for an instance. -/
def rootNamedIndex (c : TypeTable) (namedIndex : Nat) : Nat :=
  match c.namedTypes[namedIndex]? with
  | some nt => if 0 ≤ nt.templateRootNamedIndex then nt.templateRootNamedIndex.toNatClampNeg else namedIndex
  | none => namedIndex

/-- The entry of a new instance: that of the root with nothing filled in yet. -/
def instanceType (rootType : TCType) : TCType :=
  { rootType with
    fieldStart := 0
    fieldCount := 0
    flags := { rootType.flags with aliasResolving := false, aliasResolved := false } }

def instanceName (c : TypeTable) (rootNamedIndex : Nat) (rootNt : NamedType) (rootType : TCType)
    (argTypes : List TypeId) : NamedType where
  nameStart := rootType.nameStart
  nameEnd := rootType.nameEnd
  typeId := c.types.length
  declNode := rootType.declNode
  ownerTypeId := rootNt.ownerTypeId
  templateArgStart := c.genericArgTypes.length
  templateArgCount := argTypes.length
  templateRootNamedIndex := Int16.ofNat rootNamedIndex

/-- Registers a new instance, its base not yet filled in. There is room for it. -/
def addInstance (c : TypeTable) (rootNamedIndex : Nat) (rootNt : NamedType) (rootType : TCType)
    (argTypes : List TypeId) : TypeTable :=
  { c with
    types := c.types ++ [instanceType rootType]
    namedTypes := c.namedTypes ++ [c.instanceName rootNamedIndex rootNt rootType argTypes]
    genericArgTypes := c.genericArgTypes ++ argTypes }

/-- The alias comes to stand for its base. -/
def TCType.resolvedTo (t : TCType) (baseType : TypeId) : TCType :=
  { t with baseType, flags := { t.flags with aliasResolved := true } }

/-- The new instance of a root that has none with these arguments. -/
def newInstance (subst : Subst) (c : TypeTable) (rootNamedIndex : Nat) (rootNt : NamedType) (rootType : TCType)
    (argTypes : List TypeId) : Option (TypeId × TypeTable) :=
  if c.typeCap ≤ c.types.length ∨ c.namedTypeCap ≤ c.namedTypes.length
      ∨ c.genericArgCap < c.genericArgTypes.length + argTypes.length then
    some (c.failSpan .ARENA_OOM 0 0)
  else
    let typeId := c.types.length
    let c' := c.addInstance rootNamedIndex rootNt rootType argTypes
    if rootType.kind = .ALIAS then
      match subst c' rootType.baseType (c.templateArgs rootNt) argTypes rootType.nameStart rootType.nameEnd with
      | none => none
      | some (none, c') => some (none, c')
      | some (some base, c') =>
        some (some typeId, { c' with types := c'.types.modify typeId (TCType.resolvedTo · (some base)) })
    else some (some typeId, c')

/-- `H2TCInstantiateNamedType`, over the substitution it calls for the base of an alias. -/
def instantiateWith (subst : Subst) (c : TypeTable) (rootTypeId : Nat) (argTypes : List TypeId) :
    Option (TypeId × TypeTable) :=
  match c.namedTypes.findIdx? (·.typeId = rootTypeId) with
  | none => some (none, c)
  | some namedIndex =>
    let rootNamedIndex := c.rootNamedIndex namedIndex
    match c.namedTypes[rootNamedIndex]? with
    | none => some (none, c)
    | some rootNt =>
      if rootNt.templateArgCount ≠ argTypes.length then some (none, c)
      else if argTypes.length = 0 then some (some rootNt.typeId, c)
      else
        match c.namedTypes.find? (c.isInstance rootNamedIndex argTypes) with
        | some nt => some (some nt.typeId, c)
        | none =>
          match c.types[rootNt.typeId]? with
          | none => some (none, c)
          | some rootType => newInstance subst c rootNamedIndex rootNt rootType argTypes

/-- A type built on one component: it stays when the component does. -/
def rebuilt (typeId : TypeId) (baseType : TypeId) (intern : TypeTable → TypeId → TypeId × TypeTable) :
    TypeId × TypeTable → TypeId × TypeTable
  | (base, c) => if base = baseType then (typeId, c) else intern c base

/-- A declared type or an instance: an instance of other arguments when they change. -/
def substituteNamed (subst : Subst) (c : TypeTable) (typeId : TypeId) (paramTypes argTypes : List TypeId)
    (errStart errEnd : Nat) : Option (TypeId × TypeTable) :=
  match c.namedTypes.find? (fun nt => some nt.typeId = typeId) with
  | none => some (typeId, c)
  | some nt =>
    if nt.templateRootNamedIndex < 0 ∧ nt.templateArgCount = 0 then some (typeId, c)
    else if 64 < nt.templateArgCount then some (none, c)
    else
      match substituteAll subst paramTypes argTypes errStart errEnd c (c.templateArgs nt) with
      | none => none
      | some (args, c') =>
        if nt.templateRootNamedIndex < 0 ∨ args = c.templateArgs nt then some (typeId, c')
        else
          match c'.namedTypes[nt.templateRootNamedIndex.toNatClampNeg]? with
          | none => some (none, c')
          | some rootNt => instantiateWith subst c' rootNt.typeId args

/-- `H2TCSubstituteType`, up to a depth of the recursion; `none` when that is too little. -/
def substituteType : Nat → Subst
  | 0, _, _, _, _, _, _ => none
  | depth + 1, c, typeId, paramTypes, argTypes, errStart, errEnd =>
    let subst := substituteType depth
    match c.entry typeId with
    | none => some (typeId, c)
    | some t =>
      if argTypes.length = 0 then some (typeId, c)
      else
        match t.kind with
        | .TYPE_PARAM => some (lookupSubstitutedType paramTypes argTypes typeId, c)
        | .PTR => (subst c t.baseType paramTypes argTypes errStart errEnd).map
            (rebuilt typeId t.baseType fun c base => c.internPtrType base errStart errEnd)
        | .REF => (subst c t.baseType paramTypes argTypes errStart errEnd).map
            (rebuilt typeId t.baseType fun c base => c.internRefType base t.flags.mutable errStart errEnd)
        | .ARRAY => (subst c t.baseType paramTypes argTypes errStart errEnd).map
            (rebuilt typeId t.baseType fun c base => c.internArrayType base t.arrayLen errStart errEnd)
        | .SLICE => (subst c t.baseType paramTypes argTypes errStart errEnd).map
            (rebuilt typeId t.baseType fun c base => c.internSliceType base t.flags.mutable errStart errEnd)
        | .OPTIONAL => (subst c t.baseType paramTypes argTypes errStart errEnd).map
            (rebuilt typeId t.baseType fun c base => c.internOptionalType base errStart errEnd)
        | .TUPLE | .PACK =>
          let elems := (c.componentsOf t).map FuncParam.typeId
          if 256 < t.fieldCount then some (none, c)
          else
            (substituteAll subst paramTypes argTypes errStart errEnd c elems).map fun r =>
              if r.1 = elems then (typeId, r.2)
              else if t.kind = .TUPLE then r.2.internTupleType r.1 errStart errEnd
              else r.2.internPackType r.1 errStart errEnd
        | .FUNCTION =>
          let params := c.componentsOf t
          if 256 < t.fieldCount then some (none, c)
          else
            (substituteAll subst paramTypes argTypes errStart errEnd c (t.baseType :: params.map FuncParam.typeId)).map fun r =>
              match r.1 with
              | [] => (typeId, r.2)
              | returnType :: paramTypes' =>
                if returnType = t.baseType ∧ paramTypes' = params.map FuncParam.typeId then (typeId, r.2)
                else
                  r.2.internFunctionType returnType
                    (List.zipWith (fun elem param => ⟨elem, param.isConst⟩) paramTypes' params)
                    t.flags.functionVariadic ((r.2.entry typeId).bind TCType.funcIndex) errStart errEnd
        | .NAMED | .ALIAS => substituteNamed subst c typeId paramTypes argTypes errStart errEnd
        | _ => some (typeId, c)

def instantiateNamedType (depth : Nat) (c : TypeTable) (rootTypeId : Nat) (argTypes : List TypeId) :
    Option (TypeId × TypeTable) :=
  instantiateWith (substituteType depth) c rootTypeId argTypes

/-- `H2TCFailNode`. -/
def failNode (c : TypeTable) (node : AstNode) (code : DiagCode) : TypeId × TypeTable :=
  c.failSpan code node.start node.stop

/-- The entry of a type parameter of a declaration. -/
def placeholderType (declNode : Int) (n : AstNode) : TCType :=
  { TCType.blank .TYPE_PARAM with declNode, nameStart := n.dataStart, nameEnd := n.dataEnd }

/-- Adds a placeholder for each type parameter, up to the first for which there is no room. -/
def addPlaceholders (declNode : Int) : TypeTable → List AstNode → Bool × TypeTable
  | c, [] => (true, c)
  | c, n :: rest =>
    match c.addType (placeholderType declNode n) n.start n.stop with
    | (none, c) => (false, c)
    | (some typeId, c) => addPlaceholders declNode { c with genericArgTypes := c.genericArgTypes ++ [some typeId] } rest

/-- `H2TCAppendDeclTypeParamPlaceholders`, with the type parameter nodes of the declaration. -/
def appendDeclTypeParamPlaceholders (c : TypeTable) (nodeId : Int) (node : AstNode) (typeParams : List AstNode) :
    Bool × TypeTable :=
  if c.genericArgCap < c.genericArgTypes.length + typeParams.length then (false, (c.failNode node .ARENA_OOM).2)
  else addPlaceholders nodeId c typeParams

def findNamedTypeIndexOwned (c : TypeTable) (ownerTypeId : TypeId) (start stop : Nat) : Option Nat :=
  c.namedTypes.findIdx? fun nt =>
    nt.ownerTypeId = ownerTypeId ∧ c.nameOf nt.nameStart nt.nameEnd = c.nameOf start stop

/-- The entry of a declaration. -/
def declaredType (nodeId : Int) (node : AstNode) : TCType :=
  { TCType.blank (if node.kind = .TYPE_ALIAS then .ALIAS else .NAMED) with
    declNode := nodeId, nameStart := node.dataStart, nameEnd := node.dataEnd }

def declaredName (nodeId : Int) (node : AstNode) (ownerTypeId : TypeId) (typeId : Nat) : NamedType where
  nameStart := node.dataStart
  nameEnd := node.dataEnd
  typeId := typeId
  declNode := nodeId
  ownerTypeId := ownerTypeId
  templateArgStart := 0
  templateArgCount := 0
  templateRootNamedIndex := -1

def NamedType.withArgs (nt : NamedType) (templateArgStart templateArgCount : Nat) : NamedType :=
  { nt with templateArgStart, templateArgCount }

/-- `H2TCAddNamedType`, with the declaration node and its type parameter nodes. -/
def addNamedType (c : TypeTable) (nodeId : Int) (node : AstNode) (typeParams : List AstNode) (ownerTypeId : TypeId) :
    TypeId × TypeTable :=
  if node.dataEnd ≤ node.dataStart then c.failNode node .EXPECTED_TYPE
  else if (c.findNamedTypeIndexOwned ownerTypeId node.dataStart node.dataEnd).isSome then
    c.failSpan .DUPLICATE_SYMBOL node.dataStart node.dataEnd
  else
    match c.addType (declaredType nodeId node) node.start node.stop with
    | (none, c) => (none, c)
    | (some typeId, c) =>
      if c.namedTypeCap ≤ c.namedTypes.length then c.failNode node .ARENA_OOM
      else
        let templateArgStart := c.genericArgTypes.length
        let named := c.namedTypes ++ [declaredName nodeId node ownerTypeId typeId]
        match appendDeclTypeParamPlaceholders { c with namedTypes := named } nodeId node typeParams with
        | (false, c) => (none, c)
        | (true, c) =>
          (some typeId,
            { c with
              namedTypes := c.namedTypes.modify (c.namedTypes.length - 1)
                (NamedType.withArgs · templateArgStart typeParams.length) })

end HopHop.TypeTable
