import HopHop.TypeShape

namespace HopHop.TypeTable

section

variable (c : TypeTable)

/-- `H2NameHasSuffix` on the name of an entry. -/
def nameHasSuffix (t : TCType) (suffix : String) : Bool := (bytesOf suffix).isSuffixOf (c.nameOf t.nameStart t.nameEnd)

def typeIsFmtValue (typeId : TypeId) : Bool :=
  match c.entry (c.resolveAliasBaseType typeId) with
  | none => false
  | some t => t.kind = .NAMED ∧ c.nameHasSuffix t "__FmtValue" ∧ c.declKind t = some .STRUCT

def isIntegerType (typeId : TypeId) : Bool :=
  match c.entry (c.resolveAliasBaseType typeId) with
  | none => false
  | some t =>
    if c.resolveAliasBaseType typeId = c.typeUntypedInt then true
    else t.kind = .BUILTIN ∧ t.builtin ∈ [.U8, .U16, .U32, .U64, .I8, .I16, .I32, .I64, .USIZE, .ISIZE]

def isFloatType (typeId : TypeId) : Bool :=
  match c.entry (c.resolveAliasBaseType typeId) with
  | none => false
  | some t =>
    if c.resolveAliasBaseType typeId = c.typeUntypedFloat then true
    else t.kind = .BUILTIN ∧ (t.builtin = .F32 ∨ t.builtin = .F64)

def isNumericType (typeId : TypeId) : Bool := c.isIntegerType typeId || c.isFloatType typeId

def isBoolType (typeId : TypeId) : Bool := c.resolveAliasBaseType typeId = c.typeBool

def isRawptrType (typeId : TypeId) : Bool :=
  (c.resolveAliasBaseType typeId).isSome ∧ c.resolveAliasBaseType typeId = c.typeRawptr

def isNamedDeclKind (typeId : TypeId) (kind : AstKind) : Bool :=
  match c.entry (c.resolveAliasBaseType typeId) with
  | none => false
  | some t => t.kind = .NAMED ∧ c.declKind t = some kind

def isStringLikeType (typeId : TypeId) : Bool :=
  let resolved := c.resolveAliasBaseType typeId
  match c.entry resolved with
  | none => false
  | some t =>
    if resolved = c.typeStr then true
    else (t.kind = .PTR ∨ t.kind = .REF) ∧ c.resolveAliasBaseType t.baseType = c.typeStr

/-- Whether all fields of an entry pass the test. The fields are read from the field array, for a tuple too, whose
components stand elsewhere; a slot beyond the array holds no type. -/
def allFields (t : TCType) (test : TypeId → Bool) : Bool :=
  (List.range t.fieldCount).all fun i =>
    match c.fields[t.fieldStart + i]? with
    | some f => test f.typeId
    | none => false

/-- `H2TCTypeSupportsFmtReflectRec`, with the number of levels that are left. -/
def typeSupportsFmtReflectRec : Nat → TypeId → Bool
  | 0, _ => false
  | depth + 1, typeId =>
    let resolved := c.resolveAliasBaseType typeId
    match c.entry resolved with
    | none => false
    | some t =>
      if c.isStringLikeType resolved then true
      else
        match t.kind with
        | .BUILTIN | .UNTYPED_INT | .UNTYPED_FLOAT =>
          c.isBoolType resolved || c.isNumericType resolved || resolved = c.typeType || c.isRawptrType resolved
        | .ARRAY | .SLICE | .OPTIONAL => typeSupportsFmtReflectRec depth t.baseType
        | .PTR | .REF | .NULL => true
        | .NAMED =>
          if c.isNamedDeclKind resolved .ENUM then true
          else if c.isNamedDeclKind resolved .UNION then false
          else c.allFields t (typeSupportsFmtReflectRec depth)
        | .ANON_STRUCT | .TUPLE => c.allFields t (typeSupportsFmtReflectRec depth)
        | _ => false

/-- The first embedded field of a declared type. `H2TCEnsureNamedTypeFieldsResolved` fills in the fields of a type
before they are read; the table is the one it leaves. -/
def findEmbeddedField (namedTypeId : TypeId) : Option TCField :=
  match c.entry namedTypeId with
  | none => none
  | some t => if t.kind = .NAMED then (c.fieldsOf t).find? TCField.embedded else none

/-- The loop of `H2TCEmbedDistanceToType`: whether embedded fields lead from one type to the other. -/
def embedsFrom : Nat → TypeId → TypeId → Bool
  | 0, _, _ => false
  | depth + 1, cur, dstType =>
    match c.findEmbeddedField cur with
    | none => false
    | some field =>
      match c.resolveAliasBaseType field.typeId with
      | none => false
      | some next => if some next = dstType then true else embedsFrom depth (some next) dstType

def isTypeDerivedFromEmbedded (srcType dstType : TypeId) : Bool :=
  srcType = dstType || c.embedsFrom (c.types.length + 1) srcType dstType

def typeIsU8Slice (typeId : TypeId) (requireMutable : Bool) : Bool :=
  match c.entry (c.resolveAliasBaseType typeId) with
  | none => false
  | some t =>
    t.kind = .SLICE ∧ (c.findBuiltinByKind .U8).isSome ∧ t.baseType = c.findBuiltinByKind .U8
      ∧ (requireMutable → t.isMutable)

/-- The components of two packs or tuples, compared in pairs. -/
def canAssignAll (compare : TypeId → TypeId → Bool) (dst src : TCType) : Bool :=
  src.kind = dst.kind ∧ dst.fieldCount = src.fieldCount
    ∧ (List.range dst.fieldCount).all fun i =>
      match c.funcParams[dst.fieldStart + i]?, c.funcParams[src.fieldStart + i]? with
      | some dstElem, some srcElem => compare dstElem.typeId srcElem.typeId
      | _, _ => false

def canAssignToRef (compare : TypeId → TypeId → Bool) (dst src : TCType) (srcType : TypeId) : Bool :=
  if src.kind = .REF ∧ src.baseType = c.typeStr ∧ c.typeIsU8Slice dst.baseType false then true
  else if src.kind = .PTR ∧ src.baseType = c.typeStr ∧ c.typeIsU8Slice dst.baseType false then true
  else if src.kind = .REF ∧ compare dst.baseType src.baseType then !dst.isMutable || src.isMutable
  else if src.kind = .PTR ∧ compare dst.baseType src.baseType then true
  else src.kind = .ARRAY ∧ compare dst.baseType srcType

/-- What two owned pointers are compared by. -/
def canAssignPointees (dst src dstBase srcBase : TCType) : Bool :=
  let dstBaseResolved := c.resolveAliasBaseType dst.baseType
  let srcBaseResolved := c.resolveAliasBaseType src.baseType
  if dstBaseResolved.isSome ∧ srcBaseResolved.isSome ∧ dstBaseResolved = srcBaseResolved then true
  else if dstBaseResolved.isSome ∧ srcBaseResolved.isSome
      ∧ c.isTypeDerivedFromEmbedded srcBaseResolved dstBaseResolved then true
  else if src.baseType = c.typeStr ∧ c.typeIsU8Slice dst.baseType true then true
  else if dstBase.kind = .SLICE then
    if srcBase.kind = .SLICE ∧ dstBase.baseType = srcBase.baseType then !dstBase.isMutable || srcBase.isMutable
    else srcBase.kind = .ARRAY ∧ dstBase.baseType = srcBase.baseType
  else false

def canAssignToPtr (dst src : TCType) : Bool :=
  match c.entry dst.baseType with
  | none => false
  | some dstBase =>
    if src.kind = .ARRAY ∧ dstBase.kind = .SLICE ∧ dstBase.baseType = src.baseType then true
    else
      match src.kind, c.entry src.baseType with
      | .PTR, some srcBase => c.canAssignPointees dst src dstBase srcBase
      | _, _ => false

def canAssignToSlice (dstType : TypeId) (dst src : TCType) (srcType : TypeId) : Bool :=
  if srcType = c.typeStr ∧ c.typeIsU8Slice dstType dst.isMutable then true
  else if src.kind = .SLICE ∧ dst.baseType = src.baseType then !dst.isMutable || src.isMutable
  else if src.kind = .ARRAY ∧ dst.baseType = src.baseType then true
  else
    match src.kind, c.entry src.baseType with
    | .PTR, some pointee => pointee.kind = .ARRAY ∧ pointee.baseType = dst.baseType
    | _, _ => false

def canAssignToOptional (compare : TypeId → TypeId → Bool) (dst src : TCType) (srcType : TypeId) : Bool :=
  if src.kind = .NULL then true
  else if src.kind ≠ .OPTIONAL ∧ compare dst.baseType srcType then true
  else src.kind = .OPTIONAL ∧ compare dst.baseType src.baseType

/-- The part of `H2TCCanAssign` that looks at the entries of both types, neither of them an alias. -/
def canAssignEntries (compare : TypeId → TypeId → Bool) (dstType srcType : TypeId) (dst src : TCType) : Bool :=
  if dst.kind = .PACK ∨ dst.kind = .TUPLE then c.canAssignAll compare dst src
  else if dst.kind = .ARRAY then src.kind = .ARRAY ∧ dst.baseType = src.baseType ∧ src.arrayLen ≤ dst.arrayLen
  else if src.kind = .NAMED ∧ c.isTypeDerivedFromEmbedded srcType dstType then true
  else if dst.kind = .REF then c.canAssignToRef compare dst src srcType
  else if dst.kind = .PTR then c.canAssignToPtr dst src
  else if dst.kind = .SLICE then c.canAssignToSlice dstType dst src srcType
  else if dst.kind = .OPTIONAL then canAssignToOptional compare dst src srcType
  else if c.isRawptrType dstType then src.kind = .NULL || c.isRawptrType srcType
  else false

/-- `H2TCCanAssign`, up to a depth of the recursion. -/
def canAssignWithin : Nat → TypeId → TypeId → Bool
  | 0, _, _ => false
  | depth + 1, dstType, srcType =>
    if dstType = srcType then true
    else if c.typeIsFmtValue dstType then c.typeSupportsFmtReflectRec (c.types.length + 1) srcType
    else if dstType = c.typeAnytype then (c.entry srcType).isSome
    else
      match c.entry dstType, c.entry srcType with
      | some dst, some src =>
        if dst.kind = .ALIAS then false
        else if srcType = c.typeUntypedInt ∧ c.isIntegerType dstType then true
        else if srcType = c.typeUntypedFloat ∧ c.isFloatType dstType then true
        else if srcType = c.typeUntypedInt ∧ c.isFloatType dstType then true
        else if src.kind = .ALIAS then
          let srcBaseType := c.resolveAliasBaseType srcType
          if srcBaseType = none ∨ srcBaseType = srcType then false else canAssignWithin depth dstType srcBaseType
        else c.canAssignEntries (canAssignWithin depth) dstType srcType dst src
      | _, _ => false

/-- `H2TCCanAssign`. No type is a component of itself, so the recursion takes two steps for each entry of the table
at most. -/
def canAssign (dstType srcType : TypeId) : Bool := c.canAssignWithin (2 * c.types.length + 2) dstType srcType

end

end HopHop.TypeTable
