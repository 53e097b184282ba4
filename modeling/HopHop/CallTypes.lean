import HopHop.TypeAssign
import HopHop.TypeSubst
import HopHop.CallArgs

namespace HopHop.TypeTable

section

variable (c : TypeTable)

/-- The loop of `H2TCEmbedDistanceToType`, with the number of fields that were gone through. -/
def embedDistanceFrom : Nat → Nat → TypeId → TypeId → Option Nat
  | 0, _, _, _ => none
  | left + 1, depth, cur, dstType =>
    match c.findEmbeddedField cur with
    | none => none
    | some field =>
      match c.resolveAliasBaseType field.typeId with
      | none => none
      | some next => if some next = dstType then some (depth + 1) else embedDistanceFrom left (depth + 1) (some next) dstType

def embedDistanceToType (srcType dstType : TypeId) : Option Nat :=
  if srcType = dstType then some 0 else c.embedDistanceFrom (c.types.length + 1) 0 srcType dstType

/-- The cost of an upcast over the given number of embedded fields. -/
def upcastCost (distance : Nat) : UInt8 := UInt8.ofNat (2 + (distance - 1))

/-- The cost of converting the components of a tuple or pack in pairs. -/
def conversionCostAll (cost : TypeId → TypeId → Option UInt8) : List TypeId → List TypeId → Option Nat
  | dst :: dsts, src :: srcs =>
    match cost dst src, conversionCostAll cost dsts srcs with
    | some elemCost, some total => some (elemCost.toNat + total)
    | _, _ => none
  | _, _ => some 0

/-- The part of `H2TCConversionCost` that looks at the entries of both types. -/
def conversionCostEntries (cost : TypeId → TypeId → Option UInt8) (dstType srcType : TypeId) (dst src : TCType) :
    Option UInt8 :=
  let upcast := (c.embedDistanceToType src.baseType dst.baseType).filter fun _ => dst.baseType ≠ src.baseType
  if (dst.kind = .TUPLE ∧ src.kind = .TUPLE ∨ dst.kind = .PACK ∧ src.kind = .PACK) ∧ dst.fieldCount = src.fieldCount then
    (conversionCostAll cost ((c.componentsOf dst).map FuncParam.typeId) ((c.componentsOf src).map FuncParam.typeId)).map
      fun total => if 255 < total then 255 else UInt8.ofNat total
  else if dst.kind = .OPTIONAL ∧ src.kind ≠ .OPTIONAL then some 4
  else if dst.kind = .OPTIONAL ∧ src.kind = .OPTIONAL then cost dst.baseType src.baseType
  else if c.isRawptrType dstType ∧ c.isRawptrType srcType then some 0
  else if dst.kind = .REF ∧ src.kind = .REF ∧ upcast.isSome then upcast.map upcastCost
  else if dst.kind = .REF ∧ src.kind = .REF ∧ dst.isMutable = false ∧ src.isMutable ∧ dst.baseType = src.baseType then
    some 1
  else if dst.kind = .PTR ∧ src.kind = .PTR ∧ upcast.isSome then upcast.map upcastCost
  else if dst.kind = .SLICE ∧ src.kind = .SLICE ∧ dst.baseType = src.baseType ∧ dst.isMutable = false ∧ src.isMutable then
    some 1
  else if src.kind = .NAMED ∧ c.isTypeDerivedFromEmbedded srcType dstType then
    some (((c.embedDistanceToType srcType dstType).map upcastCost).getD 2)
  else some 1

/-- `H2TCConversionCost`, up to a depth of the recursion. -/
def conversionCostWithin : Nat → TypeId → TypeId → Option UInt8
  | 0, _, _ => none
  | depth + 1, dstType, srcType =>
    if c.canAssign dstType srcType = false then none
    else if dstType = srcType then some 0
    else if dstType = c.typeAnytype then some 8
    else if c.typeIsFmtValue dstType then some 5
    else if srcType = c.typeUntypedInt ∨ srcType = c.typeUntypedFloat then some 3
    else
      match c.entry dstType, c.entry srcType with
      | dst, some src =>
        if src.kind = .ALIAS then
          let srcBaseType := c.resolveAliasBaseType srcType
          if srcBaseType = none ∨ srcBaseType = srcType then none
          else if dstType = srcBaseType then some 1
          else (conversionCostWithin depth dstType srcBaseType).map fun cost => if cost < 255 then cost + 1 else cost
        else
          match dst with
          | none => some 1
          | some dst => c.conversionCostEntries (conversionCostWithin depth) dstType srcType dst src
      | _, none => some 1

def conversionCost (dstType srcType : TypeId) : Option UInt8 :=
  c.conversionCostWithin (2 * c.types.length + 2) dstType srcType

def isUntyped (typeId : TypeId) : Bool := typeId = c.typeUntypedInt ∨ typeId = c.typeUntypedFloat

/-- `H2TCInferTemplateArgBind`: what a type parameter is bound to after one more argument. -/
def inferTemplateArgBind (boundType : Option TypeId) (argType : TypeId) : Option TypeId :=
  match boundType with
  | none => some argType
  | some bound =>
    if bound = argType then some bound
    else if c.isUntyped bound ∧ ¬ c.isUntyped argType ∧ c.canAssign argType bound then some argType
    else if ¬ c.isUntyped bound ∧ c.isUntyped argType ∧ c.canAssign bound argType then some bound
    else none

/-- What the type parameters are bound to: one entry for each. -/
abbrev Bindings := List (Option TypeId)

/-- Goes through the components of two types in pairs. -/
def inferAll (infer : TypeId → TypeId → Bindings → Option Bindings) :
    List TypeId → List TypeId → Bindings → Option Bindings
  | param :: params, arg :: args, bound =>
    match infer param arg bound with
    | none => none
    | some bound => inferAll infer params args bound
  | _, _, bound => some bound

/-- The types that are gone through when the kinds of a parameter and its argument differ. -/
def inferAcross (param arg : TCType) (argType : TypeId) : Option (TypeId × TypeId) :=
  match param.kind, arg.kind with
  | .REF, .REF | .REF, .PTR => some (param.baseType, arg.baseType)
  | .REF, .ARRAY | .PTR, .ARRAY => some (param.baseType, argType)
  | .SLICE, .ARRAY => some (param.baseType, arg.baseType)
  | .SLICE, .PTR =>
    match c.entry arg.baseType with
    | some pointee => if pointee.kind = .ARRAY then some (param.baseType, pointee.baseType) else none
    | none => none
  | _, _ => none

/-- The generic arguments of two instances of one declaration. -/
def inferNamedArgs (paramType argType : TypeId) : Option (List TypeId × List TypeId) :=
  match c.namedTypes.find? (fun nt => some nt.typeId = paramType), c.namedTypes.find? (fun nt => some nt.typeId = argType) with
  | some paramNt, some argNt =>
    let root (nt : NamedType) : TypeId :=
      if 0 ≤ nt.templateRootNamedIndex then (c.namedTypes[nt.templateRootNamedIndex.toNatClampNeg]?).map NamedType.typeId
      else some nt.typeId
    if root paramNt ≠ root argNt ∨ paramNt.templateArgCount ≠ argNt.templateArgCount then none
    else some (c.templateArgs paramNt, c.templateArgs argNt)
  | _, _ => none

/-- `H2TCInferTemplateArgsFromTypes`, up to a depth of the recursion. -/
def inferTemplateArgsWithin (templateParamTypes : List TypeId) : Nat → TypeId → TypeId → Bindings → Option Bindings
  | 0, _, _, _ => none
  | depth + 1, paramType, argType, bound =>
    let infer := inferTemplateArgsWithin templateParamTypes depth
    let resolvedParam := (c.resolveAliasBaseType paramType).or paramType
    let resolvedArg := (c.resolveAliasBaseType argType).or argType
    match templateParamTypes.findIdx? fun ty => ty = paramType ∨ ty = resolvedParam with
    | some i => (c.inferTemplateArgBind (bound[i]?.join) argType).map fun ty => bound.set i (some ty)
    | none =>
      match c.entry resolvedParam, c.entry resolvedArg with
      | some param, some arg =>
        if resolvedParam = resolvedArg then some bound
        else if param.kind ≠ arg.kind then
          match c.inferAcross param arg resolvedArg with
          | some (param, arg) => infer param arg bound
          | none => some bound
        else
          match param.kind with
          | .PTR | .REF | .ARRAY | .SLICE | .OPTIONAL => infer param.baseType arg.baseType bound
          | .TUPLE | .PACK | .FUNCTION =>
            if param.fieldCount ≠ arg.fieldCount then some bound
            else
              let params := (c.componentsOf param).map FuncParam.typeId
              let args := (c.componentsOf arg).map FuncParam.typeId
              if param.kind = .FUNCTION then inferAll infer (param.baseType :: params) (arg.baseType :: args) bound
              else inferAll infer params args bound
          | .NAMED | .ALIAS =>
            match c.inferNamedArgs resolvedParam resolvedArg with
            | some (params, args) => inferAll infer params args bound
            | none => some bound
          | _ => some bound
      | _, _ => some bound

/-- `H2TCConcretizeInferredType`, up to a depth of the recursion. -/
def concretizeWithin : Nat → TypeId → Option TypeId
  | 0, _ => none
  | depth + 1, typeId =>
    if typeId = c.typeUntypedInt then (c.findBuiltinByKind .ISIZE).map some
    else if typeId = c.typeUntypedFloat then (c.findBuiltinByKind .F64).map some
    else
      match c.entry typeId with
      | none => some typeId
      | some t =>
        if t.kind ≠ .TUPLE then some typeId
        else if 256 < t.fieldCount then none
        else
          let elems := (c.componentsOf t).map FuncParam.typeId
          match elems.mapM (concretizeWithin depth) with
          | none => none
          | some concrete => if concrete = elems then some typeId else (c.internTupleType concrete 0 0).1.map some

/-- The types of the table, for calls that make no type the table does not have. -/
def callTypes : CallTypes TypeId where
  anytype := c.typeAnytype
  sliceElem typeId := ((c.entry typeId).filter (·.kind = .SLICE)).map TCType.baseType
  packElems typeId := ((c.entry typeId).filter (·.kind = .PACK)).map fun t => (c.componentsOf t).map FuncParam.typeId
  spreadPack typeId :=
    let resolved := c.resolveAliasBaseType typeId
    ((c.entry resolved).filter (·.kind = .PACK)).map fun _ => resolved
  isMutableRefType typeId := (c.entry typeId).any fun t => t.kind = .PTR ∨ (t.kind = .REF ∧ t.isMutable)
  canAssign := c.canAssign
  conversionCost := c.conversionCost
  concretizeInferredType := c.concretizeWithin (c.types.length + 1)
  inferTemplateArgsFromTypes templateParamTypes := c.inferTemplateArgsWithin templateParamTypes (2 * c.types.length + 2)
  substituteType paramTypes argTypes typeId :=
    match substituteType (2 * c.types.length + 2) c typeId paramTypes argTypes 0 0 with
    | some (some substituted, _) => some (some substituted)
    | _ => none
  internPackType elems := (c.internPackType elems 0 0).1.map some
  internPtrType base := (c.internPtrType base 0 0).1.map some

end

end HopHop.TypeTable
