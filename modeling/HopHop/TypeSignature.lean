import HopHop.TypeResolve

namespace HopHop

/-- What the readers of signatures come to. -/
structure FnSignature where
  returnType : TypeId
  params : List FuncParam
  isVariadic : Bool
  contextType : TypeId
  hasBody : Bool

namespace TypeReader

section

variable (resolve : Int → AstNode → NodeList → TypeReader → Except Diag (TypeId × TypeReader))
variable (scope : TypeScope)

/-- What has been read of a signature. -/
structure SigParts where
  returnType : TypeId
  paramCount : Nat
  isVariadic : Bool
  contextType : TypeId
  hasBody : Bool
  hasNamedSuffix : Bool

/-- The name of a parameter starts with an underscore. -/
def isAnonName (c : TypeTable) (n : AstNode) : Bool :=
  n.dataStart < n.dataEnd ∧ c.src[n.dataStart]? = some '_'.toNat.toUInt8

/-- The type of a parameter, with the checks of `H2TCReadFunctionSig`. -/
def readParamType (n : AstNode) (kids : NodeList) (r : TypeReader) : Except Diag (TypeId × TypeReader) :=
  match kids with
  | .nil => fail .EXPECTED_TYPE 0 0
  | .cons typeNodeId typeNode typeKids _ => do
    let (typeId, r) ←
      resolve typeNodeId typeNode typeKids { r with allowAnytypeParamType := true, allowConstNumericTypeName := true }
    let r := { r with allowAnytypeParamType := false, allowConstNumericTypeName := false }
    if isConstNumeric r.table typeId ∧ ¬n.has AstFlag.PARAM_CONST then
      fail .CONST_NUMERIC_PARAM_REQUIRES_CONST n.dataStart n.dataEnd
    else if scope.containsVarSizeByValue r.table typeId then failAt typeNode .VAR_SIZE_BYVALUE_FORBIDDEN
    else variadicType r n typeId

/-- The loop of `H2TCReadFunctionSig` over the children of a function node. -/
def readSigParts : NodeList → SigParts → TypeReader → Except Diag (SigParts × TypeReader)
  | .nil, parts, r => .ok (parts, r)
  | .cons nId n kids rest, parts, r =>
    if n.kind = .PARAM then
      if 0 < parts.paramCount ∧ isAnonName r.table n ∧ parts.hasNamedSuffix then
        fail .PARAM_ANON_AFTER_NAMED n.dataStart n.dataEnd
      else if r.scratchParamTypes.length ≤ parts.paramCount then failAt n .ARENA_OOM
      else do
        let (typeId, r') ← readParamType resolve scope n kids r
        readSigParts rest
          { parts with
            paramCount := parts.paramCount + 1
            isVariadic := parts.isVariadic || n.has AstFlag.PARAM_VARIADIC
            hasNamedSuffix := parts.hasNamedSuffix || (0 < parts.paramCount && !isAnonName r.table n) }
          ((r'.setParam parts.paramCount typeId).setFlag parts.paramCount (n.has AstFlag.PARAM_CONST))
    else if isTypeNodeKind n.kind ∧ n.flags = 1 then do
      let (returnType, r) ← resolveReturnType resolve scope n nId kids parts.paramCount r
      readSigParts rest { parts with returnType } r
    else if n.kind = .CONTEXT_CLAUSE then
      if parts.contextType ≠ none then failAt n .UNEXPECTED_TOKEN
      else if kids.isEmpty then failAt n .EXPECTED_TYPE
      else do
        let (contextType, r) ← resolveFirst resolve kids r
        readSigParts rest { parts with contextType } r
    else if n.kind = .BLOCK then readSigParts rest { parts with hasBody := true } r
    else readSigParts rest parts r

/-- `H2TCReadFunctionSig`, with the parameters that it leaves in the buffer. -/
def readFunctionSig (kids : NodeList) (r : TypeReader) : Except Diag (FnSignature × TypeReader) := do
  let (parts, r) ← readSigParts resolve scope kids ⟨r.table.typeVoid, 0, false, none, false, false⟩ r
  return (⟨parts.returnType, r.params parts.paramCount, parts.isVariadic, parts.contextType, parts.hasBody⟩, r)

/-- What has been read of a function value. -/
structure ValueParts where
  returnType : TypeId
  paramCount : Nat
  isVariadic : Bool

/-- The type of a parameter of a function value: the one written, or that of the function type expected. -/
def valueParamType (expectedParams : List FuncParam) (ch : AstNode) (kids : NodeList) (paramCount : Nat)
    (r : TypeReader) : Except Diag (TypeId × TypeReader) :=
  match kids with
  | .cons typeNodeId typeNode typeKids _ => do
    let (typeId, r) ←
      resolve typeNodeId typeNode typeKids { r with allowConstNumericTypeName := true, allowAnytypeParamType := true }
    return (typeId, { r with allowConstNumericTypeName := false, allowAnytypeParamType := false })
  | .nil =>
    match expectedParams[paramCount]? with
    | none => failAt ch .PARAM_MISSING_TYPE
    | some param => .ok (param.typeId, r)

/-- The loop of `H2TCRegisterFunctionValueNode` over the children of the function node. -/
def readValueParts (expectedParams : List FuncParam) :
    NodeList → ValueParts → TypeReader → Except Diag (ValueParts × TypeReader)
  | .nil, parts, r => .ok (parts, r)
  | .cons chId ch kids rest, parts, r =>
    if ch.kind = .TYPE_PARAM then failAt ch .GENERIC_FN_TYPE_ARGS_FORBIDDEN
    else if ch.kind = .PARAM then
      if r.scratchParamTypes.length ≤ parts.paramCount then failAt ch .ARENA_OOM
      else do
        let (typeId, r) ← valueParamType resolve expectedParams ch kids parts.paramCount r
        readValueParts expectedParams rest
          { parts with
            paramCount := parts.paramCount + 1
            isVariadic := parts.isVariadic || ch.has AstFlag.PARAM_VARIADIC }
          ((r.setParam parts.paramCount typeId).setFlag parts.paramCount (ch.has AstFlag.PARAM_CONST))
    else if isTypeNodeKind ch.kind ∧ ch.flags = 1 then do
      let (returnType, r) ← resolve chId ch kids { r with allowConstNumericTypeName := true }
      readValueParts expectedParams rest { parts with returnType } { r with allowConstNumericTypeName := false }
    else readValueParts expectedParams rest parts r

/-- What `H2TCRegisterFunctionValueNode` reads of a function that is not registered yet, where a function type may be
expected. -/
def readFunctionValue (n : AstNode) (expected : Option TCType) (kids : NodeList) (r : TypeReader) :
    Except Diag (FnSignature × TypeReader) := do
  let expectedParams := (expected.map r.table.componentsOf).getD []
  let start : ValueParts :=
    match expected with
    | none => ⟨r.table.typeVoid, 0, false⟩
    | some fn => ⟨fn.baseType, 0, fn.flags.functionVariadic⟩
  let (parts, r) ← readValueParts resolve expectedParams kids start r
  if expected.isSome ∧ expectedParams.length ≠ parts.paramCount then failAt n .ARITY_MISMATCH
  else return (⟨parts.returnType, r.params parts.paramCount, parts.isVariadic, none, false⟩, r)

end

end TypeReader

end HopHop
