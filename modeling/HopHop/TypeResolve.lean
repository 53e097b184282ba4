import HopHop.TypeSubst

namespace HopHop

/-- The children of a node, in order, each with its own children: what `H2AstFirstChild` and `H2AstNextSibling` lead
to. -/
inductive NodeList
  | nil
  | cons (id : Int) (node : AstNode) (kids rest : NodeList)

namespace NodeList

def length : NodeList → Nat
  | nil => 0
  | cons _ _ _ rest => rest.length + 1

def isEmpty : NodeList → Bool
  | nil => true
  | cons .. => false

end NodeList

/-- The type table with the buffers that belong to the whole checker: the types and flags of the parameters or
elements of the function type, tuple or signature that is being read. -/
structure TypeReader where
  table : TypeTable
  scratchParamTypes : List TypeId
  scratchParamFlags : List Bool
  allowAnytypeParamType : Bool
  allowConstNumericTypeName : Bool

/-- What reading a type takes from elsewhere: the look-ups of names, the evaluation of constants that hold types and
of array lengths that are no literals, the test for types of no fixed size, and the children of declarations. -/
structure TypeScope where
  findBuiltinType : TypeTable → List UInt8 → TypeId
  resolveTypeNamePath : TypeTable → List UInt8 → TypeId
  resolveActiveTypeParamType : TypeTable → List UInt8 → TypeId
  findBuiltinQualifiedNamedType : TypeTable → List UInt8 → TypeId
  constantType : AstNode → TypeReader → Except Diag (TypeId × TypeReader)
  arrayLenExpr : Int → AstNode → NodeList → TypeReader → Except Diag (UInt32 × TypeReader)
  containsVarSizeByValue : TypeTable → TypeId → Bool
  declChildren : Int → NodeList

namespace TypeReader

open TypeTable (AnonFieldSig)

/-- `H2TCFailSpan` and `H2TCFailNode`, where the table is of no further use. -/
def fail {α : Type} (code : DiagCode) (errStart errEnd : Nat) : Except Diag α := .error ⟨code, errStart, errEnd⟩

def failAt {α : Type} (node : AstNode) (code : DiagCode) : Except Diag α := fail code node.start node.stop

/-- Takes over what an operation on the table gives. -/
def interned (r : TypeReader) : TypeId × TypeTable → Except Diag (TypeId × TypeReader)
  | (none, c) => .error c.diag
  | (some id, c) => .ok (some id, { r with table := c })

/-- `H2TC_MAX_CALL_ARGS` -/
def maxCallArgs : Nat := 128

/-- `H2TC_MAX_ANON_FIELDS` -/
def maxAnonFields : Nat := 256

/-- The most type arguments that a name may have. -/
def maxTypeArgs : Nat := 64

/-- Writes a parameter or an element into its place. -/
def setParam (r : TypeReader) (i : Nat) (id : TypeId) : TypeReader :=
  { r with scratchParamTypes := r.scratchParamTypes.set i id }

def setFlag (r : TypeReader) (i : Nat) (isConst : Bool) : TypeReader :=
  { r with scratchParamFlags := r.scratchParamFlags.set i isConst }

/-- Puts the first entries back as they were saved. -/
def restore (r saved : TypeReader) (count : Nat) : TypeReader :=
  { r with
    scratchParamTypes := saved.scratchParamTypes.take count ++ r.scratchParamTypes.drop count
    scratchParamFlags := saved.scratchParamFlags.take count ++ r.scratchParamFlags.drop count }

/-- The parameters that have been read. -/
def params (r : TypeReader) (paramCount : Nat) : List FuncParam :=
  List.zipWith FuncParam.mk (r.scratchParamTypes.take paramCount) (r.scratchParamFlags.take paramCount)

/-- The digits of an array length, in 32 bits; none for another character. -/
def parseArrayLenFrom : UInt32 → List UInt8 → Option UInt32
  | v, [] => some v
  | v, ch :: rest =>
    if ch < 0x30 ∨ 0x39 < ch then none else parseArrayLenFrom (v * 10 + (ch - 0x30).toUInt32) rest

def parseArrayLen (c : TypeTable) (node : AstNode) : Option UInt32 :=
  if node.dataEnd ≤ node.dataStart then none else parseArrayLenFrom 0 (c.nameOf node.dataStart node.dataEnd)

def isTypeNodeKind (kind : AstKind) : Bool :=
  kind ∈ [.TYPE_NAME, .TYPE_PTR, .TYPE_REF, .TYPE_MUTREF, .TYPE_ARRAY, .TYPE_VARRAY, .TYPE_SLICE, .TYPE_MUTSLICE,
    .TYPE_OPTIONAL, .TYPE_FN, .TYPE_ANON_STRUCT, .TYPE_ANON_UNION, .TYPE_TUPLE]

/-- A const numeric type is for const parameters and results only. -/
def isConstNumeric (c : TypeTable) (id : TypeId) : Bool := id = c.typeUntypedInt || id = c.typeUntypedFloat

/-- A variadic parameter takes a slice of its type. -/
def variadicType (r : TypeReader) (ch : AstNode) (paramType : TypeId) : Except Diag (TypeId × TypeReader) :=
  if ch.has AstFlag.PARAM_VARIADIC ∧ paramType ≠ r.table.typeAnytype then
    r.interned (r.table.internSliceType paramType false ch.start ch.stop)
  else .ok (paramType, r)

/-- The declaration that a name stands for, and how many arguments it takes. -/
def rootOf (c : TypeTable) (id : TypeId) : Option (TypeId × Nat) :=
  match c.namedTypes.find? (fun nt => some nt.typeId = id) with
  | none => none
  | some nt =>
    if nt.templateRootNamedIndex < 0 then some (id, nt.templateArgCount)
    else (c.namedTypes[nt.templateRootNamedIndex.toNatClampNeg]?).map fun root =>
      (some root.typeId, root.templateArgCount)

section

variable (resolve : Int → AstNode → NodeList → TypeReader → Except Diag (TypeId × TypeReader))
variable (resolveAlias : TypeReader → TypeId → Except Diag TypeReader)
variable (scope : TypeScope) (depth : Nat)

/-- The first of the children, which must be there. Here and below `resolve` is the resolver of the children and
`resolveAlias` that of aliases. -/
def resolveFirst (kids : NodeList) (r : TypeReader) : Except Diag (TypeId × TypeReader) :=
  match kids with
  | .nil => fail .EXPECTED_TYPE 0 0
  | .cons childId child childKids _ => resolve childId child childKids r

/-- The arguments of a generic name, kept in a buffer of their own. -/
def resolveTypeArgs : NodeList → TypeReader → Except Diag (List TypeId × TypeReader)
  | .nil, r => .ok ([], r)
  | .cons childId child childKids rest, r => do
    let (arg, r) ← resolve childId child childKids r
    let (args, r) ← resolveTypeArgs rest r
    return (arg :: args, r)

/-- An alias is resolved before it is used. -/
def withAlias (r : TypeReader) (id : TypeId) : Except Diag (TypeId × TypeReader) := do
  let r ← resolveAlias r id
  return (id, r)

/-- A name that is no declared type: a type parameter, a built-in declared type, or a constant that holds a type. -/
def resolveOtherName (n : AstNode) (hasArgs : Bool) (r : TypeReader) : Except Diag (TypeId × TypeReader) :=
  match scope.resolveActiveTypeParamType r.table (r.table.nameOf n.dataStart n.dataEnd) with
  | some id => if hasArgs then failAt n .TYPE_MISMATCH else .ok (some id, r)
  | none =>
    match scope.findBuiltinQualifiedNamedType r.table (r.table.nameOf n.dataStart n.dataEnd) with
    | some id => if hasArgs then failAt n .TYPE_MISMATCH else withAlias resolveAlias r (some id)
    | none => do
      let (id, r) ← scope.constantType n r
      if hasArgs then failAt n .TYPE_MISMATCH else return (id, r)

/-- A declared type, with arguments if it is generic. -/
def resolveNamed (n : AstNode) (kids : NodeList) (named : TypeId) (r : TypeReader) : Except Diag (TypeId × TypeReader) :=
  match rootOf r.table named with
  | none => if ¬kids.isEmpty then failAt n .TYPE_MISMATCH else withAlias resolveAlias r named
  | some (rootTypeId, templateArgCount) =>
    if templateArgCount = 0 ∧ kids.isEmpty then withAlias resolveAlias r rootTypeId
    else if kids.isEmpty then failAt n .GENERIC_TYPE_ARGS_REQUIRED
    else if templateArgCount ≠ kids.length ∨ maxTypeArgs < kids.length then failAt n .GENERIC_TYPE_ARITY_MISMATCH
    else do
      let (args, r) ← resolveTypeArgs resolve kids r
      match rootTypeId.bind fun root => TypeTable.instantiateNamedType depth r.table root args with
      | none => .error r.table.diag
      | some made => do
        let (id, r) ← r.interned made
        withAlias resolveAlias r id

def resolveTypeName (n : AstNode) (kids : NodeList) (r : TypeReader) : Except Diag (TypeId × TypeReader) :=
  if r.table.nameOf n.dataStart n.dataEnd = bytesOf "anytype" then
    if ¬r.allowAnytypeParamType then fail .ANYTYPE_INVALID_POSITION n.dataStart n.dataEnd
    else if ¬kids.isEmpty then failAt n .TYPE_MISMATCH
    else .ok (r.table.typeAnytype, r)
  else
    match scope.findBuiltinType r.table (r.table.nameOf n.dataStart n.dataEnd) with
    | some id =>
      if isConstNumeric r.table (some id) ∧ ¬r.allowConstNumericTypeName then
        fail .CONST_NUMERIC_INVALID_POSITION n.dataStart n.dataEnd
      else if ¬kids.isEmpty then failAt n .TYPE_MISMATCH
      else .ok (some id, r)
    | none =>
      match scope.resolveTypeNamePath r.table (r.table.nameOf n.dataStart n.dataEnd) with
      | some named => resolveNamed resolve resolveAlias depth n kids (some named) r
      | none => resolveOtherName resolveAlias scope n (¬kids.isEmpty) r

/-- A slice right under a pointer or a reference has the rights that go with it. -/
def resolvePointee (n child : AstNode) (childId : Int) (childKids : NodeList) (r : TypeReader) : Except Diag (TypeId × TypeReader) :=
  let isPtr := n.kind = .TYPE_PTR
  if child.kind = .TYPE_SLICE ∨ child.kind = .TYPE_MUTSLICE then
    match childKids with
    | .nil => failAt child .EXPECTED_TYPE
    | .cons elemId elem elemKids _ => do
      let (elemType, r) ← resolve elemId elem elemKids r
      r.interned (r.table.internSliceType elemType isPtr n.start n.stop)
  else do
    let (baseType, r) ← resolve childId child childKids r
    match r.table.entry baseType with
    | none => return (baseType, r)
    | some t =>
      if t.kind = .SLICE ∧ t.isMutable ≠ isPtr then
        r.interned (r.table.internSliceType t.baseType isPtr n.start n.stop)
      else return (baseType, r)

def resolvePointer (n : AstNode) (kids : NodeList) (r : TypeReader) : Except Diag (TypeId × TypeReader) :=
  match kids with
  | .nil => failAt n .EXPECTED_TYPE
  | .cons childId child childKids _ => do
    let (baseType, r) ← resolvePointee resolve n child childId childKids r
    if n.kind = .TYPE_PTR then r.interned (r.table.internPtrType baseType n.start n.stop)
    else r.interned (r.table.internRefType baseType (n.kind = .TYPE_MUTREF) n.start n.stop)

/-- The length of an array: digits that belong to the node, or an expression that is its second child. -/
def resolveArrayLen (n : AstNode) (rest : NodeList) (r : TypeReader) : Except Diag (UInt32 × TypeReader) :=
  match rest with
  | .nil =>
    match parseArrayLen r.table n with
    | none => failAt n .EXPECTED_TYPE
    | some len => .ok (len, r)
  | .cons lenId lenNode lenKids .nil => scope.arrayLenExpr lenId lenNode lenKids r
  | .cons _ _ _ (.cons ..) => failAt n .EXPECTED_TYPE

def resolveArray (n : AstNode) (kids : NodeList) (r : TypeReader) : Except Diag (TypeId × TypeReader) :=
  match kids with
  | .nil => failAt n .EXPECTED_TYPE
  | .cons childId child childKids rest => do
    let (arrayLen, r) ← resolveArrayLen scope n rest r
    let (baseType, r) ← resolve childId child childKids r
    r.interned (r.table.internArrayType baseType arrayLen n.start n.stop)

/-- What has been read of a function type. -/
structure FnParts where
  returnType : TypeId
  paramCount : Nat
  isVariadic : Bool
  sawReturnType : Bool

/-- The type of a parameter of a function type, which a slot of the buffer is free for. -/
def resolveFnParam (ch : AstNode) (chId : Int) (chKids : NodeList) (isVariadic : Bool) (r : TypeReader) :
    Except Diag (TypeId × TypeReader) := do
  let (paramType, r) ←
    resolve chId ch chKids { r with allowAnytypeParamType := true, allowConstNumericTypeName := true }
  let r := { r with allowAnytypeParamType := false, allowConstNumericTypeName := false }
  if isConstNumeric r.table paramType ∧ ¬ch.has AstFlag.PARAM_CONST then
    fail .CONST_NUMERIC_PARAM_REQUIRES_CONST ch.dataStart ch.dataEnd
  else if scope.containsVarSizeByValue r.table paramType then failAt ch .VAR_SIZE_BYVALUE_FORBIDDEN
  else if isVariadic then failAt ch .VARIADIC_PARAM_NOT_LAST
  else variadicType r ch paramType

/-- A result, read while the parameters are kept aside. -/
def resolveReturnType (ch : AstNode) (chId : Int) (chKids : NodeList) (paramCount : Nat) (r : TypeReader) :
    Except Diag (TypeId × TypeReader) :=
  if maxCallArgs < paramCount then failAt ch .ARENA_OOM
  else do
    let (returnType, r') ← resolve chId ch chKids { r with allowConstNumericTypeName := true }
    let r' := { r' with allowConstNumericTypeName := false }.restore r paramCount
    if scope.containsVarSizeByValue r'.table returnType then failAt ch .VAR_SIZE_BYVALUE_FORBIDDEN
    else return (returnType, r')

/-- The loop over the parts of a function type: a child with the flag 1 is the result, the others are parameters. -/
def resolveFnParts : NodeList → FnParts → TypeReader → Except Diag (FnParts × TypeReader)
  | .nil, parts, r => .ok (parts, r)
  | .cons chId ch chKids rest, parts, r =>
    if ch.flags = 1 then
      if parts.sawReturnType then failAt ch .EXPECTED_TYPE
      else do
        let (returnType, r) ← resolveReturnType resolve scope ch chId chKids parts.paramCount r
        resolveFnParts rest { parts with returnType, sawReturnType := true } r
    else if r.scratchParamTypes.length ≤ parts.paramCount then failAt ch .ARENA_OOM
    else do
      let (paramType, r) ← resolveFnParam resolve scope ch chId chKids parts.isVariadic r
      resolveFnParts rest
        { parts with
          paramCount := parts.paramCount + 1
          isVariadic := parts.isVariadic || ch.has AstFlag.PARAM_VARIADIC }
        ((r.setParam parts.paramCount paramType).setFlag parts.paramCount (ch.has AstFlag.PARAM_CONST))

def resolveFn (n : AstNode) (kids : NodeList) (r : TypeReader) : Except Diag (TypeId × TypeReader) := do
  let (parts, r) ← resolveFnParts resolve scope kids ⟨r.table.typeVoid, 0, false, false⟩ r
  r.interned
    (r.table.internFunctionType parts.returnType (r.params parts.paramCount) parts.isVariadic none n.start n.stop)

/-- The loop over the elements of a tuple. -/
def resolveTupleElems : NodeList → Nat → TypeReader → Except Diag (Nat × TypeReader)
  | .nil, elemCount, r => .ok (elemCount, r)
  | .cons childId child childKids rest, elemCount, r =>
    if r.scratchParamTypes.length ≤ elemCount then failAt child .ARENA_OOM
    else do
      let (elemType, r) ← resolve childId child childKids r
      if scope.containsVarSizeByValue r.table elemType then failAt child .VAR_SIZE_BYVALUE_FORBIDDEN
      else resolveTupleElems rest (elemCount + 1) (r.setParam elemCount elemType)

def resolveTuple (n : AstNode) (kids : NodeList) (r : TypeReader) : Except Diag (TypeId × TypeReader) := do
  let (elemCount, r) ← resolveTupleElems resolve scope kids 0 r
  if elemCount < 2 then failAt n .EXPECTED_TYPE
  else r.interned (r.table.internTupleType (r.scratchParamTypes.take elemCount) n.start n.stop)

/-- The loop of `H2TCResolveAnonAggregateTypeNode`, which keeps the fields in a buffer of its own. -/
def resolveAnonFields : NodeList → List AnonFieldSig → TypeReader → Except Diag (List AnonFieldSig × TypeReader)
  | .nil, fieldSigs, r => .ok (fieldSigs, r)
  | .cons _ field fieldKids rest, fieldSigs, r =>
    if field.kind ≠ .FIELD then failAt field .EXPECTED_TYPE
    else if maxAnonFields ≤ fieldSigs.length then failAt field .ARENA_OOM
    else if fieldSigs.any fun sig =>
        r.table.nameOf sig.nameStart sig.nameEnd = r.table.nameOf field.dataStart field.dataEnd then
      fail .DUPLICATE_SYMBOL field.dataStart field.dataEnd
    else
      match fieldKids with
      | .nil => failAt field .EXPECTED_TYPE
      | .cons typeId typeNode typeKids _ =>
        if typeNode.kind = .TYPE_VARRAY then failAt typeNode .TYPE_MISMATCH
        else do
          let (fieldType, r) ← resolve typeId typeNode typeKids r
          resolveAnonFields rest (fieldSigs ++ [⟨field.dataStart, field.dataEnd, fieldType⟩]) r

def resolveAnonAggregate (nodeId : Int) (n : AstNode) (kids : NodeList) (r : TypeReader) : Except Diag (TypeId × TypeReader) := do
  let (fields, r) ← resolveAnonFields resolve kids [] r
  r.interned (r.table.internAnonAggregateType (n.kind = .TYPE_ANON_UNION) fields nodeId n.start n.stop)

/-- The cases of `H2TCResolveTypeNode`. -/
def resolveNode (nodeId : Int) (n : AstNode) (kids : NodeList) (r : TypeReader) : Except Diag (TypeId × TypeReader) :=
  match n.kind with
  | .TYPE_NAME => resolveTypeName resolve resolveAlias scope depth n kids r
  | .TYPE_PTR | .TYPE_REF | .TYPE_MUTREF => resolvePointer resolve n kids r
  | .TYPE_ARRAY => resolveArray resolve scope n kids r
  | .TYPE_SLICE | .TYPE_MUTSLICE => do
    let (baseType, r) ← resolveFirst resolve kids r
    r.interned (r.table.internSliceType baseType (n.kind = .TYPE_MUTSLICE) n.start n.stop)
  | .TYPE_OPTIONAL => do
    let (baseType, r) ← resolveFirst resolve kids r
    r.interned (r.table.internOptionalType baseType n.start n.stop)
  | .TYPE_FN => resolveFn resolve scope n kids r
  | .TYPE_TUPLE => resolveTuple resolve scope n kids r
  | .TYPE_ANON_STRUCT | .TYPE_ANON_UNION => resolveAnonAggregate resolve nodeId n kids r
  | _ => failAt n .EXPECTED_TYPE

/-- Marks whether the alias is being resolved. -/
def setResolving (r : TypeReader) (id : Nat) (resolving : Bool) : TypeReader :=
  let mark (t : TCType) : TCType := { t with flags := { t.flags with aliasResolving := resolving } }
  { r with table := { r.table with types := r.table.types.modify id mark } }

/-- The cases of `H2TCResolveAliasTypeId`. -/
def resolveAliasEntry (r : TypeReader) (id : TypeId) : Except Diag TypeReader :=
  match id, r.table.entry id with
  | some typeId, some t =>
    if t.kind ≠ .ALIAS ∨ t.flags.aliasResolved then .ok r
    else if t.flags.aliasResolving then failAt (r.table.ast.node t.declNode) .TYPE_MISMATCH
    else if ¬r.table.ast.inTable t.declNode then fail .UNKNOWN_TYPE 0 0
    else
      let decl := r.table.ast.node t.declNode
      match scope.declChildren t.declNode with
      | .nil => failAt decl .EXPECTED_TYPE
      | .cons targetId target targetKids _ => do
        let (targetType, r) ← resolve targetId target targetKids (setResolving r typeId true)
        if r.table.entry targetType = none ∨ targetType = some typeId then failAt decl .TYPE_MISMATCH
        else do
          let r ← resolveAlias r targetType
          let r := setResolving r typeId false
          return { r with
            table := { r.table with types := r.table.types.modify typeId (TypeTable.TCType.resolvedTo · targetType) } }
  | _, _ => fail .UNKNOWN_TYPE 0 0

end

mutual

/-- `H2TCResolveTypeNode`, up to a depth of the recursion. -/
def resolveTypeNode (scope : TypeScope) (depth : Nat) (nodeId : Int) (n : AstNode) (kids : NodeList)
    (r : TypeReader) : Except Diag (TypeId × TypeReader) :=
  match depth with
  | 0 => .error r.table.diag
  | depth + 1 =>
    resolveNode (resolveTypeNode scope depth) (resolveAliasTypeId scope depth) scope depth nodeId n kids r

/-- `H2TCResolveAliasTypeId`, up to a depth of the recursion. -/
def resolveAliasTypeId (scope : TypeScope) (depth : Nat) (r : TypeReader) (id : TypeId) : Except Diag TypeReader :=
  match depth with
  | 0 => .error r.table.diag
  | depth + 1 => resolveAliasEntry (resolveTypeNode scope depth) (resolveAliasTypeId scope depth) scope r id

end

end TypeReader

end HopHop
