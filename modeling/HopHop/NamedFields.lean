import HopHop.TypeAssign
import HopHop.TypeResolve

namespace HopHop.TypeReader

/-- The codes of the errors: those of the reader of types, and the ones that only fields have. -/
inductive FieldCode
  | common (code : DiagCode)
  | EMBEDDED_TYPE_NOT_STRUCT | MULTIPLE_EMBEDDED_FIELDS | EMBEDDED_FIELD_NOT_FIRST | FIELD_DEFAULTS_STRUCT_ONLY
  | FIELD_DEFAULT_TYPE_MISMATCH | DUPLICATE_DEFINITION
  deriving DecidableEq, Repr

structure FieldDiag where
  code : FieldCode
  start : Nat
  stop : Nat
  deriving DecidableEq, Repr

def refuseField {α : Type} (code : FieldCode) (start stop : Nat) : Except FieldDiag α := .error ⟨code, start, stop⟩

def refuseNode {α : Type} (n : AstNode) (code : DiagCode) : Except FieldDiag α := refuseField (.common code) n.start n.stop

/-- An error of the reader of types. -/
def ofType {α : Type} : Except Diag α → Except FieldDiag α
  | .ok a => .ok a
  | .error diag => refuseField (.common diag.code) diag.start diag.stop

/-- What reading the fields takes from elsewhere: the reading of types in a declaration, up to a depth of the recursion,
and the types of default values. -/
structure FieldScope where
  types : NamedType → TypeScope
  depth : Nat
  typeExprExpected : Int → AstNode → NodeList → TypeId → TypeReader → Except Diag (TypeId × TypeReader)

/-- The fields that have been read of a declaration. -/
structure PendingFields where
  fields : List TCField
  sawDependent : Bool
  sawEmbedded : Bool

section

variable (scope : FieldScope) (nt : NamedType)

def resolveFieldType (typeNodeId : Int) (typeNode : AstNode) (typeKids : NodeList) (r : TypeReader) :
    Except FieldDiag (TypeId × TypeReader) :=
  ofType (resolveTypeNode (scope.types nt) scope.depth typeNodeId typeNode typeKids r)

/-- `H2TCResolveAliasBaseType`, which resolves the aliases it meets. -/
def resolveAliasBase : Nat → TypeId → TypeReader → Except FieldDiag (TypeId × TypeReader)
  | 0, id, r => .ok (id, r)
  | steps + 1, id, r =>
    match r.table.entry id with
    | none => .ok (id, r)
    | some t =>
      if t.kind ≠ .ALIAS then .ok (id, r)
      else do
        let r ← ofType (resolveAliasTypeId (scope.types nt) scope.depth r id)
        resolveAliasBase steps ((r.table.entry id).bind TCType.baseType) r

/-- The type of an embedded field, which is a struct. -/
def embeddedFieldType (kind : AstKind) (n : AstNode) (typeNodeId : Int) (typeNode : AstNode) (typeKids : NodeList)
    (pending : PendingFields) (r : TypeReader) : Except FieldDiag (TypeId × TypeReader) := do
  if kind ≠ .STRUCT then refuseField .EMBEDDED_TYPE_NOT_STRUCT n.dataStart n.dataEnd
  else if pending.sawEmbedded then refuseField .MULTIPLE_EMBEDDED_FIELDS n.dataStart n.dataEnd
  else if pending.fields ≠ [] then refuseField .EMBEDDED_FIELD_NOT_FIRST n.dataStart n.dataEnd
  else if pending.sawDependent then refuseNode typeNode .TYPE_MISMATCH
  else
    let (typeId, r) ← resolveFieldType scope nt typeNodeId typeNode typeKids r
    let (embedType, r) ← resolveAliasBase scope nt (r.table.types.length + 1) typeId r
    match r.table.entry embedType with
    | none => refuseField .EMBEDDED_TYPE_NOT_STRUCT n.dataStart n.dataEnd
    | some t =>
      if t.kind = .NAMED ∧ r.table.declKind t = some .STRUCT ∨ t.kind = .ANON_STRUCT then return (embedType, r)
      else refuseField .EMBEDDED_TYPE_NOT_STRUCT n.dataStart n.dataEnd

/-- The type of a trailing array, whose length is in a field before it. -/
def dependentFieldType (kind : AstKind) (n : AstNode) (typeNode : AstNode) (typeKids : NodeList)
    (pending : PendingFields) (r : TypeReader) : Except FieldDiag (TypeId × TypeReader) :=
  if kind ≠ .STRUCT then refuseNode typeNode .TYPE_MISMATCH
  else
    let name := r.table.nameOf typeNode.dataStart typeNode.dataEnd
    match (pending.fields.find? fun f => ¬f.dependent ∧ r.table.nameOf f.nameStart f.nameEnd = name).bind TCField.typeId with
    | none => refuseField (.common .UNKNOWN_SYMBOL) typeNode.dataStart typeNode.dataEnd
    | some lenFieldType =>
      if r.table.isIntegerType (some lenFieldType) = false then
        refuseField (.common .TYPE_MISMATCH) typeNode.dataStart typeNode.dataEnd
      else
        match typeKids with
        | .nil => refuseNode typeNode .EXPECTED_TYPE
        | .cons elemNodeId elemNode elemKids _ => do
          let (elemType, r) ← resolveFieldType scope nt elemNodeId elemNode elemKids r
          ofType (r.interned (r.table.internPtrType elemType n.start n.stop))

/-- The type of a field, and whether the field is a trailing array or an embedded one. -/
def fieldType (kind : AstKind) (n : AstNode) (kids : NodeList) (pending : PendingFields) (r : TypeReader) :
    Except FieldDiag ((TypeId × Bool × Bool) × TypeReader) :=
  if kind = .ENUM then .ok ((some nt.typeId, false, false), r)
  else
    match kids with
    | .nil => refuseNode n .EXPECTED_TYPE
    | .cons typeNodeId typeNode typeKids _ => do
      if n.has AstFlag.FIELD_EMBEDDED then
        let (typeId, r) ← embeddedFieldType scope nt kind n typeNodeId typeNode typeKids pending r
        return ((typeId, false, true), r)
      else if typeNode.kind = .TYPE_VARRAY then
        let (typeId, r) ← dependentFieldType scope nt kind n typeNode typeKids pending r
        return ((typeId, true, false), r)
      else if pending.sawDependent then refuseNode typeNode .TYPE_MISMATCH
      else
        let (typeId, r) ← resolveFieldType scope nt typeNodeId typeNode typeKids r
        return ((typeId, false, false), r)

/-- The check of a default value. -/
def checkFieldDefault (kind : AstKind) (n : AstNode) (kids : NodeList) (typeId : TypeId) (r : TypeReader) :
    Except FieldDiag TypeReader :=
  match kids with
  | .cons _ _ _ (.cons defaultId defaultNode defaultKids _) =>
    if (kind = .STRUCT ∨ kind = .UNION) ∧ ¬(0 < nt.templateArgCount ∧ nt.templateRootNamedIndex < 0) then
      if kind ≠ .STRUCT then refuseNode' defaultNode
      else do
        let (defaultType, r) ← ofType (scope.typeExprExpected defaultId defaultNode defaultKids typeId r)
        if r.table.canAssign typeId defaultType then return r
        else refuseField .FIELD_DEFAULT_TYPE_MISMATCH defaultNode.start defaultNode.stop
    else .ok r
  | _ => .ok r
where
  refuseNode' (n : AstNode) : Except FieldDiag TypeReader := refuseField .FIELD_DEFAULTS_STRUCT_ONLY n.start n.stop

/-- The loop of `H2TCResolveNamedTypeFields` over the children of a declaration. -/
def readFields (kind : AstKind) : NodeList → PendingFields → TypeReader → Except FieldDiag (PendingFields × TypeReader)
  | .nil, pending, r => .ok (pending, r)
  | .cons _ n kids rest, pending, r =>
    if n.kind = .FIELD ∧ (kind = .STRUCT ∨ kind = .UNION ∨ kind = .ENUM) then do
      let ((typeId, dependent, embedded), r) ← fieldType scope nt kind n kids pending r
      let name := r.table.nameOf n.dataStart n.dataEnd
      let nested := r.table.namedTypes.find? fun other =>
        (kind = .STRUCT ∨ kind = .UNION) ∧ other.ownerTypeId = some nt.typeId ∧
          r.table.nameOf other.nameStart other.nameEnd = name
      if let some other := nested then
        -- The definition that comes second is the duplicate.
        if n.dataStart < other.nameStart then refuseField .DUPLICATE_DEFINITION other.nameStart other.nameEnd
        else refuseField .DUPLICATE_DEFINITION n.dataStart n.dataEnd
      else if pending.fields.any fun f => r.table.nameOf f.nameStart f.nameEnd = name then
        refuseField .DUPLICATE_DEFINITION n.dataStart n.dataEnd
      else
        let r ← checkFieldDefault scope nt kind n kids typeId r
        readFields kind rest
          ⟨pending.fields ++ [⟨n.dataStart, n.dataEnd, typeId, dependent, embedded⟩], pending.sawDependent || dependent,
            pending.sawEmbedded || embedded⟩ r
    else readFields kind rest pending r

/-- Puts the fields of a declared type at the end of the field array. -/
def setFields (r : TypeReader) (fields : List TCField) : Except FieldDiag TypeReader :=
  let c := r.table
  if c.fieldCap < c.fields.length + fields.length then refuseNode (c.ast.node nt.declNode) .ARENA_OOM
  else
    .ok { r with table := { c with
      fields := c.fields ++ fields
      types := c.types.modify nt.typeId fun t => { t with fieldStart := c.fields.length, fieldCount := fields.length } } }

def resolveNamedTypeFields (r : TypeReader) : Except FieldDiag TypeReader :=
  let kind := (r.table.ast.node nt.declNode).kind
  if kind = .TYPE_ALIAS then .ok r
  else do
    let (pending, r) ← readFields scope nt kind ((scope.types nt).declChildren nt.declNode) ⟨[], false, false⟩ r
    setFields nt r pending.fields

end

section

variable (scope : FieldScope)

/-- `H2TCEnsureNamedTypeFieldsResolved`, for the declaration of a generic type. -/
def ensureRootFieldsResolved (root : NamedType) (r : TypeReader) : Except FieldDiag TypeReader :=
  let kind := (r.table.ast.node root.declNode).kind
  if ((r.table.types[root.typeId]?).map TCType.fieldCount) = some 0 ∧ kind ≠ .TYPE_ALIAS ∧ kind ≠ .ENUM then
    resolveNamedTypeFields scope root r
  else .ok r

/-- The types of the fields of an instance. -/
def substituteFields (root nt : NamedType) : List TCField → TypeReader → Except FieldDiag (List TCField × TypeReader)
  | [], r => .ok ([], r)
  | f :: fields, r =>
    match TypeTable.substituteType scope.depth r.table f.typeId (r.table.templateArgs root) (r.table.templateArgs nt)
        f.nameStart f.nameEnd with
    | none => refuseField (.common .ARENA_OOM) f.nameStart f.nameEnd
    | some (none, c) => refuseField (.common c.diag.code) c.diag.start c.diag.stop
    | some (some typeId, c) => do
      let (rest, r) ← substituteFields root nt fields { r with table := c }
      return ({ f with typeId := some typeId } :: rest, r)

def resolveNamedTypeInstanceFields (nt : NamedType) (r : TypeReader) : Except FieldDiag TypeReader :=
  match r.table.namedTypes[nt.templateRootNamedIndex.toNatClampNeg]? with
  | none => .ok r
  | some root => do
    let r ← ensureRootFieldsResolved scope root r
    let fields := ((r.table.types[root.typeId]?).map r.table.fieldsOf).getD []
    let (fields, r) ← substituteFields scope root nt fields r
    setFields nt r fields

/-- One of the loops of `H2TCResolveAllNamedTypeFields`; reading the fields may declare more types, which the loop meets
too. -/
def resolveEach (chosen : NamedType → Bool) (resolve : NamedType → TypeReader → Except FieldDiag TypeReader) :
    Nat → Nat → TypeReader → Except FieldDiag TypeReader
  | 0, _, r => .ok r
  | left + 1, i, r =>
    match r.table.namedTypes[i]? with
    | none => .ok r
    | some nt =>
      if chosen nt then do
        let r ← resolve nt r
        resolveEach chosen resolve left (i + 1) r
      else resolveEach chosen resolve left (i + 1) r

def resolveAllNamedTypeFields (r : TypeReader) : Except FieldDiag TypeReader := do
  let r ← resolveEach (fun nt => nt.templateRootNamedIndex < 0) (resolveNamedTypeFields scope) (r.table.namedTypeCap + 1) 0 r
  resolveEach (fun nt => 0 ≤ nt.templateRootNamedIndex) (resolveNamedTypeInstanceFields scope) (r.table.namedTypeCap + 1) 0 r

def resolveAllTypeAliases (r : TypeReader) : Except FieldDiag TypeReader :=
  resolveEach (fun _ => true) (fun nt r =>
    if ((r.table.types[nt.typeId]?).map TCType.kind) = some .ALIAS then
      ofType (resolveAliasTypeId (scope.types nt) scope.depth r (some nt.typeId))
    else .ok r) (r.table.namedTypeCap + 1) 0 r

end

end HopHop.TypeReader
