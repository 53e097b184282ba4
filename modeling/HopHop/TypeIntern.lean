import HopHop.TypeTable

namespace HopHop.TypeTable

/-- `H2TCFailSpan`. -/
def failSpan (c : TypeTable) (code : DiagCode) (errStart errEnd : Nat) : TypeId × TypeTable :=
  (none, { c with diag := ⟨code, errStart, errEnd⟩ })

def addType (c : TypeTable) (t : TCType) (errStart errEnd : Nat) : TypeId × TypeTable :=
  if c.typeCap ≤ c.types.length then c.failSpan .ARENA_OOM errStart errEnd
  else (some c.types.length, { c with types := c.types ++ [t] })

/-- What the intern functions have in common: the first entry that is the same type, or a new one. -/
def internType (c : TypeTable) (same : TCType → Bool) (t : TCType) (errStart errEnd : Nat) : TypeId × TypeTable :=
  match c.types.findIdx? same with
  | some i => (some i, c)
  | none => c.addType t errStart errEnd

def internPtrType (c : TypeTable) (baseType : TypeId) (errStart errEnd : Nat) : TypeId × TypeTable :=
  c.internType (fun t => t.kind = .PTR ∧ t.baseType = baseType) { TCType.blank .PTR with baseType } errStart errEnd

def internRefType (c : TypeTable) (baseType : TypeId) (isMutable : Bool) (errStart errEnd : Nat) :
    TypeId × TypeTable :=
  c.internType (fun t => t.kind = .REF ∧ t.baseType = baseType ∧ t.isMutable = isMutable)
    { TCType.blank .REF with baseType, flags := { TCTypeFlags.none with mutable := isMutable } } errStart errEnd

def internArrayType (c : TypeTable) (baseType : TypeId) (arrayLen : UInt32) (errStart errEnd : Nat) :
    TypeId × TypeTable :=
  c.internType (fun t => t.kind = .ARRAY ∧ t.baseType = baseType ∧ t.arrayLen = arrayLen)
    { TCType.blank .ARRAY with baseType, arrayLen } errStart errEnd

def internSliceType (c : TypeTable) (baseType : TypeId) (isMutable : Bool) (errStart errEnd : Nat) :
    TypeId × TypeTable :=
  c.internType (fun t => t.kind = .SLICE ∧ t.baseType = baseType ∧ t.isMutable = isMutable)
    { TCType.blank .SLICE with baseType, flags := { TCTypeFlags.none with mutable := isMutable } } errStart errEnd

def internOptionalType (c : TypeTable) (baseType : TypeId) (errStart errEnd : Nat) : TypeId × TypeTable :=
  c.internType (fun t => t.kind = .OPTIONAL ∧ t.baseType = baseType) { TCType.blank .OPTIONAL with baseType }
    errStart errEnd

/-- A field of an anonymous aggregate: the range of its name, and its type. -/
structure AnonFieldSig where
  nameStart : Nat
  nameEnd : Nat
  typeId : TypeId
  deriving DecidableEq, Repr

def AnonFieldSig.toField (sig : AnonFieldSig) : TCField := ⟨sig.nameStart, sig.nameEnd, sig.typeId, false, false⟩

/-- The fields of an aggregate as the intern function compares them: the bytes of the names, and the types. -/
def signature (c : TypeTable) (fields : List TCField) : List (List UInt8 × TypeId) :=
  fields.map fun f => (c.nameOf f.nameStart f.nameEnd, f.typeId)

def anonKind (isUnion : Bool) : TCTypeKind := if isUnion then .ANON_UNION else .ANON_STRUCT

def internAnonAggregateType (c : TypeTable) (isUnion : Bool) (fields : List AnonFieldSig) (declNode : Int)
    (errStart errEnd : Nat) : TypeId × TypeTable :=
  let newFields := fields.map AnonFieldSig.toField
  if 0xFFFF < fields.length then c.failSpan .ARENA_OOM errStart errEnd
  else
    match c.types.findIdx? fun t => t.kind = anonKind isUnion ∧ t.fieldCount = fields.length
        ∧ c.signature (c.fieldsOf t) = c.signature newFields with
    | some i => (some i, c)
    | none =>
      if c.fieldCap < c.fields.length + fields.length then c.failSpan .ARENA_OOM errStart errEnd
      else
        let t := { TCType.blank (anonKind isUnion) with
          declNode, fieldStart := c.fields.length, fieldCount := fields.length }
        match c.addType t errStart errEnd with
        | (none, c) => (none, c)
        | (some typeId, c) => (some typeId, { c with fields := c.fields ++ newFields })

/-- The parameters of a new function, tuple or pack go to the parameter array before the entry is added. -/
def addTypeWithParams (c : TypeTable) (t : TCType) (params : List FuncParam) (errStart errEnd : Nat) :
    TypeId × TypeTable :=
  if c.funcParamCap < c.funcParams.length + params.length then c.failSpan .ARENA_OOM errStart errEnd
  else
    addType { c with funcParams := c.funcParams ++ params }
      { t with fieldStart := c.funcParams.length, fieldCount := params.length } errStart errEnd

def functionTypeMatchesSignature (c : TypeTable) (t : TCType) (returnType : TypeId) (params : List FuncParam)
    (isVariadic : Bool) : Bool :=
  t.kind = .FUNCTION ∧ t.baseType = returnType ∧ t.fieldCount = params.length
    ∧ t.flags.functionVariadic = isVariadic ∧ c.componentsOf t = params

/-- The entry takes the first function that is known to have its type. -/
def TCType.noteFunction (t : TCType) (funcIndex : Option Nat) : TCType :=
  if funcIndex.isSome ∧ t.funcIndex = none then { t with funcIndex } else t

def internFunctionType (c : TypeTable) (returnType : TypeId) (params : List FuncParam) (isVariadic : Bool)
    (funcIndex : Option Nat) (errStart errEnd : Nat) : TypeId × TypeTable :=
  if 0xFFFF < params.length then c.failSpan .ARENA_OOM errStart errEnd
  else
    match c.types.findIdx? fun t => c.functionTypeMatchesSignature t returnType params isVariadic with
    | some i => (some i, { c with types := c.types.modify i (TCType.noteFunction · funcIndex) })
    | none =>
      c.addTypeWithParams
        { TCType.blank .FUNCTION with
          baseType := returnType, funcIndex, flags := { TCTypeFlags.none with functionVariadic := isVariadic } }
        params errStart errEnd

def elemParams (elemTypes : List TypeId) : List FuncParam := elemTypes.map fun elem => ⟨elem, false⟩

/-- The entry is the tuple or the pack of these elements. -/
def elemsMatch (c : TypeTable) (kind : TCTypeKind) (elemTypes : List TypeId) (t : TCType) : Bool :=
  t.kind = kind ∧ t.fieldCount = elemTypes.length ∧ (c.componentsOf t).map FuncParam.typeId = elemTypes

def internTupleType (c : TypeTable) (elemTypes : List TypeId) (errStart errEnd : Nat) : TypeId × TypeTable :=
  if elemTypes.length < 2 ∨ 0xFFFF < elemTypes.length then c.failSpan .EXPECTED_TYPE errStart errEnd
  else
    match c.types.findIdx? (c.elemsMatch .TUPLE elemTypes) with
    | some i => (some i, c)
    | none => c.addTypeWithParams (TCType.blank .TUPLE) (elemParams elemTypes) errStart errEnd

def internPackType (c : TypeTable) (elemTypes : List TypeId) (errStart errEnd : Nat) : TypeId × TypeTable :=
  match c.types.findIdx? (c.elemsMatch .PACK elemTypes) with
  | some i => (some i, c)
  | none =>
    if 0xFFFF < elemTypes.length then c.failSpan .ARENA_OOM errStart errEnd
    else c.addTypeWithParams (TCType.blank .PACK) (elemParams elemTypes) errStart errEnd

/-- The built-in types that stand at the front of every table, with their names. -/
def builtinTypes : List (String × BuiltinKind) :=
  [("void", .VOID), ("bool", .BOOL), ("type", .TYPE), ("u8", .U8), ("u16", .U16), ("u32", .U32), ("u64", .U64),
    ("i8", .I8), ("i16", .I16), ("i32", .I32), ("i64", .I64), ("uint", .USIZE), ("int", .ISIZE),
    ("rawptr", .RAWPTR), ("f32", .F32), ("f64", .F64), ("str", .INVALID)]

def builtinType (name : String) (builtin : BuiltinKind) : TCType :=
  { TCType.blank .BUILTIN with builtin, nameEnd := name.length }

/-- The type `rune`, an alias of `u32`. -/
def runeType : TCType :=
  { TCType.blank .ALIAS with
    baseType := builtinTypes.findIdx? (·.2 = .U32), flags := { TCTypeFlags.none with aliasResolved := true } }

/-- The table that `H2TCEnsureInitialized` leaves, for room measured by `capBase`, the number of nodes or 32 if that
is more. -/
def initial (src : List UInt8) (ast : Ast) (capBase : Nat) : TypeTable where
  src := src
  ast := ast
  types := builtinTypes.map (fun b => builtinType b.1 b.2)
    ++ [runeType, .blank .ANYTYPE, .blank .UNTYPED_INT, .blank .UNTYPED_FLOAT, .blank .NULL]
  typeCap := capBase * 4
  fields := []
  fieldCap := capBase * 4
  namedTypes := []
  namedTypeCap := capBase
  funcParams := []
  funcParamCap := capBase * 8
  genericArgTypes := []
  genericArgCap := capBase * 16
  typeVoid := builtinTypes.findIdx? (·.2 = .VOID)
  typeBool := builtinTypes.findIdx? (·.2 = .BOOL)
  typeStr := builtinTypes.findIdx? (·.1 = "str")
  typeType := builtinTypes.findIdx? (·.2 = .TYPE)
  typeRawptr := builtinTypes.findIdx? (·.2 = .RAWPTR)
  typeUntypedInt := some (builtinTypes.length + 2)
  typeUntypedFloat := some (builtinTypes.length + 3)
  typeAnytype := some (builtinTypes.length + 1)
  diag := ⟨.NONE, 0, 0⟩

end HopHop.TypeTable
