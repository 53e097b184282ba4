import HopHop.Ast
import HopHop.Bytes

namespace HopHop

/-- Kinds of an entry of the type table, in the order of the source enumeration. -/
inductive TCTypeKind
  | INVALID | BUILTIN | NAMED | ALIAS | ANON_STRUCT | ANON_UNION | PTR | REF | ARRAY | SLICE
  | UNTYPED_INT | UNTYPED_FLOAT | FUNCTION | TUPLE | PACK | TYPE_PARAM | ANYTYPE | OPTIONAL | NULL
  deriving DecidableEq, Repr

inductive BuiltinKind
  | INVALID | VOID | BOOL | STR | TYPE | U8 | U16 | U32 | U64 | I8 | I16 | I32 | I64 | USIZE | ISIZE
  | RAWPTR | F32 | F64
  deriving DecidableEq, Repr

/-- The number of a type: an index into the table, or the `-1` of the source. -/
abbrev TypeId := Option Nat

/-- The bits of `H2TCType.flags` that the modelled functions read. -/
structure TCTypeFlags where
  mutable : Bool
  functionVariadic : Bool
  aliasResolving : Bool
  aliasResolved : Bool
  deriving DecidableEq, Repr

def TCTypeFlags.none : TCTypeFlags := ⟨false, false, false, false⟩

/-- An entry of the type table. The components of a function, tuple or pack stand in the parameter array, the fields
of an aggregate in the field array, each from `fieldStart` on. -/
structure TCType where
  kind : TCTypeKind
  builtin : BuiltinKind
  baseType : TypeId
  declNode : Int
  funcIndex : Option Nat
  arrayLen : UInt32
  nameStart : Nat
  nameEnd : Nat
  fieldStart : Nat
  fieldCount : Nat
  flags : TCTypeFlags
  deriving DecidableEq, Repr

/-- An entry of the given kind with nothing else filled in. -/
def TCType.blank (kind : TCTypeKind) : TCType :=
  ⟨kind, .INVALID, Option.none, -1, Option.none, 0, 0, 0, 0, 0, .none⟩

structure TCField where
  nameStart : Nat
  nameEnd : Nat
  typeId : TypeId
  dependent : Bool
  embedded : Bool
  deriving DecidableEq, Repr

/-- A slot of the parallel parameter arrays `funcParamTypes` and `funcParamFlags`. -/
structure FuncParam where
  typeId : TypeId
  isConst : Bool
  deriving DecidableEq, Repr

/-- A declared type or an instance of a generic one. -/
structure NamedType where
  nameStart : Nat
  nameEnd : Nat
  typeId : Nat
  declNode : Int
  ownerTypeId : TypeId
  templateArgStart : Nat
  templateArgCount : Nat
  /-- Index of the generic declaration an instance belongs to, a 16-bit number; negative for a declaration. -/
  templateRootNamedIndex : Int16
  deriving DecidableEq, Repr

/-- The part of `H2TypeCheckCtx` that types are kept in. -/
structure TypeTable where
  src : List UInt8
  ast : Ast
  types : List TCType
  typeCap : Nat
  fields : List TCField
  fieldCap : Nat
  namedTypes : List NamedType
  namedTypeCap : Nat
  funcParams : List FuncParam
  funcParamCap : Nat
  genericArgTypes : List TypeId
  genericArgCap : Nat
  typeVoid : TypeId
  typeBool : TypeId
  typeStr : TypeId
  typeType : TypeId
  typeRawptr : TypeId
  typeUntypedInt : TypeId
  typeUntypedFloat : TypeId
  typeAnytype : TypeId
  diag : Diag
  deriving Repr

namespace TypeTable

section

variable (c : TypeTable)

/-- `c->types[id]`, where the id is in range. -/
def entry (id : TypeId) : Option TCType := id.bind (c.types[·]?)

/-- The bytes of a name. -/
def nameOf (start stop : Nat) : List UInt8 := (c.src.drop start).take (stop - start)

/-- The component types of a function, tuple or pack entry. -/
def componentsOf (t : TCType) : List FuncParam := (c.funcParams.drop t.fieldStart).take t.fieldCount

/-- The fields of an aggregate entry. -/
def fieldsOf (t : TCType) : List TCField := (c.fields.drop t.fieldStart).take t.fieldCount

/-- The kind of the declaration node of an entry. -/
def declKind (t : TCType) : Option AstKind :=
  if c.ast.inTable t.declNode then some (c.ast.node t.declNode).kind else none

def findBuiltinByKind (builtin : BuiltinKind) : TypeId :=
  c.types.findIdx? fun t => t.kind = .BUILTIN ∧ t.builtin = builtin

/-- The loop of `H2TCResolveAliasBaseType`. Declared aliases are resolved before any value is typed
(`H2TCResolveAllTypeAliases`), so one that is not marked resolved here is one whose resolution fails. -/
def resolveAliasFrom : Nat → TypeId → TypeId
  | 0, id => id
  | depth + 1, id =>
    match c.entry id with
    | none => id
    | some t =>
      if t.kind ≠ .ALIAS then id
      else if t.flags.aliasResolved then resolveAliasFrom depth t.baseType
      else none

def resolveAliasBaseType (id : TypeId) : TypeId := c.resolveAliasFrom (c.types.length + 1) id

end

end TypeTable

/-- `H2TCTypeIsMutable`. -/
def TCType.isMutable (t : TCType) : Bool :=
  if t.kind = .PTR then true else t.flags.mutable

end HopHop
