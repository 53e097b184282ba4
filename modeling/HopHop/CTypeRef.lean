import HopHop.CTypeTree
import HopHop.DelimitedText

namespace HopHop.CBackend

/-! ### Type references -/

inductive ContainerKind
  | SCALAR | ARRAY | SLICE_RO | SLICE_MUT
  deriving DecidableEq, Repr

def ContainerKind.number : ContainerKind → Nat
  | SCALAR => 0
  | ARRAY => 1
  | SLICE_RO => 2
  | SLICE_MUT => 3

/-- A valid `H2TypeRef`; an invalid one is no value. -/
structure TypeRef where
  baseName : CIdent
  ptrDepth : Nat
  containerKind : ContainerKind
  containerPtrDepth : Nat
  arrayLen : Nat
  hasArrayLen : Bool
  readOnly : Bool
  isOptional : Bool
  deriving DecidableEq

namespace TypeRef

def scalar (baseName : CIdent) : TypeRef where
  baseName := baseName
  ptrDepth := 0
  containerKind := .SCALAR
  containerPtrDepth := 0
  arrayLen := 0
  hasArrayLen := false
  readOnly := false
  isOptional := false

def isPointerLike (t : TypeRef) : Bool :=
  match t.containerKind with
  | .SCALAR => 0 < t.ptrDepth
  | .ARRAY | .SLICE_RO | .SLICE_MUT => 0 < t.ptrDepth || 0 < t.containerPtrDepth

def optionalPayloadUsesNullSentinel (payload : TypeRef) : Bool :=
  payload.isPointerLike ||
    ((payload.containerKind = .SLICE_RO || payload.containerKind = .SLICE_MUT) && payload.ptrDepth = 0 &&
      payload.containerPtrDepth = 0)

def optionalPayloadType (t : TypeRef) : Option TypeRef :=
  if t.isOptional then some { t with isOptional := false } else none

def isPointerBackedOptional (t : TypeRef) : Bool := t.optionalPayloadType.any optionalPayloadUsesNullSentinel

def isTaggedOptional (t : TypeRef) : Bool := t.optionalPayloadType.any fun payload =>
  !payload.optionalPayloadUsesNullSentinel

/-- `TypeRefEqual`. -/
def equal (a b : TypeRef) : Bool :=
  a.ptrDepth = b.ptrDepth && a.containerKind = b.containerKind && a.containerPtrDepth = b.containerPtrDepth &&
    a.hasArrayLen = b.hasArrayLen && a.arrayLen = b.arrayLen && a.readOnly = b.readOnly &&
    a.isOptional = b.isOptional && a.baseName = b.baseName

theorem equal_iff {a b : TypeRef} : a.equal b = true ↔ a = b := by
  constructor
  · intro same
    simp only [equal, Bool.and_eq_true, decide_eq_true_eq] at same
    cases a
    cases b
    simp only [mk.injEq]
    exact ⟨same.2, same.1.1.1.1.1.1.1, same.1.1.1.1.1.1.2, same.1.1.1.1.1.2, same.1.1.1.2, same.1.1.1.1.2, same.1.1.2, same.1.2⟩
  · rintro rfl
    simp only [equal, decide_true, Bool.and_self]

/-- A pointer or reference to a type: on a slice it is a slice of the kind the reference gives. -/
def pointTo (isRef isReadOnlyRef : Bool) (t : TypeRef) : TypeRef :=
  match t.containerKind with
  | .ARRAY =>
    { t with containerPtrDepth := t.containerPtrDepth + 1, readOnly := isRef && isReadOnlyRef }
  | .SLICE_RO | .SLICE_MUT =>
    { t with
      containerPtrDepth := t.containerPtrDepth + 1
      containerKind := if isRef then .SLICE_RO else .SLICE_MUT
      readOnly := isRef && isReadOnlyRef }
  | .SCALAR => { t with ptrDepth := t.ptrDepth + 1, readOnly := isRef && isReadOnlyRef }

def arrayOf (len : Nat) (elem : TypeRef) : Option TypeRef :=
  if elem.containerKind = .SCALAR then
    some { elem with
      containerKind := .ARRAY
      containerPtrDepth := 0
      arrayLen := len
      hasArrayLen := true
      readOnly := false }
  else none

def sliceOf (isMutable : Bool) (elem : TypeRef) : Option TypeRef :=
  if elem.containerKind = .SCALAR then
    some { elem with
      containerKind := if isMutable then .SLICE_MUT else .SLICE_RO
      containerPtrDepth := 0
      hasArrayLen := false
      arrayLen := 0
      readOnly := !isMutable }
  else none

def varrayOf (elem : TypeRef) : Option TypeRef :=
  if elem.containerKind = .SCALAR then some { elem with ptrDepth := elem.ptrDepth + 1 } else none

def optionalOf (t : TypeRef) : TypeRef := { t with isOptional := true }

end TypeRef

/-! ### Tables of the backend -/

structure FnTypeAlias where
  aliasName : CIdent
  returnType : TypeRef
  paramTypes : List TypeRef
  isVariadic : Bool

structure AnonTypeInfo where
  key : List UInt8
  cName : CIdent
  isUnion : Bool
  fields : List (CIdent × TypeRef)

structure TypeAliasInfo where
  aliasName : CIdent
  targetType : TypeRef

structure Tables where
  fnTypeAliases : List FnTypeAlias
  anonTypes : List AnonTypeInfo
  typeAliases : List TypeAliasInfo

def Tables.empty : Tables := ⟨[], [], []⟩

/-- A literal name of the backend. -/
def CIdent.lit (s : String) (ident : (bytesOf s).all isIdentPart = true) : CIdent := ⟨bytesOf s, ident⟩

def BuiltinTypeName.cName : BuiltinTypeName → CIdent
  | .bool => .lit "__hop_bool" (by decide)
  | .str => .lit "__hop_str" (by decide)
  | .u8 => .lit "__hop_u8" (by decide)
  | .u16 => .lit "__hop_u16" (by decide)
  | .u32 => .lit "__hop_u32" (by decide)
  | .u64 => .lit "__hop_u64" (by decide)
  | .i8 => .lit "__hop_i8" (by decide)
  | .i16 => .lit "__hop_i16" (by decide)
  | .i32 => .lit "__hop_i32" (by decide)
  | .i64 => .lit "__hop_i64" (by decide)
  | .uint => .lit "__hop_uint" (by decide)
  | .int => .lit "__hop_int" (by decide)
  | .rawptr => .lit "void" (by decide)
  | .rune => .lit "__hop_u32" (by decide)
  | .const_int => .lit "__hop_int" (by decide)
  | .f32 => .lit "__hop_f32" (by decide)
  | .f64 => .lit "__hop_f64" (by decide)
  | .const_float => .lit "__hop_f64" (by decide)
  | .type => .lit "__hop_type" (by decide)
  | .anytype => .lit "__hop_u8" (by decide)

/-- `ConstEvalBuiltinCName`. -/
def ConstEvalBuiltin.cName : ConstEvalBuiltin → Option CIdent
  | .INVALID => none
  | .VOID => some (.lit "void" (by decide))
  | .BOOL => some (.lit "__hop_bool" (by decide))
  | .STR => some (.lit "__hop_str" (by decide))
  | .TYPE => some (.lit "__hop_type" (by decide))
  | .U8 => some (.lit "__hop_u8" (by decide))
  | .U16 => some (.lit "__hop_u16" (by decide))
  | .U32 => some (.lit "__hop_u32" (by decide))
  | .U64 => some (.lit "__hop_u64" (by decide))
  | .I8 => some (.lit "__hop_i8" (by decide))
  | .I16 => some (.lit "__hop_i16" (by decide))
  | .I32 => some (.lit "__hop_i32" (by decide))
  | .I64 => some (.lit "__hop_i64" (by decide))
  | .USIZE => some (.lit "__hop_uint" (by decide))
  | .ISIZE => some (.lit "__hop_int" (by decide))
  | .RAWPTR => some (.lit "void" (by decide))
  | .F32 => some (.lit "__hop_f32" (by decide))
  | .F64 => some (.lit "__hop_f64" (by decide))

def normalizeCoreRuntimeTypeName (name : CIdent) : CIdent :=
  if name.text = bytesOf "builtin__str" then .lit "__hop_str" (by decide)
  else if name.text = bytesOf "builtin__Allocator" then .lit "__hop_Allocator" (by decide)
  else if name.text = bytesOf "builtin__Logger" then .lit "__hop_Logger" (by decide)
  else if name.text = bytesOf "builtin__Context" then .lit "__hop_Context" (by decide)
  else if name.text = bytesOf "builtin__rune" then .lit "__hop_u32" (by decide)
  else name

/-- The declarations of a unit as the backend sees them: their C names, and the target of each alias. -/
structure Names (δ : Type) where
  packageName : CIdent
  cName : δ → Option CName
  target : δ → Option (TypeTree δ)

section Tables

def appendTypeRefKey (t : TypeRef) : List UInt8 :=
  let bar := bytesOf "|"
  bytesOf "T[" ++ t.baseName.text ++ bar ++ (decimal t.ptrDepth).text ++ bar ++
    (decimal t.containerKind.number).text ++ bar ++ (decimal t.containerPtrDepth).text ++ bar ++
    (decimal t.hasArrayLen.toNat).text ++ bar ++ (decimal t.arrayLen).text ++ bar ++
    (decimal t.readOnly.toNat).text ++ bar ++ (decimal t.isOptional.toNat).text ++ bytesOf "]"

def anonFieldKey (field : CIdent × TypeRef) : List UInt8 :=
  field.1.text ++ bytesOf ":" ++ appendTypeRefKey field.2 ++ bytesOf ";"

def anonTypeKey (isUnion : Bool) (fields : List (CIdent × TypeRef)) : List UInt8 :=
  bytesOf (if isUnion then "U\x7b" else "S\x7b") ++ fields.flatMap anonFieldKey ++ bytesOf "\x7d"

variable (packageName : CIdent)

def fnTypeAliasName (k : Nat) : CIdent :=
  .lit "__hop_fn_t_" (by decide) ++ packageName ++ .lit "_" (by decide) ++ decimal k

def anonTypeName (isUnion : Bool) (k : Nat) : CIdent :=
  .lit "__hop_anon_" (by decide) ++ packageName ++ .lit "_" (by decide) ++
    (if isUnion then .lit "u" (by decide) else .lit "s" (by decide)) ++ .lit "_" (by decide) ++ decimal k

/-- The name of the first alias with the same parts, or of a new one. -/
def ensureFnTypeAlias (returnType : TypeRef) (paramTypes : List TypeRef) (isVariadic : Bool) (s : Tables) :
    CIdent × Tables :=
  match s.fnTypeAliases.find? fun alias_ => alias_.returnType.equal returnType &&
      alias_.paramTypes.length = paramTypes.length && alias_.isVariadic = isVariadic &&
      (alias_.paramTypes.zipWith TypeRef.equal paramTypes).all id with
  | some alias_ => (alias_.aliasName, s)
  | none =>
    let aliasName := fnTypeAliasName packageName s.fnTypeAliases.length
    (aliasName,
      { s with fnTypeAliases := s.fnTypeAliases ++ [⟨aliasName, returnType, paramTypes, isVariadic⟩] })

def ensureAnonTypeByFields (isUnion : Bool) (fields : List (CIdent × TypeRef)) (s : Tables) : CIdent × Tables :=
  match s.anonTypes.find? fun info => info.key = anonTypeKey isUnion fields with
  | some info => (info.cName, s)
  | none =>
    let cName := anonTypeName packageName isUnion s.anonTypes.length
    (cName, { s with anonTypes := s.anonTypes ++ [⟨anonTypeKey isUnion fields, cName, isUnion, fields⟩] })

/-- A tagged optional is stored as a tag and its payload. -/
def typeRefLowerForStorage (t : TypeRef) (s : Tables) : TypeRef × Tables :=
  if t.isTaggedOptional then
    let lowered := ensureAnonTypeByFields packageName false
      [(.lit "__hop_tag" (by decide), .scalar (.lit "__hop_u8" (by decide))),
        (.lit "__hop_value" (by decide), { t with isOptional := false })] s
    (.scalar lowered.1, lowered.2)
  else (t, s)

def findTypeAliasInfoByAliasName (s : Tables) (aliasName : CIdent) : Option TypeAliasInfo :=
  s.typeAliases.find? fun info => info.aliasName = aliasName

def addTypeAliasInfo (aliasName : CIdent) (targetType : TypeRef) (s : Tables) : Tables :=
  if (findTypeAliasInfoByAliasName s aliasName).isSome then s
  else { s with typeAliases := s.typeAliases ++ [⟨aliasName, targetType⟩] }

def TypeRef.isPlain (t : TypeRef) : Bool :=
  t.containerKind = .SCALAR && t.ptrDepth = 0 && t.containerPtrDepth = 0 && !t.isOptional

/-- The loop of `ResolveScalarAliasBaseName`, with the number of rounds its guard leaves. -/
def resolveAlias (s : Tables) : Nat → CIdent → CIdent
  | 0, typeName => typeName
  | rounds + 1, typeName =>
    match findTypeAliasInfoByAliasName s typeName with
    | some info => if info.targetType.isPlain then resolveAlias s rounds info.targetType.baseName else typeName
    | none => typeName

def resolveScalarAliasBaseName (s : Tables) (typeName : CIdent) : CIdent :=
  resolveAlias s (s.typeAliases.length + 1) typeName

def canonicalizeTypeRefBaseName (s : Tables) (t : TypeRef) : TypeRef :=
  { t with baseName := resolveScalarAliasBaseName s t.baseName }

end Tables

/-! ### ParseTypeRef -/

section Parse

variable {δ : Type} (names : Names δ)

def leafTypeRef : Leaf δ → Option TypeRef
  | .declared d => (names.cName d).map fun name => .scalar (normalizeCoreRuntimeTypeName name.toCIdent)
  | .builtin b => some { TypeRef.scalar b.cName with ptrDepth := if b = .rawptr then 1 else 0 }
  | .constBuiltin k => k.cName.map fun name => { TypeRef.scalar name with ptrDepth := if k = .RAWPTR then 1 else 0 }
  | .UNTYPED_INT => some (.scalar (.lit "__hop_int" (by decide)))
  | .UNTYPED_FLOAT => some (.scalar (.lit "__hop_f64" (by decide)))

def parseTypeRefFromConstEvalTypeId : TypeValue δ → Option TypeRef
  | .BUILTIN k => leafTypeRef names (.constBuiltin k)
  | .NAMED d => leafTypeRef names (.declared d)
  | .PTR base => (parseTypeRefFromConstEvalTypeId base).map (TypeRef.pointTo false false)
  | .REF isMutable base => (parseTypeRefFromConstEvalTypeId base).map (TypeRef.pointTo true !isMutable)
  | .ARRAY arrayLen base => (parseTypeRefFromConstEvalTypeId base).bind (TypeRef.arrayOf arrayLen.toNat)
  | .SLICE isMutable base => (parseTypeRefFromConstEvalTypeId base).bind (TypeRef.sliceOf isMutable)
  | .OPTIONAL base => (parseTypeRefFromConstEvalTypeId base).map TypeRef.optionalOf
  | .UNTYPED_INT => leafTypeRef names .UNTYPED_INT
  | .UNTYPED_FLOAT => leafTypeRef names .UNTYPED_FLOAT
  | .INVALID => none

/-- The length of an array, which has to fit 32 bits. -/
def arrayLenValue (len : Option Int) : Option Nat :=
  len.bind fun n => if 0 ≤ n ∧ n ≤ 0xFFFFFFFF then some n.toNat else none

def tupleFieldName (index : Nat) : CIdent := .lit "__hop_t" (by decide) ++ decimal index

/-- What is parsed, with the tables after it; a failure leaves them as far as it came. -/
abbrev Parsed (α : Type) : Type := Option α × Tables

/-- Goes on with a parsed value. -/
def Parsed.andThen {α β : Type} (first : Parsed α) (next : α → Tables → Parsed β) : Parsed β :=
  match first with
  | (some a, s) => next a s
  | (none, s) => (none, s)

mutual

def parseTypeRef : TypeTree δ → Tables → Parsed TypeRef
  | .TYPE_NAME l, s => (leafTypeRef names l, s)
  | .TYPE_VALUE v, s => (parseTypeRefFromConstEvalTypeId names v, s)
  | .TYPE_PTR child, s => (parseTypeRef child s).andThen fun t s => (some (t.pointTo false false), s)
  | .TYPE_REF child, s => (parseTypeRef child s).andThen fun t s => (some (t.pointTo true true), s)
  | .TYPE_MUTREF child, s => (parseTypeRef child s).andThen fun t s => (some (t.pointTo true false), s)
  | .TYPE_ARRAY len child, s =>
    (parseTypeRef child s).andThen fun elem s => ((arrayLenValue len).bind fun n => elem.arrayOf n, s)
  | .TYPE_VARRAY _ child, s => (parseTypeRef child s).andThen fun elem s => (elem.varrayOf, s)
  | .TYPE_SLICE child, s => (parseTypeRef child s).andThen fun elem s => (elem.sliceOf false, s)
  | .TYPE_MUTSLICE child, s => (parseTypeRef child s).andThen fun elem s => (elem.sliceOf true, s)
  | .TYPE_OPTIONAL child, s =>
    (parseTypeRef child s).andThen fun t s =>
      (some t.optionalOf, (typeRefLowerForStorage names.packageName t.optionalOf s).2)
  | .TYPE_FN children, s =>
    (parseFnChildren children false s).andThen fun (paramTypes, isVariadic, returnType) s =>
      let alias_ := ensureFnTypeAlias names.packageName returnType paramTypes isVariadic s
      (some (.scalar alias_.1), alias_.2)
  | .TYPE_TUPLE items, s =>
    (parseTypeItems items 0 s).andThen fun fields s =>
      if fields.length < 2 then (none, s)
      else
        let anon := ensureAnonTypeByFields names.packageName false fields s
        (some (.scalar anon.1), anon.2)
  | .TYPE_ANON isUnion fields, s =>
    (parseTypeFields fields 0 s).andThen fun fields s =>
      let anon := ensureAnonTypeByFields names.packageName isUnion fields s
      (some (.scalar anon.1), anon.2)

/-- The types of the parameters, whether the last is variadic, and the type of the result. -/
def parseFnChildren : FnChildren δ → Bool → Tables → Parsed (List TypeRef × Bool × TypeRef)
  | .none, isVariadic, s => (some ([], isVariadic, .scalar (.lit "void" (by decide))), s)
  | .result t, isVariadic, s => (parseTypeRef t s).andThen fun t s => (some ([], isVariadic, t), s)
  | .param _ isVariadicParam t rest, isVariadic, s =>
    (parseTypeRef t s).andThen fun t s =>
      if isVariadic then (none, s)
      else
        match if isVariadicParam then t.sliceOf false else some t with
        | none => (none, s)
        | some paramType =>
          (parseFnChildren rest isVariadicParam s).andThen fun (paramTypes, isVariadic, returnType) s =>
            (some (paramType :: paramTypes, isVariadic, returnType), s)

def parseTypeItems : TypeItems δ → Nat → Tables → Parsed (List (CIdent × TypeRef))
  | .nil, _, s => (some [], s)
  | .cons t rest, index, s =>
    if 256 ≤ index then (none, s)
    else
      (parseTypeRef t s).andThen fun t s =>
        let field := (tupleFieldName index, canonicalizeTypeRefBaseName s t)
        (parseTypeItems rest (index + 1) s).andThen fun fields s => (some (field :: fields), s)

def parseTypeFields : TypeFields δ → Nat → Tables → Parsed (List (CIdent × TypeRef))
  | .nil, _, s => (some [], s)
  | .cons name t rest, index, s =>
    if 256 ≤ index then (none, s)
    else
      (parseTypeRef t s).andThen fun t s =>
        let field := (name.toCIdent, canonicalizeTypeRefBaseName s t)
        (parseTypeFields rest (index + 1) s).andThen fun fields s => (some (field :: fields), s)

end

end Parse

end HopHop.CBackend
