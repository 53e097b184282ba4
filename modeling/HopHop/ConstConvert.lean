import HopHop.CallTypes
import HopHop.CTFEArith
import HopHop.FloatFormat

namespace HopHop

/-- A value of type `double`. -/
inductive Double
  | finite (q : ℚ) (isDouble : FloatFormat.binary64.Represents q)
  | infinite (negative : Bool)
  | nan

/-- The value of a constant expression that has no type of its own yet. -/
inductive ConstValue
  | int (z : Int)
  | float (d : Double)

/-- A constant expression, with its value and whether the evaluator finds it. What the evaluator finds has 64 bits: a
literal beyond them is not constant to it. -/
structure NumConst where
  value : ConstValue
  isConst : Bool
  fits : isConst = true → ∀ z, value = .int z → FitsI64 z

namespace NumConst

variable (k : NumConst)

/-- `H2TCConstIntExpr`. -/
def constIntExpr : Option Int64 :=
  match k.value with
  | .int z => if k.isConst then some (Int64.ofInt z) else none
  | .float _ => none

/-- `H2TCConstFloatExpr`. -/
def constFloatExpr : Option Double :=
  match k.value with
  | .int _ => none
  | .float d => if k.isConst then some d else none

end NumConst

/-- The loop of `H2TCU64BitLen`, with the number of bits that are left. -/
def u64BitLenFrom : Nat → UInt64 → Nat → Nat
  | 0, _, bits => bits
  | left + 1, v, bits => if v ≠ 0 then u64BitLenFrom left (v >>> 1) (bits + 1) else bits

def u64BitLen (v : UInt64) : Nat := u64BitLenFrom 64 v 0

/-- The absolute value of a 64-bit integer. -/
def magnitude (value : Int64) : UInt64 := if value < 0 then (-(value + 1)).toUInt64 + 1 else value.toUInt64

/-- How many bits an integer may have to be let into a floating-point type. -/
def precisionBits : BuiltinKind → Option Nat
  | .F32 => some 23
  | .F64 => some 53
  | _ => none

/-- The comparison of a `double` with itself after a conversion to `float` and back. -/
def equalsAsFloat : Double → Bool
  | .finite q _ => FloatFormat.binary32.represents q
  | .infinite _ => true
  | .nan => false

namespace TypeTable

variable (c : TypeTable)

/-- The built-in type that a type is or is an alias of. -/
def builtinOf (typeId : TypeId) : Option BuiltinKind :=
  ((c.entry (c.resolveAliasBaseType typeId)).filter (·.kind = .BUILTIN)).map TCType.builtin

def constIntFitsType (value : Int64) (typeId : TypeId) : Bool :=
  if c.resolveAliasBaseType typeId = c.typeUntypedInt then true
  else
    match c.builtinOf typeId with
    | some .U8 => 0 ≤ value ∧ value ≤ 0xFF
    | some .U16 => 0 ≤ value ∧ value ≤ 0xFFFF
    | some .U32 => 0 ≤ value ∧ value ≤ 0xFFFFFFFF
    | some .U64 | some .USIZE => 0 ≤ value
    | some .I8 => -0x80 ≤ value ∧ value ≤ 0x7F
    | some .I16 => -0x8000 ≤ value ∧ value ≤ 0x7FFF
    | some .I32 => -0x80000000 ≤ value ∧ value ≤ 0x7FFFFFFF
    | some .I64 | some .ISIZE => true
    | _ => false

def constIntFitsFloatType (value : Int64) (typeId : TypeId) : Bool :=
  if c.resolveAliasBaseType typeId = c.typeUntypedFloat then true
  else
    match (c.builtinOf typeId).bind precisionBits with
    | some bits => u64BitLen (magnitude value) ≤ bits
    | none => false

def constFloatFitsType (value : Double) (typeId : TypeId) : Bool :=
  if c.resolveAliasBaseType typeId = c.typeUntypedFloat then true
  else
    match c.builtinOf typeId, value with
    | some .F64, _ => true
    | some .F32, .nan => true
    | some .F32, value => equalsAsFloat value
    | _, _ => false

/-- The type that a constant has by itself. -/
def constType (k : NumConst) : TypeId :=
  match k.value with
  | .int _ => c.typeUntypedInt
  | .float _ => c.typeUntypedFloat

/-- `H2TCTypeExprExpected` on a constant; `none` when it is out of range. -/
def typeExprExpected (k : NumConst) (expectedType : TypeId) : Option TypeId :=
  let srcType := c.constType k
  let known := (c.entry expectedType).isSome
  if known ∧ c.isIntegerType expectedType ∧ srcType = c.typeUntypedInt then
    match k.constIntExpr with
    | none => some srcType
    | some value => if c.constIntFitsType value expectedType then some expectedType else none
  else if known ∧ c.isFloatType expectedType ∧ srcType = c.typeUntypedInt then
    match k.constIntExpr with
    | none => some srcType
    | some value => if c.constIntFitsFloatType value expectedType then some expectedType else none
  else if known ∧ c.isFloatType expectedType ∧ srcType = c.typeUntypedFloat then
    match k.constFloatExpr with
    | none => some srcType
    | some value => if c.constFloatFitsType value expectedType then some expectedType else none
  else some srcType

def coerceForBinary (leftType rightType : TypeId) : Option TypeId :=
  if leftType = rightType then some leftType
  else if c.isUntyped leftType ∧ c.isUntyped rightType = false ∧ c.canAssign rightType leftType then some rightType
  else if c.isUntyped rightType ∧ c.isUntyped leftType = false ∧ c.canAssign leftType rightType then some leftType
  else if leftType = c.typeUntypedInt ∧ rightType = c.typeUntypedFloat then some c.typeUntypedFloat
  else if leftType = c.typeUntypedFloat ∧ rightType = c.typeUntypedInt then some c.typeUntypedFloat
  else none

end TypeTable

/-- The places where a constant is converted: to the type of a declared variable, of the target of an assignment, of a
component of the tuple that is expected, of a result, of a parameter (of a value that is called or of a function that
is called by name), of the other operand; to the type of a variable that is declared without one; to an array length or
the count of an allocation. -/
inductive ConversionSite
  | initializer | assign | multiAssign | shortAssign | tupleElement | splitTuple | returned | valueCallArg | namedCallArg
  | leftOperand | rightOperand | inferred | arrayLen | allocCount
  deriving DecidableEq, Repr

namespace TypeTable

variable (c : TypeTable)

/-- The check of a value against a type that is expected of it. -/
def expectAssign (k : NumConst) (dstType : TypeId) : Bool :=
  match c.typeExprExpected k dstType with
  | none => false
  | some srcType => c.canAssign dstType srcType

/-- The check of a right operand, which the type of the left one is expected of. -/
def acceptsRightOperand (k : NumConst) (leftType : TypeId) : Bool :=
  match c.typeExprExpected k leftType with
  | none => false
  | some rightType => (c.coerceForBinary leftType rightType).any c.isNumericType

/-- The check of an array length. -/
def acceptsArrayLen (k : NumConst) : Bool :=
  c.isIntegerType (c.constType k) && k.constIntExpr.any fun lenValue => 0 ≤ lenValue ∧ lenValue ≤ 0xFFFFFFFF

/-- The check of the count of an allocation. -/
def acceptsAllocCount (k : NumConst) : Bool :=
  c.isIntegerType (c.constType k) && !k.constIntExpr.any fun countValue => countValue < 0

/-- Whether a constant is accepted where it is converted to a type. -/
def accepts (k : NumConst) (dstType : TypeId) : ConversionSite → Bool
  | .initializer | .assign | .tupleElement | .returned | .valueCallArg => c.expectAssign k dstType
  | .multiAssign | .shortAssign | .splitTuple => c.canAssign dstType (c.constType k)
  | .namedCallArg => (c.conversionCost dstType (c.constType k)).isSome
  | .leftOperand => (c.coerceForBinary (c.constType k) dstType).any c.isNumericType
  | .rightOperand => c.acceptsRightOperand k dstType
  | .inferred => (c.concretizeWithin (c.types.length + 1) (c.constType k)).isSome
  | .arrayLen => c.acceptsArrayLen k
  | .allocCount => c.acceptsAllocCount k

end TypeTable

end HopHop
