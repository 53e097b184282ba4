import HopHop.ConstConvert

namespace HopHop

/-- The least and the greatest value of an integer type. -/
def intRange : BuiltinKind → Option (Int × Int)
  | .U8 => some (0, 2 ^ 8 - 1)
  | .U16 => some (0, 2 ^ 16 - 1)
  | .U32 => some (0, 2 ^ 32 - 1)
  | .U64 | .USIZE => some (0, 2 ^ 64 - 1)
  | .I8 => some (-2 ^ 7, 2 ^ 7 - 1)
  | .I16 => some (-2 ^ 15, 2 ^ 15 - 1)
  | .I32 => some (-2 ^ 31, 2 ^ 31 - 1)
  | .I64 | .ISIZE => some (-2 ^ 63, 2 ^ 63 - 1)
  | _ => none

/-- The values of a floating-point type. -/
def floatFormat : BuiltinKind → Option FloatFormat
  | .F32 => some .binary32
  | .F64 => some .binary64
  | _ => none

/-- The numeric types. -/
def BuiltinKind.isNumeric (b : BuiltinKind) : Bool := (intRange b).isSome || (floatFormat b).isSome

namespace ConstValue

/-- A numeric type has the value of a constant. -/
def Representable (v : ConstValue) (b : BuiltinKind) : Prop :=
  match v with
  | .int z => (∃ range, intRange b = some range ∧ range.1 ≤ z ∧ z ≤ range.2) ∨
      ∃ format, floatFormat b = some format ∧ format.Represents z
  | .float (.finite q _) =>
    (∃ range, intRange b = some range ∧ ∃ z : ℤ, q = z ∧ range.1 ≤ z ∧ z ≤ range.2) ∨
      ∃ format, floatFormat b = some format ∧ format.Represents q
  | .float _ => (floatFormat b).isSome

/-- A constant of this type can be converted to a numeric type at all: a floating-point one only to such a type. -/
def converts (v : ConstValue) (b : BuiltinKind) : Bool :=
  match v with
  | .int _ => true
  | .float _ => (floatFormat b).isSome

end ConstValue

/-- The ways a constant is checked where it is converted. -/
inductive ConversionCheck
  | expected | byType | inferred | arrayLen | allocCount
  deriving DecidableEq, Repr

namespace ConversionSite

def check : ConversionSite → ConversionCheck
  | .initializer | .assign | .tupleElement | .returned | .valueCallArg | .rightOperand => .expected
  | .multiAssign | .shortAssign | .splitTuple | .namedCallArg | .leftOperand => .byType
  | .inferred => .inferred
  | .arrayLen => .arrayLen
  | .allocCount => .allocCount

/-- The type that a constant is converted to: the given one, the default of a variable without a type, or the 32 bits
that an array length has. -/
def targetKind (site : ConversionSite) (v : ConstValue) (b : BuiltinKind) : BuiltinKind :=
  match site.check, v with
  | .inferred, .int _ => .ISIZE
  | .inferred, .float _ => .F64
  | .arrayLen, _ | .allocCount, _ => .U32
  | _, _ => b

end ConversionSite

namespace TypeTable

/-- The set-up of the table: the ids that the checker keeps name the entries they are meant for. -/
structure NumericIds (c : TypeTable) : Prop where
  anytype : ∀ t, c.entry c.typeAnytype = some t → t.kind = .ANYTYPE
  untypedInt : ∃ t, c.entry c.typeUntypedInt = some t ∧ t.kind = .UNTYPED_INT
  untypedFloat : ∃ t, c.entry c.typeUntypedFloat = some t ∧ t.kind = .UNTYPED_FLOAT
  rawptr : ∀ t, c.entry c.typeRawptr = some t → t.kind = .BUILTIN
  isize : (c.findBuiltinByKind .ISIZE).isSome
  f64 : (c.findBuiltinByKind .F64).isSome

/-- What the conversion of a constant promises: it is accepted only with a value that the type has, and an integer that
the type has is accepted. -/
structure ConversionExact (c : TypeTable) (site : ConversionSite) (k : NumConst) (dstType : TypeId) (b : BuiltinKind) :
    Prop where
  exact : c.accepts k dstType site = true → k.value.Representable (site.targetKind k.value b)
  complete : ∀ z, k.value = .int z → k.value.Representable (site.targetKind k.value b) → c.accepts k dstType site = true

end TypeTable

/-- When a conversion keeps its promise. Where the value is checked, it has to be known to the evaluator or be one of
the type's, and an integer for a floating-point type has to be below the power of two that is the limit there, or not be
one of the type's. Where it is not checked it has to be one of the type's. -/
def ConversionSite.ExactWhen (site : ConversionSite) (k : NumConst) (b : BuiltinKind) : Prop :=
  match site.check with
  | .expected =>
    (k.isConst = false → k.value.converts b = true → k.value.Representable b) ∧
      (k.isConst = true → ∀ z, k.value = .int z → ∀ bits, precisionBits b = some bits → k.value.Representable b →
        z.natAbs < 2 ^ bits)
  | .byType => k.value.converts b = true → k.value.Representable b
  | .inferred => ∀ z, k.value = .int z → FitsI64 z
  | .arrayLen => ∀ z, k.value = .int z → k.value.Representable .U32 → k.isConst = true
  | .allocCount => ∀ z, k.value = .int z → k.value.Representable .U32 ∨ k.isConst = true ∧ z < 0


/-! ### The checks of values -/

theorem u64BitLenFrom_eq {left bits : Nat} {v : UInt64} (enough : v.toNat < 2 ^ left) :
    u64BitLenFrom left v bits = bits + v.toNat.size := by
  induction left generalizing v bits with
  | zero =>
    have zero : v.toNat = 0 := by omega
    rw [u64BitLenFrom, zero, Nat.size_zero, Nat.add_zero]
  | succ left ih =>
    rw [u64BitLenFrom]
    by_cases zero : v = 0
    · rw [if_neg (by simp [zero]), zero]
      rfl
    · have positive : v.toNat ≠ 0 := fun same => zero (UInt64.toNat_inj.mp same)
      have half : (v >>> 1).toNat = v.toNat / 2 := by
        rw [UInt64.toNat_shiftRight]
        exact Nat.shiftRight_one _
      have size : v.toNat.size = (v.toNat / 2).size + 1 := by
        have split := Nat.bit_testBit_zero_shiftRight_one v.toNat
        rw [Nat.shiftRight_one] at split
        have grown := @Nat.size_bit (v.toNat.testBit 0) (v.toNat / 2) (by rwa [split])
        rwa [split] at grown
      rw [if_pos zero, ih (by rw [half, Nat.pow_succ] at *; omega), half, size]
      omega

theorem u64BitLen_eq (v : UInt64) : u64BitLen v = v.toNat.size := by
  rw [u64BitLen, u64BitLenFrom_eq v.toNat_lt, Nat.zero_add]

theorem magnitude_toNat (value : Int64) : (magnitude value).toNat = value.toInt.natAbs := by
  have fits := Int64.fits value
  rw [FitsI64] at fits
  rw [magnitude]
  by_cases negative : value < 0
  · have below : value.toInt < 0 := by
      rw [Int64.lt_iff_toInt_lt, Int64.toInt_zero] at negative
      exact negative
    have next : (value + 1).toInt = value.toInt + 1 := toInt_add_fits (by rw [Int64.toInt_one, FitsI64]; omega)
    have negated : (-(value + 1)).toInt = -(value.toInt + 1) := by
      rw [Int64.toInt_neg, next, bmod_fits (by rw [FitsI64]; omega)]
    rw [if_pos negative, UInt64.toNat_add, toUInt64_toNat (by rw [negated]; omega), negated]
    have one : (1 : UInt64).toNat = 1 := rfl
    rw [one, Nat.mod_eq_of_lt (by omega)]
    omega
  · have above : 0 ≤ value.toInt := by
      rw [Int64.lt_iff_toInt_lt, Int64.toInt_zero] at negative
      omega
    rw [if_neg negative, toUInt64_toNat above]
    omega

namespace TypeTable

section

variable {c : TypeTable} {dst : TypeId} {t : TCType}

theorem bare_of_kind (atDst : c.entry dst = some t) (notAlias : t.kind ≠ .ALIAS) : c.Bare dst := by
  intro t' atDst'
  rw [atDst, Option.some.injEq] at atDst'
  rwa [← atDst']

/-- What the table says of a numeric type. -/
structure IsNumeric (c : TypeTable) (dst : TypeId) (b : BuiltinKind) : Prop where
  entry : ∃ t, c.entry dst = some t ∧ t.kind = .BUILTIN ∧ t.builtin = b
  numeric : b.isNumeric = true

variable {b : BuiltinKind}

theorem IsNumeric.resolved (isNumeric : c.IsNumeric dst b) : c.resolveAliasBaseType dst = dst := by
  obtain ⟨t, atDst, kind, _⟩ := isNumeric.entry
  exact resolveAliasBaseType_bare (bare_of_kind atDst (by rw [kind]; decide))

theorem IsNumeric.builtinOf (isNumeric : c.IsNumeric dst b) : c.builtinOf dst = some b := by
  obtain ⟨t, atDst, kind, builtin⟩ := isNumeric.entry
  simp only [TypeTable.builtinOf, isNumeric.resolved, atDst, Option.filter_some, kind, decide_true, if_true,
    Option.map_some, builtin]

theorem IsNumeric.ne_of_kind (isNumeric : c.IsNumeric dst b) {id : TypeId}
    (other : ∀ t, c.entry id = some t → t.kind ≠ .BUILTIN) : dst ≠ id := by
  intro same
  obtain ⟨t, atDst, kind, _⟩ := isNumeric.entry
  exact other t (same ▸ atDst) kind

theorem NumericIds.resolved_int (ids : c.NumericIds) : c.resolveAliasBaseType c.typeUntypedInt = c.typeUntypedInt := by
  obtain ⟨t, atId, kind⟩ := ids.untypedInt
  exact resolveAliasBaseType_bare (bare_of_kind atId (by rw [kind]; decide))

theorem NumericIds.resolved_float (ids : c.NumericIds) :
    c.resolveAliasBaseType c.typeUntypedFloat = c.typeUntypedFloat := by
  obtain ⟨t, atId, kind⟩ := ids.untypedFloat
  exact resolveAliasBaseType_bare (bare_of_kind atId (by rw [kind]; decide))

theorem NumericIds.int_ne_float (ids : c.NumericIds) : c.typeUntypedFloat ≠ c.typeUntypedInt := by
  intro same
  obtain ⟨t, atId, kind⟩ := ids.untypedInt
  obtain ⟨t', atId', kind'⟩ := ids.untypedFloat
  rw [same, atId, Option.some.injEq] at atId'
  rw [atId', kind'] at kind
  cases kind

theorem IsNumeric.ne_int (isNumeric : c.IsNumeric dst b) (ids : c.NumericIds) : dst ≠ c.typeUntypedInt := by
  apply isNumeric.ne_of_kind
  obtain ⟨t, atId, kind⟩ := ids.untypedInt
  intro t' atId'
  rw [atId, Option.some.injEq] at atId'
  rw [← atId', kind]
  decide

theorem IsNumeric.ne_float (isNumeric : c.IsNumeric dst b) (ids : c.NumericIds) : dst ≠ c.typeUntypedFloat := by
  apply isNumeric.ne_of_kind
  obtain ⟨t, atId, kind⟩ := ids.untypedFloat
  intro t' atId'
  rw [atId, Option.some.injEq] at atId'
  rw [← atId', kind]
  decide

theorem IsNumeric.ne_anytype (isNumeric : c.IsNumeric dst b) (ids : c.NumericIds) : dst ≠ c.typeAnytype := by
  apply isNumeric.ne_of_kind
  intro t atId
  rw [ids.anytype t atId]
  decide

theorem IsNumeric.isIntegerType (isNumeric : c.IsNumeric dst b) (ids : c.NumericIds) :
    c.isIntegerType dst = (intRange b).isSome := by
  obtain ⟨t, atDst, kind, builtin⟩ := isNumeric.entry
  simp only [TypeTable.isIntegerType, isNumeric.resolved, atDst, if_neg (isNumeric.ne_int ids), kind, builtin]
  cases b <;> rfl

theorem IsNumeric.isFloatType (isNumeric : c.IsNumeric dst b) (ids : c.NumericIds) :
    c.isFloatType dst = (floatFormat b).isSome := by
  obtain ⟨t, atDst, kind, builtin⟩ := isNumeric.entry
  simp only [TypeTable.isFloatType, isNumeric.resolved, atDst, if_neg (isNumeric.ne_float ids), kind, builtin]
  cases b <;> rfl

theorem IsNumeric.isNumericType (isNumeric : c.IsNumeric dst b) (ids : c.NumericIds) : c.isNumericType dst = true := by
  rw [TypeTable.isNumericType, isNumeric.isIntegerType ids, isNumeric.isFloatType ids]
  exact isNumeric.numeric

theorem NumericIds.isIntegerType (ids : c.NumericIds) : c.isIntegerType c.typeUntypedInt = true := by
  obtain ⟨t, atId, _⟩ := ids.untypedInt
  simp only [TypeTable.isIntegerType, ids.resolved_int, atId, if_true]

theorem NumericIds.not_isIntegerType (ids : c.NumericIds) : c.isIntegerType c.typeUntypedFloat = false := by
  obtain ⟨t, atId, kind⟩ := ids.untypedFloat
  simp only [TypeTable.isIntegerType, ids.resolved_float, atId, if_neg ids.int_ne_float, kind]
  simp

theorem IsNumeric.typeIsFmtValue (isNumeric : c.IsNumeric dst b) : c.typeIsFmtValue dst = false := by
  obtain ⟨t, atDst, kind, _⟩ := isNumeric.entry
  simp only [TypeTable.typeIsFmtValue, isNumeric.resolved, atDst, kind]
  simp

theorem canAssign_self (id : TypeId) : c.canAssign id id = true := by
  simp only [canAssign, canAssignWithin, if_true]

/-- An integer constant can be assigned to every numeric type, as far as its own type goes. -/
theorem IsNumeric.canAssign_int (isNumeric : c.IsNumeric dst b) (ids : c.NumericIds) :
    c.canAssign dst c.typeUntypedInt = true := by
  obtain ⟨t, atDst, kind, _⟩ := isNumeric.entry
  obtain ⟨src, atSrc, _⟩ := ids.untypedInt
  have numeric := isNumeric.isNumericType ids
  simp only [TypeTable.isNumericType, Bool.or_eq_true] at numeric
  have notAlias : ¬ t.kind = .ALIAS := by rw [kind]; decide
  simp only [canAssign, canAssignWithin, if_neg (isNumeric.ne_int ids), isNumeric.typeIsFmtValue,
    if_neg (isNumeric.ne_anytype ids), atDst, atSrc, if_neg notAlias, true_and]
  rcases numeric with integer | float
  · simp [integer]
  · simp [float]

/-- A floating-point constant can be assigned to the floating-point types only. -/
theorem IsNumeric.canAssign_float (isNumeric : c.IsNumeric dst b) (ids : c.NumericIds) :
    c.canAssign dst c.typeUntypedFloat = (floatFormat b).isSome := by
  obtain ⟨t, atDst, kind, _⟩ := isNumeric.entry
  obtain ⟨src, atSrc, srcKind⟩ := ids.untypedFloat
  have notAlias : ¬ t.kind = .ALIAS := by rw [kind]; decide
  have srcNotAlias : ¬ src.kind = .ALIAS := by rw [srcKind]; decide
  have notRawptr : c.isRawptrType c.typeUntypedFloat = false := by
    simp only [isRawptrType, ids.resolved_float, decide_eq_false_iff_not]
    rintro ⟨_, same⟩
    have builtin := ids.rawptr src (same ▸ atSrc)
    rw [srcKind] at builtin
    cases builtin
  have entries : ∀ compare, c.canAssignEntries compare dst c.typeUntypedFloat t src = false := by
    intro compare
    simp only [canAssignEntries, kind, srcKind, notRawptr]
    simp
  simp only [canAssign, canAssignWithin, if_neg (isNumeric.ne_float ids), isNumeric.typeIsFmtValue,
    if_neg (isNumeric.ne_anytype ids), atDst, atSrc, if_neg notAlias, ids.int_ne_float, false_and, if_false, true_and,
    isNumeric.isFloatType ids, if_neg srcNotAlias, entries, Bool.false_eq_true]
  cases (floatFormat b).isSome <;> rfl

theorem le_of_literal {lo value : Int64} {z : Int} (literal : lo.toInt = z) : lo ≤ value ↔ z ≤ value.toInt := by
  rw [Int64.le_iff_toInt_le, literal]

theorem le_literal {hi value : Int64} {z : Int} (literal : hi.toInt = z) : value ≤ hi ↔ value.toInt ≤ z := by
  rw [Int64.le_iff_toInt_le, literal]

/-- The range check lets the values of an integer type pass. -/
theorem IsNumeric.constIntFitsType (isNumeric : c.IsNumeric dst b) (ids : c.NumericIds) (value : Int64)
    (integer : (intRange b).isSome) :
    c.constIntFitsType value dst = true ↔ (ConstValue.int value.toInt).Representable b := by
  have fits := Int64.fits value
  rw [FitsI64] at fits
  have notFloat : floatFormat b = none := by cases b <;> first | rfl | cases integer
  have spec : (ConstValue.int value.toInt).Representable b ↔
      ∃ range, intRange b = some range ∧ range.1 ≤ value.toInt ∧ value.toInt ≤ range.2 := by
    simp only [ConstValue.Representable, notFloat, reduceCtorEq, false_and, exists_false, or_false]
  rw [spec, TypeTable.constIntFitsType, isNumeric.resolved, if_neg (isNumeric.ne_int ids), isNumeric.builtinOf]
  have zero : (0 : Int64) ≤ value ↔ 0 ≤ value.toInt := le_of_literal rfl
  cases b <;> simp only [intRange, Option.isSome_none, Bool.false_eq_true] at integer <;>
    simp only [intRange, Option.some.injEq, exists_eq_left', decide_eq_true_eq, zero, true_iff]
  case U8 => rw [le_literal (show (0xFF : Int64).toInt = 2 ^ 8 - 1 from rfl)]
  case U16 => rw [le_literal (show (0xFFFF : Int64).toInt = 2 ^ 16 - 1 from rfl)]
  case U32 => rw [le_literal (show (0xFFFFFFFF : Int64).toInt = 2 ^ 32 - 1 from rfl)]
  case I8 => rw [le_of_literal (show (-0x80 : Int64).toInt = -2 ^ 7 from rfl),
    le_literal (show (0x7F : Int64).toInt = 2 ^ 7 - 1 from rfl)]
  case I16 => rw [le_of_literal (show (-0x8000 : Int64).toInt = -2 ^ 15 from rfl),
    le_literal (show (0x7FFF : Int64).toInt = 2 ^ 15 - 1 from rfl)]
  case I32 => rw [le_of_literal (show (-0x80000000 : Int64).toInt = -2 ^ 31 from rfl),
    le_literal (show (0x7FFFFFFF : Int64).toInt = 2 ^ 31 - 1 from rfl)]
  all_goals omega

/-- The check of an integer for a floating-point type lets those pass that are below a power of two. -/
theorem IsNumeric.constIntFitsFloatType (isNumeric : c.IsNumeric dst b) (ids : c.NumericIds) (value : Int64) :
    c.constIntFitsFloatType value dst = true ↔ ∃ bits, precisionBits b = some bits ∧ value.toInt.natAbs < 2 ^ bits := by
  rw [TypeTable.constIntFitsFloatType, isNumeric.resolved, if_neg (isNumeric.ne_float ids), isNumeric.builtinOf,
    Option.bind_some]
  cases limit : precisionBits b with
  | none => simp
  | some bits => simp [u64BitLen_eq, magnitude_toNat, Nat.size_le]

/-- The check of a floating-point constant lets the values of a floating-point type pass. -/
theorem IsNumeric.constFloatFitsType (isNumeric : c.IsNumeric dst b) (ids : c.NumericIds) (value : Double)
    (float : (floatFormat b).isSome) :
    c.constFloatFitsType value dst = true ↔ (ConstValue.float value).Representable b := by
  unfold TypeTable.constFloatFitsType
  rw [isNumeric.resolved, if_neg (isNumeric.ne_float ids), isNumeric.builtinOf]
  cases b <;> simp only [floatFormat, Option.isSome_none, Bool.false_eq_true] at float
  case F32 =>
    cases value with
    | finite q isDouble => simp [ConstValue.Representable, intRange, floatFormat, equalsAsFloat, FloatFormat.represents_iff]
    | infinite negative => simp [ConstValue.Representable, floatFormat, equalsAsFloat]
    | nan => simp [ConstValue.Representable, floatFormat]
  case F64 =>
    cases value with
    | finite q isDouble => simpa [ConstValue.Representable, intRange, floatFormat] using isDouble
    | infinite negative => simp [ConstValue.Representable, floatFormat]
    | nan => simp [ConstValue.Representable, floatFormat]

/-- An integer below the limit of a floating-point type is a value of it. -/
theorem representable_of_small {z : Int} {bits : Nat} (limit : precisionBits b = some bits) (small : z.natAbs < 2 ^ bits) :
    (ConstValue.int z).Representable b := by
  right
  cases b <;> simp only [precisionBits, reduceCtorEq, Option.some.injEq] at limit
  case F32 =>
    refine ⟨.binary32, rfl, FloatFormat.represents_of_size_le (by decide) (by decide) ?_⟩
    rw [Nat.size_le]
    change z.natAbs < 2 ^ 24
    have more : 2 ^ bits ≤ 2 ^ 24 := by rw [← limit]; decide
    omega
  case F64 =>
    refine ⟨.binary64, rfl, FloatFormat.represents_of_size_le (by decide) (by decide) ?_⟩
    rw [Nat.size_le]
    change z.natAbs < 2 ^ 53
    have more : 2 ^ bits ≤ 2 ^ 53 := by rw [← limit]
    omega

end

end TypeTable

namespace NumConst

variable {k : NumConst} {z : Int} {d : Double}

/-- What the evaluator finds of an integer constant is its value. -/
theorem constIntExpr_eq (value : k.value = .int z) (isConst : k.isConst = true) :
    ∃ found, k.constIntExpr = some found ∧ found.toInt = z :=
  ⟨Int64.ofInt z, by simp [constIntExpr, value, isConst], toInt_ofInt_fits (k.fits isConst z value)⟩

theorem constIntExpr_none (value : k.value = .int z) (notConst : k.isConst = false) : k.constIntExpr = none := by
  simp [constIntExpr, value, notConst]

theorem constFloatExpr_eq (value : k.value = .float d) :
    k.constFloatExpr = if k.isConst then some d else none := by
  simp [constFloatExpr, value]

end NumConst

/-- The integers that the check of a numeric type lets pass. -/
def InLimit (z : Int) (b : BuiltinKind) : Prop :=
  if (intRange b).isSome then (ConstValue.int z).Representable b
  else ∃ bits, precisionBits b = some bits ∧ z.natAbs < 2 ^ bits

namespace TypeTable

section

variable {c : TypeTable} {dst : TypeId} {b : BuiltinKind} {k : NumConst} {z : Int} {d : Double}

theorem IsNumeric.known (isNumeric : c.IsNumeric dst b) : (c.entry dst).isSome = true := by
  obtain ⟨t, atDst, _⟩ := isNumeric.entry
  rw [atDst]
  rfl

/-- An integer constant that is expected to have a numeric type gets it, keeps its own type or is out of range. -/
theorem IsNumeric.typeExprExpected_int (isNumeric : c.IsNumeric dst b) (ids : c.NumericIds) (value : k.value = .int z) :
    (k.isConst = false ∧ c.typeExprExpected k dst = some c.typeUntypedInt) ∨
      (k.isConst = true ∧ InLimit z b ∧ c.typeExprExpected k dst = some dst) ∨
      (k.isConst = true ∧ ¬ InLimit z b ∧ c.typeExprExpected k dst = none) := by
  have ownType : c.constType k = c.typeUntypedInt := by rw [constType, value]
  have numeric := isNumeric.numeric
  rw [BuiltinKind.isNumeric, Bool.or_eq_true] at numeric
  have integerType := isNumeric.isIntegerType ids
  have floatType := isNumeric.isFloatType ids
  by_cases isConst : k.isConst = true
  · obtain ⟨found, isFound, same⟩ := NumConst.constIntExpr_eq value isConst
    by_cases integer : (intRange b).isSome = true
    · have check := isNumeric.constIntFitsType ids found integer
      rw [same] at check
      simp only [TypeTable.typeExprExpected, ownType, isNumeric.known, integerType, integer, and_self, if_true, isFound,
        InLimit, isConst, ← check]
      cases c.constIntFitsType found dst <;> simp
    · have check := isNumeric.constIntFitsFloatType ids found
      rw [same] at check
      have float : (floatFormat b).isSome = true := numeric.resolve_left integer
      simp only [TypeTable.typeExprExpected, ownType, isNumeric.known, integerType, floatType, integer, float, isFound,
        InLimit, isConst, ← check]
      cases c.constIntFitsFloatType found dst <;> simp
  · simp only [Bool.not_eq_true] at isConst
    have notFound := NumConst.constIntExpr_none value isConst
    left
    refine ⟨isConst, ?_⟩
    by_cases integer : (intRange b).isSome = true
    · simp [TypeTable.typeExprExpected, ownType, isNumeric.known, integerType, integer, notFound]
    · have float : (floatFormat b).isSome = true := numeric.resolve_left integer
      simp [TypeTable.typeExprExpected, ownType, isNumeric.known, integerType, floatType, integer, float, notFound]

/-- A floating-point constant that is expected to have a floating-point type gets it, keeps its own type or is out of
range; it keeps its own type where an integer type is expected. -/
theorem IsNumeric.typeExprExpected_float (isNumeric : c.IsNumeric dst b) (ids : c.NumericIds)
    (value : k.value = .float d) :
    (((floatFormat b).isSome = true → k.isConst = false) ∧ c.typeExprExpected k dst = some c.typeUntypedFloat) ∨
      ((floatFormat b).isSome = true ∧ k.isConst = true ∧ k.value.Representable b ∧ c.typeExprExpected k dst = some dst) ∨
      ((floatFormat b).isSome = true ∧ k.isConst = true ∧ ¬ k.value.Representable b ∧ c.typeExprExpected k dst = none) := by
  have ownType : c.constType k = c.typeUntypedFloat := by rw [constType, value]
  have integerType := isNumeric.isIntegerType ids
  have floatType := isNumeric.isFloatType ids
  have found := NumConst.constFloatExpr_eq value
  by_cases float : (floatFormat b).isSome = true
  · cases isConst : k.isConst with
    | true =>
      have check := isNumeric.constFloatFitsType ids d float
      rw [← value] at check
      rw [isConst] at found
      simp only [TypeTable.typeExprExpected, ownType, ids.int_ne_float, isNumeric.known, floatType, float, found, ← check]
      cases fits : c.constFloatFitsType d dst <;> simp [fits]
    | false =>
      rw [isConst] at found
      simp [TypeTable.typeExprExpected, ownType, ids.int_ne_float, isNumeric.known, floatType, float, found]
  · simp [TypeTable.typeExprExpected, ownType, ids.int_ne_float, isNumeric.known, floatType, float]

theorem IsNumeric.isUntyped (isNumeric : c.IsNumeric dst b) (ids : c.NumericIds) : c.isUntyped dst = false := by
  simp [TypeTable.isUntyped, isNumeric.ne_int ids, isNumeric.ne_float ids]

theorem isUntyped_constType : c.isUntyped (c.constType k) = true := by
  cases value : k.value with
  | int z => simp [constType, value, TypeTable.isUntyped]
  | float d => simp [constType, value, TypeTable.isUntyped]

theorem IsNumeric.ne_constType (isNumeric : c.IsNumeric dst b) (ids : c.NumericIds) : dst ≠ c.constType k := by
  cases value : k.value with
  | int z =>
    rw [constType, value]
    exact isNumeric.ne_int ids
  | float d =>
    rw [constType, value]
    exact isNumeric.ne_float ids

/-- A constant can be assigned to a numeric type where its own type converts. -/
theorem IsNumeric.canAssign_const (isNumeric : c.IsNumeric dst b) (ids : c.NumericIds) :
    c.canAssign dst (c.constType k) = k.value.converts b := by
  cases value : k.value with
  | int z =>
    rw [constType, value]
    exact isNumeric.canAssign_int ids
  | float d =>
    rw [constType, value]
    exact isNumeric.canAssign_float ids

/-- A right operand is checked as an assignment is. -/
theorem IsNumeric.rightOperand_eq (isNumeric : c.IsNumeric dst b) (ids : c.NumericIds) :
    c.acceptsRightOperand k dst = c.expectAssign k dst := by
  have own : (c.coerceForBinary dst dst).any c.isNumericType = true := by
    simp [coerceForBinary, isNumeric.isNumericType ids]
  have untyped : ∀ src, src = c.constType k →
      (c.coerceForBinary dst src).any c.isNumericType = c.canAssign dst src := by
    rintro src rfl
    have notRight : c.constType k ≠ c.typeUntypedInt ∨ c.constType k ≠ c.typeUntypedFloat := by
      by_contra both
      push Not at both
      exact ids.int_ne_float (both.2.symm.trans both.1)
    cases accepted : c.canAssign dst (c.constType k) <;>
      simp [coerceForBinary, isNumeric.ne_constType ids, isNumeric.isUntyped ids, isUntyped_constType, accepted,
        isNumeric.isNumericType ids, isNumeric.ne_int ids, isNumeric.ne_float ids]
  simp only [acceptsRightOperand, expectAssign]
  cases value : k.value with
  | int z =>
    have ownType : c.constType k = c.typeUntypedInt := by rw [constType, value]
    rcases isNumeric.typeExprExpected_int ids value with ⟨_, typed⟩ | ⟨_, _, typed⟩ | ⟨_, _, typed⟩
    · rw [typed]
      exact untyped _ ownType.symm
    · rw [typed]
      simp only [own, canAssign_self]
    · rw [typed]
  | float d =>
    have ownType : c.constType k = c.typeUntypedFloat := by rw [constType, value]
    rcases isNumeric.typeExprExpected_float ids value with ⟨_, typed⟩ | ⟨_, _, _, typed⟩ | ⟨_, _, _, typed⟩
    · rw [typed]
      exact untyped _ ownType.symm
    · rw [typed]
      simp only [own, canAssign_self]
    · rw [typed]

/-- A left operand is checked by its type only. -/
theorem IsNumeric.leftOperand_eq (isNumeric : c.IsNumeric dst b) (ids : c.NumericIds) :
    (c.coerceForBinary (c.constType k) dst).any c.isNumericType = k.value.converts b := by
  rw [← isNumeric.canAssign_const ids]
  cases accepted : c.canAssign dst (c.constType k) <;>
    simp [coerceForBinary, (isNumeric.ne_constType ids).symm, isNumeric.isUntyped ids, isUntyped_constType, accepted,
      isNumeric.isNumericType ids, isNumeric.ne_int ids, isNumeric.ne_float ids]

/-- An argument of a call by name is checked by its type only. -/
theorem IsNumeric.namedCallArg_eq (isNumeric : c.IsNumeric dst b) (ids : c.NumericIds) :
    (c.conversionCost dst (c.constType k)).isSome = k.value.converts b := by
  have untyped : c.constType k = c.typeUntypedInt ∨ c.constType k = c.typeUntypedFloat := by
    cases value : k.value with
    | int z => simp [constType, value]
    | float d => simp [constType, value]
  rw [← isNumeric.canAssign_const ids]
  cases accepted : c.canAssign dst (c.constType k) with
  | false => simp [conversionCost, conversionCostWithin, accepted]
  | true =>
    simp [conversionCost, conversionCostWithin, accepted, isNumeric.ne_constType ids, isNumeric.ne_anytype ids,
      isNumeric.typeIsFmtValue, untyped]

/-- An assignment of a constant whose value is checked. -/
theorem IsNumeric.expectAssign_iff (isNumeric : c.IsNumeric dst b) (ids : c.NumericIds) :
    c.expectAssign k dst = true ↔
      k.value.converts b = true ∧
        (k.isConst = true → match k.value with | .int z => InLimit z b | .float _ => k.value.Representable b) := by
  cases value : k.value with
  | int z =>
    have canAssign := isNumeric.canAssign_int ids
    simp only [expectAssign, ConstValue.converts, true_and]
    rcases isNumeric.typeExprExpected_int ids value with ⟨isConst, typed⟩ | ⟨isConst, limit, typed⟩ | ⟨isConst, limit, typed⟩
    · simp [typed, isConst, canAssign]
    · simp [typed, isConst, limit, canAssign_self]
    · simp [typed, isConst, limit]
  | float d =>
    have canAssign := isNumeric.canAssign_float ids
    simp only [expectAssign, ConstValue.converts]
    rcases isNumeric.typeExprExpected_float ids value with
      ⟨isConst, typed⟩ | ⟨float, isConst, has, typed⟩ | ⟨float, isConst, has, typed⟩
    · rw [typed]
      simp only [canAssign]
      constructor
      · intro float
        refine ⟨float, fun known => ?_⟩
        rw [isConst float] at known
        cases known
      · exact And.left
    · rw [value] at has
      simp [typed, float, has, canAssign_self]
    · rw [value] at has
      simp [typed, float, isConst, has]

end

end TypeTable

theorem InLimit.representable {z : Int} {b : BuiltinKind} (limit : InLimit z b) : (ConstValue.int z).Representable b := by
  rw [InLimit] at limit
  split at limit
  · exact limit
  · obtain ⟨bits, isLimit, small⟩ := limit
    exact TypeTable.representable_of_small isLimit small

/-- A numeric type is an integer type or one with a limit for integers. -/
theorem BuiltinKind.isNumeric_cases {b : BuiltinKind} (numeric : b.isNumeric = true) :
    ((intRange b).isSome = true ∧ precisionBits b = none) ∨ (intRange b = none ∧ ∃ bits, precisionBits b = some bits) := by
  cases b <;> first
    | exact .inl ⟨rfl, rfl⟩
    | exact .inr ⟨rfl, _, rfl⟩
    | cases numeric

namespace TypeTable

section

variable {c : TypeTable} {dst : TypeId} {b : BuiltinKind} {k : NumConst} {site : ConversionSite}

theorem IsNumeric.accepts_expected (isNumeric : c.IsNumeric dst b) (ids : c.NumericIds) (check : site.check = .expected) :
    c.accepts k dst site = c.expectAssign k dst := by
  cases site <;> first
    | rfl
    | exact isNumeric.rightOperand_eq ids
    | cases check

theorem IsNumeric.accepts_byType (isNumeric : c.IsNumeric dst b) (ids : c.NumericIds) (check : site.check = .byType) :
    c.accepts k dst site = k.value.converts b := by
  cases site <;> first
    | exact isNumeric.canAssign_const ids
    | exact isNumeric.namedCallArg_eq ids
    | exact isNumeric.leftOperand_eq ids
    | cases check

theorem targetKind_given (v : ConstValue) (given : site.check = .expected ∨ site.check = .byType) :
    site.targetKind v b = b := by
  rcases given with check | check <;> cases v <;> simp [ConversionSite.targetKind, check]

theorem IsNumeric.exact_expected (isNumeric : c.IsNumeric dst b) (ids : c.NumericIds) (check : site.check = .expected) :
    c.ConversionExact site k dst b ↔ site.ExactWhen k b := by
  have accept := isNumeric.expectAssign_iff ids (k := k)
  rw [← isNumeric.accepts_expected ids check] at accept
  have target := targetKind_given (b := b) k.value (.inl check)
  simp only [ConversionSite.ExactWhen, check]
  constructor
  · rintro ⟨exact, complete⟩
    rw [target] at exact complete
    constructor
    · intro notConst converts
      exact exact (accept.mpr ⟨converts, fun isConst => by rw [notConst] at isConst; cases isConst⟩)
    · intro isConst z value bits limit has
      have limited := (accept.mp (complete z value has)).2 isConst
      rw [value] at limited
      simp only [InLimit] at limited
      rcases isNumeric.numeric |> BuiltinKind.isNumeric_cases with ⟨_, noLimit⟩ | ⟨noRange, _⟩
      · rw [noLimit] at limit
        cases limit
      · rw [noRange] at limited
        obtain ⟨bits', limit', small⟩ := limited
        rw [limit, Option.some.injEq] at limit'
        rwa [limit']
  · rintro ⟨unknown, known⟩
    constructor
    · intro accepted
      rw [target]
      obtain ⟨converts, checked⟩ := accept.mp accepted
      cases isConst : k.isConst with
      | false => exact unknown isConst converts
      | true =>
        have passed := checked isConst
        cases value : k.value with
        | int z =>
          rw [value] at passed
          exact InLimit.representable passed
        | float d =>
          rw [value] at passed
          exact passed
    · intro z value has
      rw [target] at has
      apply accept.mpr
      rw [value]
      refine ⟨rfl, fun isConst => ?_⟩
      rw [value] at has
      simp only [InLimit]
      rcases isNumeric.numeric |> BuiltinKind.isNumeric_cases with ⟨range, _⟩ | ⟨noRange, bits, limit⟩
      · rw [if_pos range]
        exact has
      · rw [noRange]
        exact ⟨bits, limit, known isConst z value bits limit (value ▸ has)⟩

theorem IsNumeric.exact_byType (isNumeric : c.IsNumeric dst b) (ids : c.NumericIds) (check : site.check = .byType) :
    c.ConversionExact site k dst b ↔ site.ExactWhen k b := by
  have accept : c.accepts k dst site = k.value.converts b := isNumeric.accepts_byType ids check
  have target := targetKind_given (b := b) k.value (.inr check)
  simp only [ConversionSite.ExactWhen, check]
  constructor
  · rintro ⟨exact, _⟩ converts
    rw [target, accept] at exact
    exact exact converts
  · intro has
    constructor
    · rw [target, accept]
      exact has
    · intro z value _
      rw [accept, value]
      rfl

/-- A variable without a type takes the default type of a constant, whatever the value. -/
theorem exact_inferred (ids : c.NumericIds) :
    c.ConversionExact .inferred k dst b ↔ ConversionSite.inferred.ExactWhen k b := by
  have accept : c.accepts k dst .inferred = true := by
    cases value : k.value with
    | int z => simp [accepts, constType, value, concretizeWithin, ids.isize]
    | float d => simp [accepts, constType, value, concretizeWithin, ids.int_ne_float, ids.f64]
  have range : ∀ z, (ConstValue.int z).Representable .ISIZE ↔ FitsI64 z := by
    intro z
    simp only [ConstValue.Representable, intRange, floatFormat, Option.some.injEq, exists_eq_left', reduceCtorEq,
      false_and, exists_false, or_false, FitsI64]
    omega
  simp only [ConversionSite.ExactWhen, ConversionSite.check]
  constructor
  · rintro ⟨exact, _⟩ z value
    have has := exact accept
    rw [value] at has
    exact (range z).mp has
  · intro fits
    refine ⟨fun _ => ?_, fun _ _ _ => accept⟩
    cases value : k.value with
    | int z => exact (range z).mpr (fits z value)
    | float d =>
      cases d with
      | finite q isDouble => exact .inr ⟨.binary64, rfl, isDouble⟩
      | infinite negative => rfl
      | nan => rfl

theorem representable_U32 {z : Int} : (ConstValue.int z).Representable .U32 ↔ 0 ≤ z ∧ z ≤ 2 ^ 32 - 1 := by
  simp only [ConstValue.Representable, intRange, floatFormat, Option.some.injEq, exists_eq_left', reduceCtorEq,
    false_and, exists_false, or_false]

/-- An array length is checked in full, if the evaluator finds it. -/
theorem exact_arrayLen (ids : c.NumericIds) :
    c.ConversionExact .arrayLen k dst b ↔ ConversionSite.arrayLen.ExactWhen k b := by
  simp only [ConversionSite.ExactWhen, ConversionSite.check]
  cases value : k.value with
  | float d =>
    have refused : c.accepts k dst .arrayLen = false := by
      simp [accepts, acceptsArrayLen, constType, value, ids.not_isIntegerType]
    constructor
    · intro _ z isInt
      cases isInt
    · intro _
      refine ⟨fun accepted => ?_, fun z isInt => ?_⟩
      · rw [refused] at accepted
        cases accepted
      · rw [value] at isInt
        cases isInt
  | int z =>
    have accept : c.accepts k dst .arrayLen = true ↔ k.isConst = true ∧ (ConstValue.int z).Representable .U32 := by
      rw [representable_U32]
      cases isConst : k.isConst with
      | false => simp [accepts, acceptsArrayLen, NumConst.constIntExpr_none value isConst]
      | true =>
        obtain ⟨found, isFound, same⟩ := NumConst.constIntExpr_eq value isConst
        have low : (0 : Int64) ≤ found ↔ 0 ≤ found.toInt := le_of_literal rfl
        have high : found ≤ (0xFFFFFFFF : Int64) ↔ found.toInt ≤ 2 ^ 32 - 1 := le_literal rfl
        simp only [accepts, acceptsArrayLen, constType, value, ids.isIntegerType, isFound, Option.any_some, low, high,
          same, Bool.true_and, decide_eq_true_eq, true_and]
    have target : ConversionSite.arrayLen.targetKind k.value b = .U32 := rfl
    constructor
    · rintro ⟨_, complete⟩ z' isInt has
      rw [target, value] at complete
      rw [ConstValue.int.injEq] at isInt
      exact (accept.mp (complete z rfl (isInt ▸ has))).1
    · intro known
      constructor
      · intro accepted
        rw [target, value]
        exact (accept.mp accepted).2
      · intro z' isInt has
        rw [target, value] at has
        exact accept.mpr ⟨known z rfl has, has⟩

/-- The count of an allocation is only checked against being negative, if the evaluator finds it. -/
theorem exact_allocCount (ids : c.NumericIds) :
    c.ConversionExact .allocCount k dst b ↔ ConversionSite.allocCount.ExactWhen k b := by
  simp only [ConversionSite.ExactWhen, ConversionSite.check]
  cases value : k.value with
  | float d =>
    have refused : c.accepts k dst .allocCount = false := by
      simp [accepts, acceptsAllocCount, constType, value, ids.not_isIntegerType]
    constructor
    · intro _ z isInt
      cases isInt
    · intro _
      refine ⟨fun accepted => ?_, fun z isInt => ?_⟩
      · rw [refused] at accepted
        cases accepted
      · rw [value] at isInt
        cases isInt
  | int z =>
    have accept : c.accepts k dst .allocCount = true ↔ ¬ (k.isConst = true ∧ z < 0) := by
      cases isConst : k.isConst with
      | false =>
        simp [accepts, acceptsAllocCount, constType, value, ids.isIntegerType,
          NumConst.constIntExpr_none value isConst]
      | true =>
        obtain ⟨found, isFound, same⟩ := NumConst.constIntExpr_eq value isConst
        simp [accepts, acceptsAllocCount, constType, value, ids.isIntegerType, isFound, Int64.lt_iff_toInt_lt, same]
    have target : ConversionSite.allocCount.targetKind k.value b = .U32 := rfl
    constructor
    · rintro ⟨exact, _⟩ z' isInt
      rw [ConstValue.int.injEq] at isInt
      rw [target, value] at exact
      rw [← isInt]
      by_cases negative : k.isConst = true ∧ z < 0
      · exact .inr negative
      · exact .inl (exact (accept.mpr negative))
    · intro either
      constructor
      · intro accepted
        rw [target, value]
        exact (either z rfl).resolve_right (accept.mp accepted)
      · intro z' isInt has
        rw [target, value, representable_U32] at has
        apply accept.mpr
        rintro ⟨_, negative⟩
        omega

end

end TypeTable

theorem initial_numericIds : (TypeTable.initial [] ⟨[], -1⟩ 32).NumericIds where
  anytype := by
    intro t atId
    have isEntry : (TypeTable.initial [] ⟨[], -1⟩ 32).entry (some 18) = some (.blank .ANYTYPE) := rfl
    rw [← Option.some.inj (isEntry.symm.trans atId)]
    rfl
  untypedInt := ⟨.blank .UNTYPED_INT, rfl, rfl⟩
  untypedFloat := ⟨.blank .UNTYPED_FLOAT, rfl, rfl⟩
  rawptr := by
    intro t atId
    have isEntry : (TypeTable.initial [] ⟨[], -1⟩ 32).entry (some 13) = some (TypeTable.builtinType "rawptr" .RAWPTR) :=
      rfl
    rw [← Option.some.inj (isEntry.symm.trans atId)]
    rfl
  isize := rfl
  f64 := rfl

theorem initial_isNumeric_u8 : (TypeTable.initial [] ⟨[], -1⟩ 32).IsNumeric (some 3) .U8 where
  entry := ⟨TypeTable.builtinType "u8" .U8, rfl, rfl, rfl⟩
  numeric := rfl

theorem int_fits {z : Int} (fits : FitsI64 z) : ∀ z', ConstValue.int z = .int z' → FitsI64 z' := by
  intro z' value
  rw [← ConstValue.int.inj value]
  exact fits

theorem threeHundred_fits : FitsI64 300 := by
  rw [FitsI64]
  omega

/-- `300`, a constant that the evaluator knows. -/
def threeHundred : NumConst where
  value := .int 300
  isConst := true
  fits := fun _ => int_fits threeHundred_fits

end HopHop
