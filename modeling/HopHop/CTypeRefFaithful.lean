import HopHop.CTypeRefUnique

namespace HopHop.CBackend

variable {δ κ : Type}

/-- In every run a tree that parses to a type reference equal to that of `t` denotes the same type. -/
def Faithful (scope : Scope δ κ) (t : TypeTree δ) : Prop :=
  ∀ (calls : List (Call δ)) (i j : Nat) (u : TypeTree δ) (r q : TypeRef),
    calls[i]? = some (.parseTypeRef t) → calls[j]? = some (.parseTypeRef u) →
    (results scope.toNames calls .empty)[i]? = some (some r) →
    (results scope.toNames calls .empty)[j]? = some (some q) → r.equal q = true →
    u.denote scope.meaning = t.denote scope.meaning

/-- The type of a built-in type value; `void` has no name. -/
def ConstEvalBuiltin.builtinType : ConstEvalBuiltin → Option BuiltinTypeName
  | .INVALID | .VOID => none
  | .BOOL => some .bool
  | .STR => some .str
  | .TYPE => some .type
  | .U8 => some .u8
  | .U16 => some .u16
  | .U32 => some .u32
  | .U64 => some .u64
  | .I8 => some .i8
  | .I16 => some .i16
  | .I32 => some .i32
  | .I64 => some .i64
  | .USIZE => some .uint
  | .ISIZE => some .int
  | .RAWPTR => some .rawptr
  | .F32 => some .f32
  | .F64 => some .f64

/-- A unit without type declarations. -/
def builtinScope : Scope Empty (Option BuiltinTypeName) where
  packageName := .lit "p" (by decide)
  cName d := nomatch d
  target d := nomatch d
  meaning
    | .declared d => nomatch d
    | .builtin b => .nominal b
    | .constBuiltin k => .nominal k.builtinType
    | .UNTYPED_INT => .nominal (some .const_int)
    | .UNTYPED_FLOAT => .nominal (some .const_float)
  rank d := nomatch d
  target_meaning d := nomatch d
  target_accepted d := nomatch d
  target_rank d := nomatch d
  target_cName d := nomatch d
  alias_named d := nomatch d

end HopHop.CBackend
