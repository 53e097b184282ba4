import HopHop.Package

namespace HopHop.CBackend

/-! ### Names in the emitted C -/

/-- A text that is a C identifier as far as its characters go. -/
structure CIdent where
  text : List UInt8
  ident : text.all isIdentPart = true
  deriving DecidableEq

def CIdent.append (a b : CIdent) : CIdent := ⟨a.text ++ b.text, by rw [List.all_append, a.ident, b.ident]; rfl⟩

instance : Append CIdent := ⟨CIdent.append⟩

theorem CIdent.text_append (a b : CIdent) : (a ++ b).text = a.text ++ b.text := rfl

theorem CIdent.ext_text {a b : CIdent} (same : a.text = b.text) : a = b := by
  cases a
  cases b
  cases same
  rfl

theorem isIdentPart_of_isDigit {c : Char} (digit : c.isDigit = true) : isIdentPart (UInt8.ofNat c.toNat) = true := by
  have digits : ∀ k < 10, isIdentPart (UInt8.ofNat (48 + k)) = true := by decide
  simp only [Char.isDigit, Bool.and_eq_true, decide_eq_true_eq, ge_iff_le, UInt32.le_iff_toNat_le] at digit
  have lower : 48 ≤ c.toNat := digit.1
  have upper : c.toNat ≤ 57 := digit.2
  have same : c.toNat = 48 + (c.toNat - 48) := by omega
  rw [same]
  exact digits _ (by omega)

/-- `BufAppendU32`. -/
def decimal (n : Nat) : CIdent where
  text := bytesOf (toString n)
  ident := by
    simp only [bytesOf, Nat.toString_eq_repr, Nat.toList_repr, List.all_map, List.all_eq_true, Function.comp]
    intro c member
    exact isIdentPart_of_isDigit (Nat.isDigit_of_mem_toDigits (by decide) (by decide) member)

/-- The name of a declaration or of a field: the parser refuses the prefix `__hop_`. -/
structure DeclName extends CIdent where
  unreserved : isReservedHOPPrefixName text = false

def hasDoubleUnderscore : List UInt8 → Bool
  | a :: b :: rest => (a = Byte.underscore && b = Byte.underscore) || hasDoubleUnderscore (b :: rest)
  | _ => false

/-- The C name of a declared type: the name of its package, two underscores and its name, or a name that contains two
underscores itself. -/
structure CName extends DeclName where
  qualified : hasDoubleUnderscore text = true

/-! ### Type trees -/

inductive BuiltinTypeName
  | bool | str | u8 | u16 | u32 | u64 | i8 | i16 | i32 | i64 | uint | int | rawptr | rune | const_int | f32 | f64
  | const_float | type | anytype
  deriving DecidableEq, Repr

inductive ConstEvalBuiltin
  | INVALID | VOID | BOOL | STR | TYPE | U8 | U16 | U32 | U64 | I8 | I16 | I32 | I64 | USIZE | ISIZE | RAWPTR | F32
  | F64
  deriving DecidableEq, Repr

/-- What a name finds when that is a type without parts: a declaration, a built-in name, or a type value. -/
inductive Leaf (δ : Type) : Type
  | declared (d : δ)
  | builtin (b : BuiltinTypeName)
  | constBuiltin (k : ConstEvalBuiltin)
  | UNTYPED_INT
  | UNTYPED_FLOAT

/-- A type as the constant evaluator has it; the kinds it cannot describe are one. -/
inductive TypeValue (δ : Type) : Type
  | BUILTIN (k : ConstEvalBuiltin)
  | NAMED (d : δ)
  | PTR (base : TypeValue δ)
  | REF (isMutable : Bool) (base : TypeValue δ)
  | ARRAY (arrayLen : UInt32) (base : TypeValue δ)
  | SLICE (isMutable : Bool) (base : TypeValue δ)
  | OPTIONAL (base : TypeValue δ)
  | UNTYPED_INT
  | UNTYPED_FLOAT
  | INVALID

mutual

/-- A type tree whose names are looked up: the name of a type parameter or of a constant stands for a type value. The
length of an array is its value, if it has one; `TYPE_ANON` is `TYPE_ANON_UNION` or `TYPE_ANON_STRUCT`. -/
inductive TypeTree (δ : Type) : Type
  | TYPE_NAME (l : Leaf δ)
  | TYPE_VALUE (v : TypeValue δ)
  | TYPE_PTR (child : TypeTree δ)
  | TYPE_REF (child : TypeTree δ)
  | TYPE_MUTREF (child : TypeTree δ)
  | TYPE_ARRAY (len : Option Int) (child : TypeTree δ)
  | TYPE_VARRAY (lenName : DeclName) (child : TypeTree δ)
  | TYPE_SLICE (child : TypeTree δ)
  | TYPE_MUTSLICE (child : TypeTree δ)
  | TYPE_OPTIONAL (child : TypeTree δ)
  | TYPE_FN (children : FnChildren δ)
  | TYPE_TUPLE (items : TypeItems δ)
  | TYPE_ANON (isUnion : Bool) (fields : TypeFields δ)

/-- The children of a function type: its parameters, then its result if there is one. -/
inductive FnChildren (δ : Type) : Type
  | none
  | result (t : TypeTree δ)
  | param (isConst isVariadic : Bool) (t : TypeTree δ) (rest : FnChildren δ)

inductive TypeItems (δ : Type) : Type
  | nil
  | cons (t : TypeTree δ) (rest : TypeItems δ)

inductive TypeFields (δ : Type) : Type
  | nil
  | cons (name : DeclName) (t : TypeTree δ) (rest : TypeFields δ)

end

/-! ### What a type tree denotes -/

/-- A type of the language up to aliases. -/
inductive Ty (κ : Type) : Type
  | nominal (k : κ)
  | ptr (t : Ty κ)
  | ref (t : Ty κ)
  | mutref (t : Ty κ)
  | array (len : Nat) (t : Ty κ)
  | varray (lenName : List UInt8) (t : Ty κ)
  | slice (t : Ty κ)
  | mutslice (t : Ty κ)
  | optional (t : Ty κ)
  | fn (params : List (Bool × Ty κ)) (isVariadic : Bool) (result : Ty κ)
  | tuple (items : List (Ty κ))
  | anon (isUnion : Bool) (fields : List (List UInt8 × Ty κ))

section Denote

variable {δ κ : Type} (meaning : Leaf δ → Ty κ)

def TypeValue.denote : TypeValue δ → Ty κ
  | .BUILTIN k => meaning (.constBuiltin k)
  | .NAMED d => meaning (.declared d)
  | .PTR base => .ptr base.denote
  | .REF isMutable base => if isMutable then .mutref base.denote else .ref base.denote
  | .ARRAY arrayLen base => .array arrayLen.toNat base.denote
  | .SLICE isMutable base => if isMutable then .mutslice base.denote else .slice base.denote
  | .OPTIONAL base => .optional base.denote
  | .UNTYPED_INT => meaning .UNTYPED_INT
  | .UNTYPED_FLOAT => meaning .UNTYPED_FLOAT
  | .INVALID => meaning (.constBuiltin .INVALID)

def FnChildren.isVariadic : FnChildren δ → Bool
  | .none | .result _ => false
  | .param _ isVariadic _ rest => isVariadic || rest.isVariadic

mutual

def TypeTree.denote : TypeTree δ → Ty κ
  | .TYPE_NAME l => meaning l
  | .TYPE_VALUE v => v.denote meaning
  | .TYPE_PTR child => .ptr child.denote
  | .TYPE_REF child => .ref child.denote
  | .TYPE_MUTREF child => .mutref child.denote
  | .TYPE_ARRAY len child => .array (len.getD 0).toNat child.denote
  | .TYPE_VARRAY lenName child => .varray lenName.text child.denote
  | .TYPE_SLICE child => .slice child.denote
  | .TYPE_MUTSLICE child => .mutslice child.denote
  | .TYPE_OPTIONAL child => .optional child.denote
  | .TYPE_FN children => .fn children.params children.isVariadic children.result_
  | .TYPE_TUPLE items => .tuple items.denote
  | .TYPE_ANON isUnion fields => .anon isUnion fields.denote

/-- The `const` marker of a parameter is part of the function type; a variadic parameter is a slice. -/
def FnChildren.params : FnChildren δ → List (Bool × Ty κ)
  | .none | .result _ => []
  | .param isConst isVariadic t rest =>
    (isConst, if isVariadic then .slice t.denote else t.denote) :: rest.params

def FnChildren.result_ : FnChildren δ → Ty κ
  | .none => meaning (.constBuiltin .VOID)
  | .result t => t.denote
  | .param _ _ _ rest => rest.result_

def TypeItems.denote : TypeItems δ → List (Ty κ)
  | .nil => []
  | .cons t rest => t.denote :: rest.denote

def TypeFields.denote : TypeFields δ → List (List UInt8 × Ty κ)
  | .nil => []
  | .cons name t rest => (name.text, t.denote) :: rest.denote

end

end Denote

end HopHop.CBackend
