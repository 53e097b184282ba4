import HopHop.CTypeRefStands

namespace HopHop.CBackend

variable {δ κ : Type}

/-! ### Trees that a type reference represents -/

def Leaf.isBase : Leaf δ → Bool
  | .builtin .rawptr | .constBuiltin .RAWPTR => false
  | _ => true

def TypeValue.isBase : TypeValue δ → Bool
  | .BUILTIN k => k ≠ .RAWPTR
  | .NAMED _ | .UNTYPED_INT | .UNTYPED_FLOAT => true
  | _ => false

/-- The tree of a type value. -/
def TypeValue.tree : TypeValue δ → TypeTree δ
  | .BUILTIN k => .TYPE_NAME (.constBuiltin k)
  | .NAMED d => .TYPE_NAME (.declared d)
  | .PTR base => .TYPE_PTR base.tree
  | .REF isMutable base => if isMutable then .TYPE_MUTREF base.tree else .TYPE_REF base.tree
  | .ARRAY arrayLen base => .TYPE_ARRAY (some arrayLen.toNat) base.tree
  | .SLICE isMutable base => if isMutable then .TYPE_MUTSLICE base.tree else .TYPE_SLICE base.tree
  | .OPTIONAL base => .TYPE_OPTIONAL base.tree
  | .UNTYPED_INT => .TYPE_NAME .UNTYPED_INT
  | .UNTYPED_FLOAT => .TYPE_NAME .UNTYPED_FLOAT
  | .INVALID => .TYPE_NAME (.constBuiltin .INVALID)

/-- A tree whose type reference is a base name and nothing else. -/
def TypeTree.isBase : TypeTree δ → Bool
  | .TYPE_NAME l => l.isBase
  | .TYPE_VALUE v => v.isBase
  | .TYPE_FN _ | .TYPE_TUPLE _ | .TYPE_ANON _ _ => true
  | _ => false

def TypeTree.isBaseArray : TypeTree δ → Bool
  | .TYPE_ARRAY _ child => child.isBase
  | .TYPE_VALUE (.ARRAY _ base) => base.isBase
  | _ => false

def TypeItems.trees : TypeItems δ → List (TypeTree δ)
  | .nil => []
  | .cons t rest => t :: rest.trees

def TypeFields.trees : TypeFields δ → List (TypeTree δ)
  | .nil => []
  | .cons _ t rest => t :: rest.trees

/-- The trees whose type reference tells their type: over a name that no other type shares, or over a function type
without parameters, a tuple or an anonymous aggregate of such trees, at most an array, a slice, a read-only reference
or a read-only reference to an array. In a field the aliases behind a name have to be such trees as well. -/
inductive Representable (scope : Scope δ κ) : Bool → TypeTree δ → Prop
  | name {inField : Bool} {l : Leaf δ} (isBase : l.isBase = true)
    (apart : ∀ l' r, leafTypeRef scope.toNames l = some r → leafTypeRef scope.toNames l' = some r →
      scope.meaning l' = scope.meaning l)
    (target : inField = true → ∀ d t c, l = .declared d → scope.target d = some t → scope.cName d = some c →
      normalizeCoreRuntimeTypeName c.toCIdent = c.toCIdent → t.isBase = true → Representable scope true t) :
    Representable scope inField (.TYPE_NAME l)
  | value {inField : Bool} {v : TypeValue δ} (one : Representable scope inField v.tree) :
    Representable scope inField (.TYPE_VALUE v)
  | ref {inField : Bool} {child : TypeTree δ} (base : child.isBase = true ∨ child.isBaseArray = true)
    (one : Representable scope inField child) : Representable scope inField (.TYPE_REF child)
  | array {inField : Bool} {len : Option Int} {child : TypeTree δ} (base : child.isBase = true)
    (one : Representable scope inField child) : Representable scope inField (.TYPE_ARRAY len child)
  | slice {inField : Bool} {child : TypeTree δ} (base : child.isBase = true)
    (one : Representable scope inField child) : Representable scope inField (.TYPE_SLICE child)
  | mutslice {inField : Bool} {child : TypeTree δ} (base : child.isBase = true)
    (one : Representable scope inField child) : Representable scope inField (.TYPE_MUTSLICE child)
  | fnNone {inField : Bool} (apart : ∀ l r, leafTypeRef scope.toNames (.constBuiltin .VOID) = some r →
      leafTypeRef scope.toNames l = some r → scope.meaning l = scope.meaning (.constBuiltin .VOID)) :
    Representable scope inField (.TYPE_FN .none)
  | fnResult {inField : Bool} {t : TypeTree δ} (one : Representable scope false t) :
    Representable scope inField (.TYPE_FN (.result t))
  | tuple {inField : Bool} {items : TypeItems δ} (each : ∀ t ∈ items.trees, Representable scope true t) :
    Representable scope inField (.TYPE_TUPLE items)
  | anon {inField isUnion : Bool} {fields : TypeFields δ} (each : ∀ t ∈ fields.trees, Representable scope true t) :
    Representable scope inField (.TYPE_ANON isUnion fields)

/-! ### Type references that stand for one type -/

/-- The type reference stands for no type but `ty`. -/
def Unique (scope : Scope δ κ) (s : Tables) (r : TypeRef) (ty : Ty κ) : Prop := ∀ other, Stands scope s r other → other = ty

theorem leafTypeRef_fields {names : Names δ} {l : Leaf δ} {r : TypeRef} (found : leafTypeRef names l = some r) :
    r.containerKind = .SCALAR ∧ r.readOnly = false ∧ r.isOptional = false := by
  cases l with
  | declared d =>
    obtain ⟨name, -, rfl⟩ := Option.map_eq_some_iff.mp found
    exact ⟨rfl, rfl, rfl⟩
  | builtin b =>
    cases found
    exact ⟨rfl, rfl, rfl⟩
  | constBuiltin k =>
    obtain ⟨name, -, rfl⟩ := Option.map_eq_some_iff.mp found
    exact ⟨rfl, rfl, rfl⟩
  | UNTYPED_INT =>
    cases found
    exact ⟨rfl, rfl, rfl⟩
  | UNTYPED_FLOAT =>
    cases found
    exact ⟨rfl, rfl, rfl⟩

namespace TypeRef

theorem pointTo_readOnly (isRef isReadOnlyRef : Bool) (r : TypeRef) :
    (r.pointTo isRef isReadOnlyRef).readOnly = (isRef && isReadOnlyRef) := by
  simp only [pointTo]
  split <;> rfl

theorem pointTo_isOptional (isRef isReadOnlyRef : Bool) (r : TypeRef) :
    (r.pointTo isRef isReadOnlyRef).isOptional = r.isOptional := by
  simp only [pointTo]
  split <;> rfl

theorem pointTo_scalar {isRef isReadOnlyRef : Bool} {r : TypeRef}
    (kind : (r.pointTo isRef isReadOnlyRef).containerKind = .SCALAR) :
    r.containerKind = .SCALAR ∧ (r.pointTo isRef isReadOnlyRef).ptrDepth = r.ptrDepth + 1 := by
  obtain ⟨base, ptrDepth, containerKind⟩ := r
  cases containerKind with
  | SCALAR => exact ⟨rfl, rfl⟩
  | ARRAY => cases kind
  | SLICE_RO => cases isRef <;> cases kind
  | SLICE_MUT => cases isRef <;> cases kind

theorem pointTo_depth {isRef isReadOnlyRef : Bool} {r : TypeRef}
    (kind : (r.pointTo isRef isReadOnlyRef).containerKind ≠ .SCALAR) :
    (r.pointTo isRef isReadOnlyRef).containerPtrDepth = r.containerPtrDepth + 1 := by
  obtain ⟨base, ptrDepth, containerKind⟩ := r
  cases containerKind with
  | SCALAR => exact absurd rfl kind
  | ARRAY => rfl
  | SLICE_RO => cases isRef <;> rfl
  | SLICE_MUT => cases isRef <;> rfl

end TypeRef

theorem forall₂_of_getElem? {α β : Type} {R : α → β → Prop} {as : List α} {bs : List β} (length : as.length = bs.length)
    (each : ∀ (i : Nat) (a : α) (b : β), as[i]? = some a → bs[i]? = some b → R a b) : List.Forall₂ R as bs := by
  induction as generalizing bs with
  | nil =>
    cases bs with
    | nil => exact .nil
    | cons b bs => cases length
  | cons a as ih =>
    cases bs with
    | nil => cases length
    | cons b bs =>
      exact .cons (each 0 a b rfl rfl) (ih (Nat.succ.inj length) fun i c d atC atD => each (i + 1) c d atC atD)

section Cases

variable {scope : Scope δ κ} {s : Tables} {r : TypeRef} {ty : Ty κ}

theorem TypeRef.eq_scalar {r : TypeRef} (tidy : r.Tidy) (kind : r.containerKind = .SCALAR) (depth : r.ptrDepth = 0)
    (present : r.isOptional = false) : r = .scalar r.baseName := by
  refine TypeRef.eq_scalar_of_isPlain tidy ?_
  simp only [isPlain, kind, depth, present, (tidy.scalar kind).1, decide_true, Bool.not_false, Bool.and_self]

/-- What a read-only reference to a plain type reference stands for. -/
theorem Stands.ref_cases (stands : Stands scope s r ty) (kind : r.containerKind = .SCALAR) (depth : r.ptrDepth = 1)
    (readOnly : r.readOnly = true) (present : r.isOptional = false) :
    ∃ t, ty = .ref t ∧ Stands scope s (.scalar r.baseName) t := by
  cases stands with
  | leaf found =>
    rw [(leafTypeRef_fields found).2.1] at readOnly
    cases readOnly
  | ptr base =>
    rw [TypeRef.pointTo_readOnly] at readOnly
    cases readOnly
  | @ref q t base =>
    obtain ⟨scalar, more⟩ := TypeRef.pointTo_scalar kind
    rw [TypeRef.pointTo_isOptional] at present
    have plain := TypeRef.eq_scalar base.tidy scalar (by omega) present
    rw [TypeRef.pointTo_baseName, ← plain]
    exact ⟨t, rfl, base⟩
  | mutref base =>
    rw [TypeRef.pointTo_readOnly] at readOnly
    cases readOnly
  | array made base =>
    obtain ⟨-, rfl⟩ := TypeRef.arrayOf_eq_some.mp made
    cases kind
  | varray made base =>
    obtain ⟨-, rfl⟩ := TypeRef.varrayOf_eq_some.mp made
    have plain := base.tidy.plain kind (Nat.succ.inj depth)
    rw [show _ = true from readOnly] at plain
    cases plain
  | slice made base =>
    obtain ⟨-, rfl⟩ := TypeRef.sliceOf_eq_some.mp made
    cases kind
  | mutslice made base =>
    obtain ⟨-, rfl⟩ := TypeRef.sliceOf_eq_some.mp made
    cases kind
  | optional base => cases present
  | fn => cases depth
  | tuple => cases depth
  | anon => cases depth

/-- What an array of a plain type reference stands for. -/
theorem Stands.array_cases (stands : Stands scope s r ty) (kind : r.containerKind = .ARRAY) (depth : r.ptrDepth = 0)
    (containerDepth : r.containerPtrDepth = 0) (present : r.isOptional = false) :
    ∃ t, ty = .array r.arrayLen t ∧ Stands scope s (.scalar r.baseName) t := by
  have pointer : ∀ (isRef isReadOnlyRef : Bool) (q : TypeRef), (q.pointTo isRef isReadOnlyRef).containerKind = .ARRAY →
      (q.pointTo isRef isReadOnlyRef).containerPtrDepth ≠ 0 := by
    intro isRef isReadOnlyRef q isArray
    rw [TypeRef.pointTo_depth (by rw [isArray]; decide)]
    exact Nat.succ_ne_zero _
  cases stands with
  | leaf found =>
    rw [(leafTypeRef_fields found).1] at kind
    cases kind
  | ptr base => exact absurd containerDepth (pointer _ _ _ kind)
  | ref base => exact absurd containerDepth (pointer _ _ _ kind)
  | mutref base => exact absurd containerDepth (pointer _ _ _ kind)
  | @array n q _ t made base =>
    obtain ⟨scalar, rfl⟩ := TypeRef.arrayOf_eq_some.mp made
    have plain := TypeRef.eq_scalar base.tidy scalar depth present
    refine ⟨t, rfl, ?_⟩
    rw [plain] at base
    exact base
  | varray made base =>
    obtain ⟨scalar, rfl⟩ := TypeRef.varrayOf_eq_some.mp made
    rw [show _ = _ from scalar] at kind
    cases kind
  | slice made base =>
    obtain ⟨-, rfl⟩ := TypeRef.sliceOf_eq_some.mp made
    cases kind
  | mutslice made base =>
    obtain ⟨-, rfl⟩ := TypeRef.sliceOf_eq_some.mp made
    cases kind
  | optional base => cases present
  | fn => cases kind
  | tuple => cases kind
  | anon => cases kind

/-- What a slice of a plain type reference stands for. -/
theorem Stands.slice_cases (stands : Stands scope s r ty) (isMutable : Bool)
    (kind : r.containerKind = if isMutable then .SLICE_MUT else .SLICE_RO) (depth : r.ptrDepth = 0)
    (containerDepth : r.containerPtrDepth = 0) (present : r.isOptional = false) :
    ∃ t, ty = (if isMutable then .mutslice t else .slice t) ∧ Stands scope s (.scalar r.baseName) t := by
  have notScalar : r.containerKind ≠ .SCALAR := by
    rw [kind]
    cases isMutable <;> decide
  have notArray : r.containerKind ≠ .ARRAY := by
    rw [kind]
    cases isMutable <;> decide
  cases stands with
  | leaf found => exact absurd (leafTypeRef_fields found).1 notScalar
  | ptr base =>
    rw [TypeRef.pointTo_depth notScalar] at containerDepth
    cases containerDepth
  | ref base =>
    rw [TypeRef.pointTo_depth notScalar] at containerDepth
    cases containerDepth
  | mutref base =>
    rw [TypeRef.pointTo_depth notScalar] at containerDepth
    cases containerDepth
  | array made base =>
    obtain ⟨-, rfl⟩ := TypeRef.arrayOf_eq_some.mp made
    exact absurd rfl notArray
  | varray made base =>
    obtain ⟨scalar, rfl⟩ := TypeRef.varrayOf_eq_some.mp made
    exact absurd scalar notScalar
  | @slice q _ t made base =>
    obtain ⟨scalar, rfl⟩ := TypeRef.sliceOf_eq_some.mp made
    have plain := TypeRef.eq_scalar base.tidy scalar depth present
    cases isMutable with
    | true => cases kind
    | false =>
      refine ⟨t, rfl, ?_⟩
      rw [plain] at base
      exact base
  | @mutslice q _ t made base =>
    obtain ⟨scalar, rfl⟩ := TypeRef.sliceOf_eq_some.mp made
    have plain := TypeRef.eq_scalar base.tidy scalar depth present
    cases isMutable with
    | false => cases kind
    | true =>
      refine ⟨t, rfl, ?_⟩
      rw [plain] at base
      exact base
  | optional base => cases present
  | fn => exact absurd rfl notScalar
  | tuple => exact absurd rfl notScalar
  | anon => exact absurd rfl notScalar

/-- What a read-only reference to an array of a plain type reference stands for. -/
theorem Stands.refArray_cases (stands : Stands scope s r ty) (kind : r.containerKind = .ARRAY)
    (depth : r.ptrDepth = 0) (containerDepth : r.containerPtrDepth = 1) (readOnly : r.readOnly = true)
    (present : r.isOptional = false) :
    ∃ t, ty = .ref (.array r.arrayLen t) ∧ Stands scope s (.scalar r.baseName) t := by
  cases stands with
  | leaf found =>
    rw [(leafTypeRef_fields found).1] at kind
    cases kind
  | ptr base =>
    rw [TypeRef.pointTo_readOnly] at readOnly
    cases readOnly
  | @ref q t base =>
    obtain ⟨name, ptrDepth, containerKind, containerPtrDepth, arrayLen, hasArrayLen, isReadOnly, isOptional⟩ := q
    cases containerKind with
    | SCALAR => cases kind
    | SLICE_RO => cases kind
    | SLICE_MUT => cases kind
    | ARRAY =>
      obtain ⟨t, rfl, elem⟩ := base.array_cases rfl depth (Nat.succ.inj containerDepth) present
      exact ⟨t, rfl, elem⟩
  | mutref base =>
    rw [TypeRef.pointTo_readOnly] at readOnly
    cases readOnly
  | array made base =>
    obtain ⟨-, rfl⟩ := TypeRef.arrayOf_eq_some.mp made
    cases containerDepth
  | varray made base =>
    obtain ⟨scalar, rfl⟩ := TypeRef.varrayOf_eq_some.mp made
    rw [show _ = _ from scalar] at kind
    cases kind
  | slice made base =>
    obtain ⟨-, rfl⟩ := TypeRef.sliceOf_eq_some.mp made
    cases kind
  | mutslice made base =>
    obtain ⟨-, rfl⟩ := TypeRef.sliceOf_eq_some.mp made
    cases kind
  | optional base => cases present
  | fn => cases kind
  | tuple => cases kind
  | anon => cases kind

/-- A plain type reference is a leaf or an entry of the tables. -/
theorem Stands.plain_cases (stands : Stands scope s r ty) (kind : r.containerKind = .SCALAR) (depth : r.ptrDepth = 0)
    (present : r.isOptional = false) :
    (∃ l, leafTypeRef scope.toNames l = some r ∧ ty = scope.meaning l) ∨
    (∃ (k : Nat) (info : FnTypeAlias) (params : List (Bool × Ty κ)) (result : Ty κ),
      s.fnTypeAliases[k]? = some info ∧ r = .scalar info.aliasName ∧ ty = .fn params info.isVariadic result ∧
      info.paramTypes.length = params.length ∧ Stands scope s info.returnType result) ∨
    (∃ (k : Nat) (info : AnonTypeInfo) (items : List (Ty κ)),
      s.anonTypes[k]? = some info ∧ r = .scalar info.cName ∧ ty = .tuple items ∧
      info.isUnion = false ∧ 2 ≤ info.fields.length ∧
      (∀ (i : Nat) (f : CIdent × TypeRef), info.fields[i]? = some f → f.1 = tupleFieldName i) ∧
      List.Forall₂ (fun (f : CIdent × TypeRef) t => Stands scope s f.2 t) info.fields items) ∨
    ∃ (k : Nat) (info : AnonTypeInfo) (fields : List (List UInt8 × Ty κ)),
      s.anonTypes[k]? = some info ∧ r = .scalar info.cName ∧ ty = .anon info.isUnion fields ∧
      (∀ f ∈ info.fields, isReservedHOPPrefixName f.1.text = false) ∧
      List.Forall₂ (fun (f : CIdent × TypeRef) (g : List UInt8 × Ty κ) => f.1.text = g.1 ∧ Stands scope s f.2 g.2)
        info.fields fields := by
  have pointer : ∀ (isRef isReadOnlyRef : Bool) (q : TypeRef), (q.pointTo isRef isReadOnlyRef).containerKind = .SCALAR →
      (q.pointTo isRef isReadOnlyRef).ptrDepth ≠ 0 := by
    intro isRef isReadOnlyRef q isScalar
    rw [(TypeRef.pointTo_scalar isScalar).2]
    exact Nat.succ_ne_zero _
  cases stands with
  | @leaf l _ found => exact .inl ⟨l, found, rfl⟩
  | ptr base => exact absurd depth (pointer _ _ _ kind)
  | ref base => exact absurd depth (pointer _ _ _ kind)
  | mutref base => exact absurd depth (pointer _ _ _ kind)
  | array made base =>
    obtain ⟨-, rfl⟩ := TypeRef.arrayOf_eq_some.mp made
    cases kind
  | varray made base =>
    obtain ⟨-, rfl⟩ := TypeRef.varrayOf_eq_some.mp made
    cases depth
  | slice made base =>
    obtain ⟨-, rfl⟩ := TypeRef.sliceOf_eq_some.mp made
    cases kind
  | mutslice made base =>
    obtain ⟨-, rfl⟩ := TypeRef.sliceOf_eq_some.mp made
    cases kind
  | optional base => cases present
  | @fn k info params result entry length each last =>
    exact .inr (.inl ⟨k, info, params, result, entry, rfl, rfl, length, last⟩)
  | @tuple k info items entry isStruct many length named each =>
    exact .inr (.inr (.inl ⟨k, info, items, entry, rfl, rfl, isStruct, many, named,
      forall₂_of_getElem? length each⟩))
  | @anon k info fields entry length unreserved named each =>
    exact .inr (.inr (.inr ⟨k, info, fields, entry, rfl, rfl, unreserved,
      forall₂_of_getElem? length fun i f g atF atG => ⟨named i f g atF atG, each i f g atF atG⟩⟩))

theorem TypeRef.scalar_injective {a b : CIdent} (same : TypeRef.scalar a = TypeRef.scalar b) : a = b :=
  congrArg TypeRef.baseName same

/-- The name of a leaf stands for what leaves of the name mean. -/
theorem Stands.leaf_cases (named : s.Named scope.packageName) {l : Leaf δ} {name : CIdent}
    (found : leafTypeRef scope.toNames l = some (.scalar name)) (stands : Stands scope s (.scalar name) ty) :
    ∃ l', leafTypeRef scope.toNames l' = some (.scalar name) ∧ ty = scope.meaning l' := by
  have other := leafTypeRef_not_generated found
  rcases stands.plain_cases rfl rfl rfl with leaf | ⟨k, info, params, result, entry, same, -⟩ |
    ⟨k, info, items, entry, same, -⟩ | ⟨k, info, fields, entry, same, -⟩
  · exact leaf
  · rw [same, show (TypeRef.scalar info.aliasName).baseName = info.aliasName from rfl, named.fns k info entry,
      isGeneratedTypeName_fn] at other
    cases other
  · rw [same, show (TypeRef.scalar info.cName).baseName = info.cName from rfl, (named.anons k info entry).1,
      isGeneratedTypeName_anon] at other
    cases other
  · rw [same, show (TypeRef.scalar info.cName).baseName = info.cName from rfl, (named.anons k info entry).1,
      isGeneratedTypeName_anon] at other
    cases other

/-- The name of a function type stands for function types with the parts of its entry. -/
theorem Stands.fn_cases (named : s.Named scope.packageName) {k : Nat} {info : FnTypeAlias}
    (entry : s.fnTypeAliases[k]? = some info) (stands : Stands scope s (.scalar info.aliasName) ty) :
    ∃ (params : List (Bool × Ty κ)) (result : Ty κ), ty = .fn params info.isVariadic result ∧
      info.paramTypes.length = params.length ∧ Stands scope s info.returnType result := by
  have name := named.fns k info entry
  rcases stands.plain_cases rfl rfl rfl with ⟨l, found, -⟩ | ⟨j, other, params, result, atJ, same, isFn, rest⟩ |
    ⟨j, other, items, atJ, same, -⟩ | ⟨j, other, fields, atJ, same, -⟩
  · have generated := leafTypeRef_not_generated found
    rw [show (TypeRef.scalar info.aliasName).baseName = info.aliasName from rfl, name,
      isGeneratedTypeName_fn] at generated
    cases generated
  · have names := TypeRef.scalar_injective same
    rw [name, named.fns j other atJ] at names
    rw [fnTypeAliasName_injective names, atJ] at entry
    cases entry
    exact ⟨params, result, isFn, rest⟩
  · have names := TypeRef.scalar_injective same
    rw [name, (named.anons j other atJ).1] at names
    exact absurd names fnTypeAliasName_ne_anonTypeName
  · have names := TypeRef.scalar_injective same
    rw [name, (named.anons j other atJ).1] at names
    exact absurd names fnTypeAliasName_ne_anonTypeName

/-- The name of an anonymous type stands for tuples or for anonymous aggregates with the fields of its entry. -/
theorem Stands.anon_cases (named : s.Named scope.packageName) {k : Nat} {info : AnonTypeInfo}
    (entry : s.anonTypes[k]? = some info) (stands : Stands scope s (.scalar info.cName) ty) :
    (∃ items : List (Ty κ), ty = .tuple items ∧ info.isUnion = false ∧ 2 ≤ info.fields.length ∧
      (∀ (i : Nat) (f : CIdent × TypeRef), info.fields[i]? = some f → f.1 = tupleFieldName i) ∧
      List.Forall₂ (fun (f : CIdent × TypeRef) t => Stands scope s f.2 t) info.fields items) ∨
    ∃ fields : List (List UInt8 × Ty κ), ty = .anon info.isUnion fields ∧
      (∀ f ∈ info.fields, isReservedHOPPrefixName f.1.text = false) ∧
      List.Forall₂ (fun (f : CIdent × TypeRef) (g : List UInt8 × Ty κ) => f.1.text = g.1 ∧ Stands scope s f.2 g.2)
        info.fields fields := by
  have name := (named.anons k info entry).1
  rcases stands.plain_cases rfl rfl rfl with ⟨l, found, -⟩ | ⟨j, other, params, result, atJ, same, isFn, rest⟩ |
    ⟨j, other, items, atJ, same, isTuple, rest⟩ | ⟨j, other, fields, atJ, same, isAnon, rest⟩
  · have generated := leafTypeRef_not_generated found
    rw [show (TypeRef.scalar info.cName).baseName = info.cName from rfl, name, isGeneratedTypeName_anon] at generated
    cases generated
  · have names := TypeRef.scalar_injective same
    rw [name, named.fns j other atJ] at names
    exact absurd names.symm fnTypeAliasName_ne_anonTypeName
  · have names := TypeRef.scalar_injective same
    rw [name, (named.anons j other atJ).1] at names
    rw [anonTypeName_injective names, atJ] at entry
    cases entry
    exact .inl ⟨items, isTuple, rest⟩
  · have names := TypeRef.scalar_injective same
    rw [name, (named.anons j other atJ).1] at names
    rw [anonTypeName_injective names, atJ] at entry
    cases entry
    exact .inr ⟨fields, isAnon, rest⟩

end Cases

end HopHop.CBackend
