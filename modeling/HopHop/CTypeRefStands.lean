import HopHop.CTypeRefMeaning
import Mathlib.Data.List.Forall2

namespace HopHop.CBackend

variable {δ κ : Type} {scope : Scope δ κ} {s t : Tables}

theorem getElem?_of_isPrefix {α : Type} {l m : List α} (starts : l <+: m) {k : Nat} {a : α} (atK : l[k]? = some a) :
    m[k]? = some a := by
  obtain ⟨rest, rfl⟩ := starts
  rwa [List.getElem?_append_left (List.getElem?_eq_some_iff.mp atK).1]

/-- The types that a type reference can stand for, by what the tables say of its base name. -/
inductive Stands (scope : Scope δ κ) (s : Tables) : TypeRef → Ty κ → Prop
  | leaf {l : Leaf δ} {r : TypeRef} (found : leafTypeRef scope.toNames l = some r) : Stands scope s r (scope.meaning l)
  | ptr {r : TypeRef} {t : Ty κ} (base : Stands scope s r t) : Stands scope s (r.pointTo false false) (.ptr t)
  | ref {r : TypeRef} {t : Ty κ} (base : Stands scope s r t) : Stands scope s (r.pointTo true true) (.ref t)
  | mutref {r : TypeRef} {t : Ty κ} (base : Stands scope s r t) : Stands scope s (r.pointTo true false) (.mutref t)
  | array {n : Nat} {r q : TypeRef} {t : Ty κ} (made : r.arrayOf n = some q) (base : Stands scope s r t) :
    Stands scope s q (.array n t)
  | varray {lenName : List UInt8} {r q : TypeRef} {t : Ty κ} (made : r.varrayOf = some q) (base : Stands scope s r t) :
    Stands scope s q (.varray lenName t)
  | slice {r q : TypeRef} {t : Ty κ} (made : r.sliceOf false = some q) (base : Stands scope s r t) :
    Stands scope s q (.slice t)
  | mutslice {r q : TypeRef} {t : Ty κ} (made : r.sliceOf true = some q) (base : Stands scope s r t) :
    Stands scope s q (.mutslice t)
  | optional {r : TypeRef} {t : Ty κ} (base : Stands scope s r t) : Stands scope s r.optionalOf (.optional t)
  | fn {k : Nat} {info : FnTypeAlias} {params : List (Bool × Ty κ)} {result : Ty κ}
    (entry : s.fnTypeAliases[k]? = some info) (length : info.paramTypes.length = params.length)
    (each : ∀ (i : Nat) (r : TypeRef) (p : Bool × Ty κ), info.paramTypes[i]? = some r → params[i]? = some p → Stands scope s r p.2)
    (last : Stands scope s info.returnType result) :
    Stands scope s (.scalar info.aliasName) (.fn params info.isVariadic result)
  | tuple {k : Nat} {info : AnonTypeInfo} {items : List (Ty κ)} (entry : s.anonTypes[k]? = some info)
    (isStruct : info.isUnion = false) (many : 2 ≤ info.fields.length) (length : info.fields.length = items.length)
    (named : ∀ (i : Nat) (f : CIdent × TypeRef), info.fields[i]? = some f → f.1 = tupleFieldName i)
    (each : ∀ (i : Nat) (f : CIdent × TypeRef) (t : Ty κ), info.fields[i]? = some f → items[i]? = some t → Stands scope s f.2 t) :
    Stands scope s (.scalar info.cName) (.tuple items)
  | anon {k : Nat} {info : AnonTypeInfo} {fields : List (List UInt8 × Ty κ)} (entry : s.anonTypes[k]? = some info)
    (length : info.fields.length = fields.length)
    (unreserved : ∀ f ∈ info.fields, isReservedHOPPrefixName f.1.text = false)
    (named : ∀ (i : Nat) (f : CIdent × TypeRef) (g : List UInt8 × Ty κ), info.fields[i]? = some f → fields[i]? = some g → f.1.text = g.1)
    (each : ∀ (i : Nat) (f : CIdent × TypeRef) (g : List UInt8 × Ty κ), info.fields[i]? = some f → fields[i]? = some g → Stands scope s f.2 g.2) :
    Stands scope s (.scalar info.cName) (.anon info.isUnion fields)

theorem Stands.mono {r : TypeRef} {ty : Ty κ} (stands : Stands scope s r ty) (grows : s.Grows t) :
    Stands scope t r ty := by
  induction stands with
  | leaf found => exact .leaf found
  | ptr _ ih => exact .ptr ih
  | ref _ ih => exact .ref ih
  | mutref _ ih => exact .mutref ih
  | array made _ ih => exact .array made ih
  | varray made _ ih => exact .varray made ih
  | slice made _ ih => exact .slice made ih
  | mutslice made _ ih => exact .mutslice made ih
  | optional _ ih => exact .optional ih
  | fn entry length _ _ ihEach ihLast => exact .fn (getElem?_of_isPrefix grows.fns entry) length ihEach ihLast
  | tuple entry isStruct many length named _ ih =>
    exact .tuple (getElem?_of_isPrefix grows.anons entry) isStruct many length named ih
  | anon entry length unreserved named _ ih =>
    exact .anon (getElem?_of_isPrefix grows.anons entry) length unreserved named ih

/-- What holds of every type reference that the backend makes from a tree. -/
structure TypeRef.Tidy (r : TypeRef) : Prop where
  scalar : r.containerKind = .SCALAR → r.containerPtrDepth = 0 ∧ r.arrayLen = 0 ∧ r.hasArrayLen = false
  plain : r.containerKind = .SCALAR → r.ptrDepth = 0 → r.readOnly = false
  array : r.containerKind = .ARRAY → r.hasArrayLen = true ∧ (r.containerPtrDepth = 0 → r.readOnly = false)

theorem TypeRef.Tidy.setBase {r : TypeRef} (tidy : r.Tidy) (a : CIdent) : (r.setBase a).Tidy :=
  ⟨tidy.scalar, tidy.plain, tidy.array⟩

theorem leafTypeRef_tidy {names : Names δ} {l : Leaf δ} {r : TypeRef} (found : leafTypeRef names l = some r) :
    r.Tidy := by
  have plain : ∀ (name : CIdent) (depth : Nat), ({ TypeRef.scalar name with ptrDepth := depth }).Tidy := by
    intro name depth
    exact ⟨fun _ => ⟨rfl, rfl, rfl⟩, fun _ _ => rfl, fun kind => by cases kind⟩
  cases l with
  | declared d =>
    obtain ⟨name, -, rfl⟩ := Option.map_eq_some_iff.mp found
    exact plain _ 0
  | builtin b =>
    cases found
    exact plain _ _
  | constBuiltin k =>
    obtain ⟨name, -, rfl⟩ := Option.map_eq_some_iff.mp found
    exact plain _ _
  | UNTYPED_INT =>
    cases found
    exact plain _ 0
  | UNTYPED_FLOAT =>
    cases found
    exact plain _ 0

theorem TypeRef.pointTo_tidy {r : TypeRef} (tidy : r.Tidy) (isRef isReadOnlyRef : Bool) :
    (r.pointTo isRef isReadOnlyRef).Tidy := by
  obtain ⟨base, ptrDepth, kind, containerPtrDepth, arrayLen, hasArrayLen, readOnly, isOptional⟩ := r
  cases kind with
  | SCALAR => exact ⟨tidy.scalar, fun _ zero => absurd zero (Nat.succ_ne_zero _), fun kind => by cases kind⟩
  | ARRAY =>
    exact ⟨fun kind => by (cases kind), fun kind => by (cases kind),
      fun _ => ⟨(tidy.array rfl).1, fun zero => absurd zero (Nat.succ_ne_zero _)⟩⟩
  | SLICE_RO => cases isRef <;> exact ⟨fun kind => by (cases kind), fun kind => by (cases kind), fun kind => by cases kind⟩
  | SLICE_MUT => cases isRef <;> exact ⟨fun kind => by (cases kind), fun kind => by (cases kind), fun kind => by cases kind⟩

theorem TypeRef.arrayOf_eq_some {r q : TypeRef} {n : Nat} : r.arrayOf n = some q ↔ r.containerKind = .SCALAR ∧
    q = { r with
      containerKind := .ARRAY
      containerPtrDepth := 0
      arrayLen := n
      hasArrayLen := true
      readOnly := false } := by
  rw [arrayOf, Option.ite_none_right_eq_some, Option.some.injEq, eq_comm (a := q)]

theorem TypeRef.sliceOf_eq_some {r q : TypeRef} {isMutable : Bool} :
    r.sliceOf isMutable = some q ↔ r.containerKind = .SCALAR ∧
      q = { r with
        containerKind := if isMutable then .SLICE_MUT else .SLICE_RO
        containerPtrDepth := 0
        hasArrayLen := false
        arrayLen := 0
        readOnly := !isMutable } := by
  rw [sliceOf, Option.ite_none_right_eq_some, Option.some.injEq, eq_comm (a := q)]

theorem TypeRef.varrayOf_eq_some {r q : TypeRef} :
    r.varrayOf = some q ↔ r.containerKind = .SCALAR ∧ q = { r with ptrDepth := r.ptrDepth + 1 } := by
  rw [varrayOf, Option.ite_none_right_eq_some, Option.some.injEq, eq_comm (a := q)]

theorem TypeRef.scalar_tidy (name : CIdent) : (TypeRef.scalar name).Tidy :=
  ⟨fun _ => ⟨rfl, rfl, rfl⟩, fun _ _ => rfl, fun kind => by cases kind⟩

theorem Stands.tidy {r : TypeRef} {ty : Ty κ} (stands : Stands scope s r ty) : r.Tidy := by
  induction stands with
  | leaf found => exact leafTypeRef_tidy found
  | ptr _ ih => exact TypeRef.pointTo_tidy ih _ _
  | ref _ ih => exact TypeRef.pointTo_tidy ih _ _
  | mutref _ ih => exact TypeRef.pointTo_tidy ih _ _
  | array made _ ih =>
    obtain ⟨-, rfl⟩ := TypeRef.arrayOf_eq_some.mp made
    exact ⟨fun kind => by (cases kind), fun kind => by (cases kind), fun _ => ⟨rfl, fun _ => rfl⟩⟩
  | varray made _ ih =>
    obtain ⟨kind, rfl⟩ := TypeRef.varrayOf_eq_some.mp made
    exact ⟨ih.scalar, fun _ zero => absurd zero (Nat.succ_ne_zero _), fun other => by
      rw [show _ = _ from kind] at other
      cases other⟩
  | slice made _ ih =>
    obtain ⟨-, rfl⟩ := TypeRef.sliceOf_eq_some.mp made
    exact ⟨fun kind => by (cases kind), fun kind => by (cases kind), fun kind => by cases kind⟩
  | mutslice made _ ih =>
    obtain ⟨-, rfl⟩ := TypeRef.sliceOf_eq_some.mp made
    exact ⟨fun kind => by (cases kind), fun kind => by (cases kind), fun kind => by cases kind⟩
  | optional _ ih => exact ⟨ih.scalar, ih.plain, ih.array⟩
  | fn => exact TypeRef.scalar_tidy _
  | tuple => exact TypeRef.scalar_tidy _
  | anon => exact TypeRef.scalar_tidy _

/-! ### Aliases -/

theorem TypeRef.eq_scalar_of_isPlain {r : TypeRef} (tidy : r.Tidy) (plain : r.isPlain = true) :
    r = .scalar r.baseName := by
  obtain ⟨base, ptrDepth, kind, containerPtrDepth, arrayLen, hasArrayLen, readOnly, isOptional⟩ := r
  simp only [isPlain, Bool.and_eq_true, decide_eq_true_eq, Bool.not_eq_true'] at plain
  obtain ⟨⟨⟨isScalar, noPtr⟩, -⟩, notOptional⟩ := plain
  obtain ⟨noContainerPtr, noLen, noArray⟩ := tidy.scalar isScalar
  have writable := tidy.plain isScalar noPtr
  simp only at isScalar noPtr notOptional noContainerPtr noLen noArray writable
  rw [isScalar, noPtr, notOptional, noContainerPtr, noLen, noArray, writable]
  rfl

theorem scalar_isPlain (name : CIdent) : (TypeRef.scalar name).isPlain = true := rfl

/-- The entries of the alias table stand for the targets of the aliases whose names they have. -/
def AliasesStand (scope : Scope δ κ) (s : Tables) : Prop :=
  ∀ info ∈ s.typeAliases, ∃ d t c, scope.target d = some t ∧ scope.cName d = some c ∧
    info.aliasName = c.toCIdent ∧ Stands scope s info.targetType (t.denote scope.meaning)

/-- A type reference over the name of an alias stands for the same types over the name of the target. -/
theorem Stands.setBase_target (named : s.Named scope.packageName) {d : δ} {target : TypeTree δ} {c : CName}
    (isTarget : scope.target d = some target) (isName : scope.cName d = some c) {base : CIdent}
    (plain : Stands scope s (.scalar base) (target.denote scope.meaning)) {r : TypeRef} {ty : Ty κ}
    (stands : Stands scope s r ty) (based : r.baseName = c.toCIdent) : Stands scope s (r.setBase base) ty := by
  have made : ∀ name, isGeneratedTypeName name = true → name ≠ c.toCIdent := by
    rintro name generated rfl
    rw [c.not_generated] at generated
    cases generated
  induction stands with
  | @leaf l r found =>
    have isAlias := scope.alias_named d c l r (by rw [isTarget]; rfl) isName found based
    subst isAlias
    obtain ⟨name, -, rfl⟩ := Option.map_eq_some_iff.mp found
    rw [scope.target_meaning d target isTarget]
    exact plain
  | @ptr r t _ ih =>
    rw [← TypeRef.pointTo_setBase]
    exact .ptr (ih ((TypeRef.pointTo_baseName _ _ _).symm.trans based))
  | @ref r t _ ih =>
    rw [← TypeRef.pointTo_setBase]
    exact .ref (ih ((TypeRef.pointTo_baseName _ _ _).symm.trans based))
  | @mutref r t _ ih =>
    rw [← TypeRef.pointTo_setBase]
    exact .mutref (ih ((TypeRef.pointTo_baseName _ _ _).symm.trans based))
  | @array n r q t made _ ih =>
    have again := TypeRef.arrayOf_setBase base n r
    rw [made, Option.map_some] at again
    obtain ⟨-, rfl⟩ := TypeRef.arrayOf_eq_some.mp made
    exact .array again (ih based)
  | @varray lenName r q t made _ ih =>
    have again := TypeRef.varrayOf_setBase base r
    rw [made, Option.map_some] at again
    obtain ⟨-, rfl⟩ := TypeRef.varrayOf_eq_some.mp made
    exact .varray again (ih based)
  | @slice r q t made _ ih =>
    have again := TypeRef.sliceOf_setBase base false r
    rw [made, Option.map_some] at again
    obtain ⟨-, rfl⟩ := TypeRef.sliceOf_eq_some.mp made
    exact .slice again (ih based)
  | @mutslice r q t made _ ih =>
    have again := TypeRef.sliceOf_setBase base true r
    rw [made, Option.map_some] at again
    obtain ⟨-, rfl⟩ := TypeRef.sliceOf_eq_some.mp made
    exact .mutslice again (ih based)
  | optional _ ih => exact .optional (ih based)
  | @fn k info _ _ entry =>
    have name := named.fns k info entry
    exact absurd based (made info.aliasName (name ▸ isGeneratedTypeName_fn _ _))
  | @tuple k info _ entry =>
    have name := (named.anons k info entry).1
    exact absurd based (made info.cName (name ▸ isGeneratedTypeName_anon _ _ _))
  | @anon k info _ entry =>
    have name := (named.anons k info entry).1
    exact absurd based (made info.cName (name ▸ isGeneratedTypeName_anon _ _ _))

theorem findTypeAliasInfo_some {name : CIdent} {info : TypeAliasInfo}
    (found : findTypeAliasInfoByAliasName s name = some info) : info ∈ s.typeAliases ∧ info.aliasName = name := by
  have holds := List.find?_some found
  exact ⟨List.mem_of_find?_eq_some found, of_decide_eq_true holds⟩

theorem Stands.resolveAlias (named : t.Named scope.packageName) (aliases : AliasesStand scope s) (grows : s.Grows t)
    (n : Nat) {r : TypeRef} {ty : Ty κ} (stands : Stands scope t r ty) :
    Stands scope t (r.setBase (resolveAlias s n r.baseName)) ty := by
  induction n generalizing r with
  | zero => exact stands
  | succ n ih =>
    rw [CBackend.resolveAlias]
    cases found : findTypeAliasInfoByAliasName s r.baseName with
    | none => exact stands
    | some info =>
      dsimp only
      by_cases plain : info.targetType.isPlain = true
      · rw [if_pos plain]
        obtain ⟨member, isBase⟩ := findTypeAliasInfo_some found
        obtain ⟨d, target, c, isTarget, isName, same, targetStands⟩ := aliases info member
        rw [TypeRef.eq_scalar_of_isPlain targetStands.tidy plain] at targetStands
        exact ih (Stands.setBase_target named isTarget isName (targetStands.mono grows) stands
          (isBase.symm.trans same))
      · rw [if_neg plain]
        exact stands

theorem Stands.canonicalize (named : t.Named scope.packageName) (aliases : AliasesStand scope s) (grows : s.Grows t)
    {r : TypeRef} {ty : Ty κ} (stands : Stands scope t r ty) :
    Stands scope t (canonicalizeTypeRefBaseName s r) ty :=
  stands.resolveAlias named aliases grows (s.typeAliases.length + 1)

/-! ### What is parsed stands for what is denoted -/

theorem forall₂_getElem? {α β : Type} {R : α → β → Prop} {as : List α} {bs : List β} (each : List.Forall₂ R as bs) :
    ∀ (i : Nat) (a : α) (b : β), as[i]? = some a → bs[i]? = some b → R a b := by
  induction each with
  | nil =>
    intro i a b atA _
    cases atA
  | cons first rest ih =>
    intro i a b atA atB
    cases i with
    | zero =>
      cases atA
      cases atB
      exact first
    | succ i => exact ih i a b atA atB

theorem leaf_of_typeValue {v : TypeValue δ} {r : TypeRef}
    (parsed : parseTypeRefFromConstEvalTypeId scope.toNames v = some r) :
    Stands scope s r (v.denote scope.meaning) := by
  induction v generalizing r with
  | BUILTIN k => exact .leaf parsed
  | NAMED d => exact .leaf parsed
  | PTR base ih =>
    obtain ⟨q, atBase, rfl⟩ := Option.map_eq_some_iff.mp parsed
    exact .ptr (ih atBase)
  | REF isMutable base ih =>
    obtain ⟨q, atBase, rfl⟩ := Option.map_eq_some_iff.mp parsed
    cases isMutable with
    | false => exact .ref (ih atBase)
    | true => exact .mutref (ih atBase)
  | ARRAY arrayLen base ih =>
    obtain ⟨q, atBase, made⟩ := Option.bind_eq_some_iff.mp parsed
    exact .array made (ih atBase)
  | SLICE isMutable base ih =>
    obtain ⟨q, atBase, made⟩ := Option.bind_eq_some_iff.mp parsed
    cases isMutable with
    | false => exact .slice made (ih atBase)
    | true => exact .mutslice made (ih atBase)
  | OPTIONAL base ih =>
    obtain ⟨q, atBase, rfl⟩ := Option.map_eq_some_iff.mp parsed
    exact .optional (ih atBase)
  | UNTYPED_INT => exact .leaf parsed
  | UNTYPED_FLOAT => exact .leaf parsed
  | INVALID => cases parsed

/-- The parts of a function type stand for the parts of the denoted one. -/
structure FnStands (scope : Scope δ κ) (s : Tables) (children : FnChildren δ) (isVariadic : Bool)
    (parts : List TypeRef × Bool × TypeRef) : Prop where
  params : List.Forall₂ (fun r (p : Bool × Ty κ) => Stands scope s r p.2) parts.1 (children.params scope.meaning)
  isVariadic : parts.2.1 = (isVariadic || children.isVariadic)
  result : Stands scope s parts.2.2 (children.result_ scope.meaning)

theorem FnStands.mono {children : FnChildren δ} {isVariadic : Bool} {parts : List TypeRef × Bool × TypeRef}
    (stands : FnStands scope s children isVariadic parts) (grows : s.Grows t) :
    FnStands scope t children isVariadic parts :=
  ⟨stands.params.imp fun _ _ one => one.mono grows, stands.isVariadic, stands.result.mono grows⟩

theorem AliasesStand.mono (aliases : AliasesStand scope s) (extends_ : s.Extends t) : AliasesStand scope t := by
  intro info member
  obtain ⟨d, target, c, isTarget, isName, same, stands⟩ := aliases info (extends_.aliases ▸ member)
  exact ⟨d, target, c, isTarget, isName, same, stands.mono extends_.grows⟩

variable (scope)

mutual

theorem parseTypeRef_stands {s t : Tables} (tree : TypeTree δ) (named : s.Named scope.packageName) (aliases : AliasesStand scope s)
    {r : TypeRef} (parsed : parseTypeRef scope.toNames tree s = (some r, t)) :
    Stands scope t r (tree.denote scope.meaning) := by
  cases tree with
  | TYPE_NAME l =>
    rw [parseTypeRef, Prod.mk.injEq] at parsed
    rw [TypeTree.denote]
    exact .leaf parsed.1
  | TYPE_VALUE v =>
    rw [parseTypeRef, Prod.mk.injEq] at parsed
    rw [TypeTree.denote]
    exact leaf_of_typeValue parsed.1
  | TYPE_PTR child =>
    rw [parseTypeRef] at parsed
    obtain ⟨q, s', first, last⟩ := Parsed.andThen_eq_some.mp parsed
    cases last
    rw [TypeTree.denote]
    exact .ptr (parseTypeRef_stands child named aliases first)
  | TYPE_REF child =>
    rw [parseTypeRef] at parsed
    obtain ⟨q, s', first, last⟩ := Parsed.andThen_eq_some.mp parsed
    cases last
    rw [TypeTree.denote]
    exact .ref (parseTypeRef_stands child named aliases first)
  | TYPE_MUTREF child =>
    rw [parseTypeRef] at parsed
    obtain ⟨q, s', first, last⟩ := Parsed.andThen_eq_some.mp parsed
    cases last
    rw [TypeTree.denote]
    exact .mutref (parseTypeRef_stands child named aliases first)
  | TYPE_ARRAY len child =>
    rw [parseTypeRef] at parsed
    obtain ⟨q, s', first, last⟩ := Parsed.andThen_eq_some.mp parsed
    rw [Prod.mk.injEq] at last
    obtain ⟨made, rfl⟩ := last
    obtain ⟨n, isLen, made⟩ := Option.bind_eq_some_iff.mp made
    have length : n = (len.getD 0).toNat := by
      obtain ⟨m, rfl, fits⟩ := Option.bind_eq_some_iff.mp isLen
      rw [Option.ite_none_right_eq_some, Option.some.injEq] at fits
      exact fits.2.symm
    rw [TypeTree.denote, ← length]
    exact .array made (parseTypeRef_stands child named aliases first)
  | TYPE_VARRAY lenName child =>
    rw [parseTypeRef] at parsed
    obtain ⟨q, s', first, last⟩ := Parsed.andThen_eq_some.mp parsed
    rw [Prod.mk.injEq] at last
    obtain ⟨made, rfl⟩ := last
    rw [TypeTree.denote]
    exact .varray made (parseTypeRef_stands child named aliases first)
  | TYPE_SLICE child =>
    rw [parseTypeRef] at parsed
    obtain ⟨q, s', first, last⟩ := Parsed.andThen_eq_some.mp parsed
    rw [Prod.mk.injEq] at last
    obtain ⟨made, rfl⟩ := last
    rw [TypeTree.denote]
    exact .slice made (parseTypeRef_stands child named aliases first)
  | TYPE_MUTSLICE child =>
    rw [parseTypeRef] at parsed
    obtain ⟨q, s', first, last⟩ := Parsed.andThen_eq_some.mp parsed
    rw [Prod.mk.injEq] at last
    obtain ⟨made, rfl⟩ := last
    rw [TypeTree.denote]
    exact .mutslice made (parseTypeRef_stands child named aliases first)
  | TYPE_OPTIONAL child =>
    rw [parseTypeRef] at parsed
    obtain ⟨q, s', first, last⟩ := Parsed.andThen_eq_some.mp parsed
    have known := (parseTypeRef_steady scope.toNames child).named s named
    rw [first] at known
    have more := (typeRefLowerForStorage_steady q.optionalOf).extends_ s' known
    cases last
    rw [TypeTree.denote]
    exact (Stands.optional (parseTypeRef_stands child named aliases first)).mono more.grows
  | TYPE_FN children =>
    rw [parseTypeRef] at parsed
    obtain ⟨parts, s', first, last⟩ := Parsed.andThen_eq_some.mp parsed
    have known := (parseFnChildren_steady scope.toNames children false).named s named
    rw [first] at known
    obtain ⟨-, more, ⟨k, entry⟩, -⟩ := @ensureFnTypeAlias_spec _ parts.2.2 parts.1 parts.2.1 _ known
    have stands := (parseFnChildren_stands children false named aliases first).mono more.grows
    cases last
    rw [TypeTree.denote]
    have variadic := stands.isVariadic
    rw [Bool.false_or] at variadic
    rw [← variadic]
    exact .fn entry stands.params.length_eq (forall₂_getElem? stands.params) stands.result
  | TYPE_TUPLE items =>
    rw [parseTypeRef] at parsed
    obtain ⟨fields, s', first, last⟩ := Parsed.andThen_eq_some.mp parsed
    have known := (parseTypeItems_steady scope.toNames items 0).named s named
    rw [first] at known
    by_cases few : fields.length < 2
    · rw [if_pos few] at last
      cases last
    · rw [if_neg few] at last
      obtain ⟨-, more, ⟨k, entry⟩, -⟩ := @ensureAnonTypeByFields_spec _ false fields _ known
      obtain ⟨names, stands⟩ := parseTypeItems_stands items 0 named aliases first
      cases last
      rw [TypeTree.denote]
      refine .tuple entry rfl (by simp only; omega) stands.length_eq ?_ ?_
      · intro i f atI
        have name := names i f atI
        rwa [Nat.zero_add] at name
      · exact fun i f ty atI atTy => (forall₂_getElem? stands i f ty atI atTy).mono more.grows
  | TYPE_ANON isUnion fields =>
    rw [parseTypeRef] at parsed
    obtain ⟨parsedFields, s', first, last⟩ := Parsed.andThen_eq_some.mp parsed
    have known := (parseTypeFields_steady scope.toNames fields 0).named s named
    rw [first] at known
    obtain ⟨-, more, ⟨k, entry⟩, -⟩ := @ensureAnonTypeByFields_spec _ isUnion parsedFields _ known
    obtain ⟨unreserved, stands⟩ := parseTypeFields_stands fields 0 named aliases first
    cases last
    rw [TypeTree.denote]
    exact .anon entry stands.length_eq unreserved
      (fun i f g atI atG => (forall₂_getElem? stands i f g atI atG).1)
      fun i f g atI atG => (forall₂_getElem? stands i f g atI atG).2.mono more.grows

theorem parseFnChildren_stands {s t : Tables} (children : FnChildren δ) (isVariadic : Bool)
    (named : s.Named scope.packageName) (aliases : AliasesStand scope s) {parts : List TypeRef × Bool × TypeRef}
    (parsed : parseFnChildren scope.toNames children isVariadic s = (some parts, t)) :
    FnStands scope t children isVariadic parts := by
  cases children with
  | none =>
    rw [parseFnChildren] at parsed
    cases parsed
    exact ⟨.nil, (Bool.or_false _).symm, .leaf rfl⟩
  | result tree =>
    rw [parseFnChildren] at parsed
    obtain ⟨r, s', first, last⟩ := Parsed.andThen_eq_some.mp parsed
    cases last
    exact ⟨.nil, (Bool.or_false _).symm, parseTypeRef_stands tree named aliases first⟩
  | param isConst isVariadicParam tree rest =>
    rw [parseFnChildren] at parsed
    obtain ⟨r, s', first, last⟩ := Parsed.andThen_eq_some.mp parsed
    cases isVariadic with
    | true =>
      rw [if_pos rfl] at last
      cases last
    | false =>
      rw [if_neg Bool.false_ne_true] at last
      have one := parseTypeRef_stands tree named aliases first
      have known := (parseTypeRef_steady scope.toNames tree).named s named
      have more := (parseTypeRef_steady scope.toNames tree).extends_ s named
      rw [first] at known more
      cases part : (if isVariadicParam then r.sliceOf false else some r) with
      | none =>
        rw [part] at last
        cases last
      | some paramType =>
        rw [part] at last
        obtain ⟨parts', s'', later, all⟩ := Parsed.andThen_eq_some.mp last
        have stands := parseFnChildren_stands rest isVariadicParam known (aliases.mono more) later
        have grows := (parseFnChildren_steady scope.toNames rest isVariadicParam).extends_ s' known
        rw [later] at grows
        cases all
        refine ⟨?_, ?_, ?_⟩
        · rw [FnChildren.params]
          refine .cons ?_ stands.params
          cases isVariadicParam with
          | false =>
            cases part
            exact one.mono grows.grows
          | true => exact (Stands.slice part one).mono grows.grows
        · rw [FnChildren.isVariadic, Bool.false_or]
          exact stands.isVariadic
        · rw [FnChildren.result_]
          exact stands.result

theorem parseTypeItems_stands {s t : Tables} (items : TypeItems δ) (index : Nat)
    (named : s.Named scope.packageName) (aliases : AliasesStand scope s) {fields : List (CIdent × TypeRef)}
    (parsed : parseTypeItems scope.toNames items index s = (some fields, t)) :
    (∀ i f, fields[i]? = some f → f.1 = tupleFieldName (index + i)) ∧
      List.Forall₂ (fun (f : CIdent × TypeRef) ty => Stands scope t f.2 ty) fields (items.denote scope.meaning) := by
  cases items with
  | nil =>
    rw [parseTypeItems] at parsed
    cases parsed
    refine ⟨?_, .nil⟩
    intro i f atI
    cases atI
  | cons tree rest =>
    rw [parseTypeItems] at parsed
    by_cases full : 256 ≤ index
    · rw [if_pos full] at parsed
      cases parsed
    · rw [if_neg full] at parsed
      obtain ⟨r, s', first, last⟩ := Parsed.andThen_eq_some.mp parsed
      obtain ⟨others, s'', later, all⟩ := Parsed.andThen_eq_some.mp last
      have one := parseTypeRef_stands tree named aliases first
      have known := (parseTypeRef_steady scope.toNames tree).named s named
      have more := (parseTypeRef_steady scope.toNames tree).extends_ s named
      rw [first] at known more
      obtain ⟨names, stands⟩ := parseTypeItems_stands rest (index + 1) known (aliases.mono more) later
      have grows := (parseTypeItems_steady scope.toNames rest (index + 1)).extends_ s' known
      rw [later] at grows
      cases all
      refine ⟨?_, ?_⟩
      · intro i f atI
        cases i with
        | zero =>
          cases atI
          rfl
        | succ i =>
          have name := names i f atI
          rwa [Nat.add_assoc, Nat.add_comm 1 i] at name
      · rw [TypeItems.denote]
        exact .cons ((one.canonicalize known (aliases.mono more) (.refl _)).mono grows.grows) stands

theorem parseTypeFields_stands {s t : Tables} (fields : TypeFields δ) (index : Nat)
    (named : s.Named scope.packageName) (aliases : AliasesStand scope s) {parsedFields : List (CIdent × TypeRef)}
    (parsed : parseTypeFields scope.toNames fields index s = (some parsedFields, t)) :
    (∀ f ∈ parsedFields, isReservedHOPPrefixName f.1.text = false) ∧
      List.Forall₂ (fun (f : CIdent × TypeRef) (g : List UInt8 × Ty κ) => f.1.text = g.1 ∧ Stands scope t f.2 g.2)
        parsedFields (fields.denote scope.meaning) := by
  cases fields with
  | nil =>
    rw [parseTypeFields] at parsed
    cases parsed
    refine ⟨?_, .nil⟩
    intro f member
    cases member
  | cons name tree rest =>
    rw [parseTypeFields] at parsed
    by_cases full : 256 ≤ index
    · rw [if_pos full] at parsed
      cases parsed
    · rw [if_neg full] at parsed
      obtain ⟨r, s', first, last⟩ := Parsed.andThen_eq_some.mp parsed
      obtain ⟨others, s'', later, all⟩ := Parsed.andThen_eq_some.mp last
      have one := parseTypeRef_stands tree named aliases first
      have known := (parseTypeRef_steady scope.toNames tree).named s named
      have more := (parseTypeRef_steady scope.toNames tree).extends_ s named
      rw [first] at known more
      obtain ⟨unreserved, stands⟩ := parseTypeFields_stands rest (index + 1) known (aliases.mono more) later
      have grows := (parseTypeFields_steady scope.toNames rest (index + 1)).extends_ s' known
      rw [later] at grows
      cases all
      refine ⟨?_, ?_⟩
      · intro f member
        rcases List.mem_cons.mp member with rfl | old
        · exact name.unreserved
        · exact unreserved f old
      · rw [TypeFields.denote]
        exact .cons ⟨rfl, (one.canonicalize known (aliases.mono more) (.refl _)).mono grows.grows⟩ stands

end

variable {scope}

theorem Reached.aliasesStand (reached : Reached scope.toNames s) : AliasesStand scope s := by
  induction reached with
  | empty =>
    intro info member
    cases member
  | @call s before c ih =>
    intro info member
    rcases c.run_aliases before.named member with old | ⟨d, target, cName, after, isTarget, isName, same, parsed, grows⟩
    · obtain ⟨d, target, cName, isTarget, isName, same, stands⟩ := ih info old
      exact ⟨d, target, cName, isTarget, isName, same, stands.mono (c.run_grows before.named)⟩
    · exact ⟨d, target, cName, isTarget, isName, same,
        (parseTypeRef_stands scope target before.named ih parsed).mono grows⟩

end HopHop.CBackend
