import HopHop.CTypeRefTables

namespace HopHop.CBackend

variable {α β γ δ : Type} {packageName : CIdent}

theorem Parsed.andThen_eq_some {first : Parsed α} {next : α → Tables → Parsed β} {b : β} {t : Tables} :
    first.andThen next = (some b, t) ↔ ∃ a s, first = (some a, s) ∧ next a s = (some b, t) := by
  obtain ⟨value, s⟩ := first
  cases value with
  | none => simp [andThen]
  | some a => simp [andThen]

/-! ### Parsing again in later tables -/

/-- A parser that only adds entries, and that finds them again when it runs in later tables. -/
structure Steady (packageName : CIdent) (parse : Tables → Parsed α) : Prop where
  named : ∀ s : Tables, s.Named packageName → (parse s).2.Named packageName
  extends_ : ∀ s : Tables, s.Named packageName → s.Extends (parse s).2
  again : ∀ (s : Tables) (a : α) (s' t : Tables), s.Named packageName → parse s = (some a, s') → s'.Extends t → parse t = (some a, t)

theorem Steady.pure (value : Option α) : Steady packageName fun s => (value, s) where
  named _ named := named
  extends_ s _ := .refl s
  again s a s' t _ parsed _ := by
    simp only [Prod.mk.injEq] at parsed
    rw [parsed.1]

theorem Steady.andThen {parse : Tables → Parsed α} {next : α → Tables → Parsed β} (first : Steady packageName parse)
    (later : ∀ a, Steady packageName (next a)) : Steady packageName fun s => (parse s).andThen next where
  named s named := by
    have known := first.named s named
    cases result : parse s with
    | mk value s' =>
      rw [result] at known
      cases value with
      | none => exact known
      | some a => exact (later a).named s' known
  extends_ s named := by
    have known := first.named s named
    have grows := first.extends_ s named
    cases result : parse s with
    | mk value s' =>
      rw [result] at known grows
      cases value with
      | none => exact grows
      | some a => exact grows.trans ((later a).extends_ s' known)
  again s b s' t named parsed grows := by
    obtain ⟨a, s₁, one, two⟩ := Parsed.andThen_eq_some.mp parsed
    have known : s₁.Named packageName := by
      have all := first.named s named
      rwa [one] at all
    have more : s₁.Extends s' := by
      have all := (later a).extends_ s₁ known
      rwa [two] at all
    simp only [Parsed.andThen, first.again s a s₁ t named one (more.trans grows)]
    exact (later a).again s₁ b s' t known two grows

theorem Parsed.andThen_assoc (first : Parsed α) (next : α → Tables → Parsed β) (last : β → Tables → Parsed γ) :
    (first.andThen next).andThen last = first.andThen fun a s => (next a s).andThen last := by
  obtain ⟨value, s⟩ := first
  cases value <;> rfl

/-- A step that reads nothing but the aliases. -/
theorem Steady.map_aliases {parse : Tables → Parsed α} {f : Tables → α → β} (first : Steady packageName parse)
    (reads : ∀ s t : Tables, s.typeAliases = t.typeAliases → f s = f t) :
    Steady packageName fun s => (parse s).andThen fun a s => (some (f s a), s) where
  named s named := by
    have known := first.named s named
    cases result : parse s with
    | mk value s' =>
      rw [result] at known
      cases value <;> exact known
  extends_ s named := by
    have grows := first.extends_ s named
    cases result : parse s with
    | mk value s' =>
      rw [result] at grows
      cases value <;> exact grows
  again s b s' t named parsed grows := by
    obtain ⟨a, s₁, one, two⟩ := Parsed.andThen_eq_some.mp parsed
    simp only [Prod.mk.injEq, Option.some.injEq] at two
    obtain ⟨rfl, rfl⟩ := two
    simp only [Parsed.andThen, first.again s a s₁ t named one grows, reads s₁ t grows.aliases]

theorem ensureFnTypeAlias_steady (returnType : TypeRef) (paramTypes : List TypeRef) (isVariadic : Bool) :
    Steady packageName fun s =>
      let alias_ := ensureFnTypeAlias packageName returnType paramTypes isVariadic s
      (some (TypeRef.scalar alias_.1), alias_.2) where
  named s named := (ensureFnTypeAlias_spec named).1
  extends_ s named := (ensureFnTypeAlias_spec named).2.1
  again s a s' t named parsed grows := by
    simp only [Prod.mk.injEq, Option.some.injEq] at parsed
    obtain ⟨rfl, rfl⟩ := parsed
    simp only [(ensureFnTypeAlias_spec named).2.2.2 t grows]

theorem ensureAnonTypeByFields_steady (isUnion : Bool) (fields : List (CIdent × TypeRef)) :
    Steady packageName fun s =>
      let anon := ensureAnonTypeByFields packageName isUnion fields s
      (some (TypeRef.scalar anon.1), anon.2) where
  named s named := (ensureAnonTypeByFields_spec named).1
  extends_ s named := (ensureAnonTypeByFields_spec named).2.1
  again s a s' t named parsed grows := by
    simp only [Prod.mk.injEq, Option.some.injEq] at parsed
    obtain ⟨rfl, rfl⟩ := parsed
    simp only [(ensureAnonTypeByFields_spec named).2.2.2 t grows]

theorem typeRefLowerForStorage_steady (r : TypeRef) :
    Steady packageName fun s => (some r, (typeRefLowerForStorage packageName r s).2) where
  named s named := by
    simp only [typeRefLowerForStorage]
    split
    · exact (ensureAnonTypeByFields_spec named).1
    · exact named
  extends_ s named := by
    simp only [typeRefLowerForStorage]
    split
    · exact (ensureAnonTypeByFields_spec named).2.1
    · exact .refl s
  again s a s' t named parsed grows := by
    simp only [Prod.mk.injEq, Option.some.injEq] at parsed
    obtain ⟨rfl, rfl⟩ := parsed
    simp only [typeRefLowerForStorage] at grows ⊢
    split
    · rename_i tagged
      rw [if_pos tagged] at grows
      simp only [(ensureAnonTypeByFields_spec named).2.2.2 t grows]
    · rfl

theorem canonicalize_reads_aliases {s t : Tables} (same : s.typeAliases = t.typeAliases) :
    canonicalizeTypeRefBaseName s = canonicalizeTypeRefBaseName t := by
  have rounds : ∀ (n : Nat) (name : CIdent), resolveAlias s n name = resolveAlias t n name := by
    intro n
    induction n with
    | zero =>
      intro name
      rfl
    | succ n ih =>
      intro name
      simp only [resolveAlias, findTypeAliasInfoByAliasName, same, ih]
  funext r
  simp only [canonicalizeTypeRefBaseName, resolveScalarAliasBaseName, same, rounds]

theorem Steady.of_eq {parse other : Tables → Parsed α} (steady : Steady packageName other)
    (same : ∀ s, parse s = other s) : Steady packageName parse := by
  rw [funext same]
  exact steady

section Steady

variable (names : Names δ)

mutual

theorem parseTypeRef_steady (t : TypeTree δ) : Steady names.packageName (parseTypeRef names t) := by
  cases t with
  | TYPE_NAME l => exact (Steady.pure _).of_eq fun s => by rw [parseTypeRef]
  | TYPE_VALUE v => exact (Steady.pure _).of_eq fun s => by rw [parseTypeRef]
  | TYPE_PTR child =>
    exact ((parseTypeRef_steady child).andThen fun r => .pure _).of_eq fun s => by rw [parseTypeRef]
  | TYPE_REF child =>
    exact ((parseTypeRef_steady child).andThen fun r => .pure _).of_eq fun s => by rw [parseTypeRef]
  | TYPE_MUTREF child =>
    exact ((parseTypeRef_steady child).andThen fun r => .pure _).of_eq fun s => by rw [parseTypeRef]
  | TYPE_ARRAY len child =>
    exact ((parseTypeRef_steady child).andThen fun r => .pure _).of_eq fun s => by rw [parseTypeRef]
  | TYPE_VARRAY lenName child =>
    exact ((parseTypeRef_steady child).andThen fun r => .pure _).of_eq fun s => by rw [parseTypeRef]
  | TYPE_SLICE child =>
    exact ((parseTypeRef_steady child).andThen fun r => .pure _).of_eq fun s => by rw [parseTypeRef]
  | TYPE_MUTSLICE child =>
    exact ((parseTypeRef_steady child).andThen fun r => .pure _).of_eq fun s => by rw [parseTypeRef]
  | TYPE_OPTIONAL child =>
    exact ((parseTypeRef_steady child).andThen fun r => typeRefLowerForStorage_steady r.optionalOf).of_eq
      fun s => by rw [parseTypeRef]
  | TYPE_FN children =>
    exact ((parseFnChildren_steady children false).andThen fun parts =>
      ensureFnTypeAlias_steady parts.2.2 parts.1 parts.2.1).of_eq fun s => by rw [parseTypeRef]
  | TYPE_TUPLE items =>
    refine ((parseTypeItems_steady items 0).andThen fun fields => ?_).of_eq fun s => by rw [parseTypeRef]
    by_cases few : fields.length < 2
    · exact (Steady.pure none).of_eq fun s => by rw [if_pos few]
    · exact (ensureAnonTypeByFields_steady false fields).of_eq fun s => by rw [if_neg few]
  | TYPE_ANON isUnion fields =>
    exact ((parseTypeFields_steady fields 0).andThen fun fields => ensureAnonTypeByFields_steady isUnion fields).of_eq
      fun s => by rw [parseTypeRef]

theorem parseFnChildren_steady (children : FnChildren δ) (isVariadic : Bool) :
    Steady names.packageName (parseFnChildren names children isVariadic) := by
  cases children with
  | none => exact (Steady.pure _).of_eq fun s => by rw [parseFnChildren]
  | result t =>
    exact ((parseTypeRef_steady t).andThen fun r => .pure _).of_eq fun s => by rw [parseFnChildren]
  | param isConst isVariadicParam t rest =>
    refine ((parseTypeRef_steady t).andThen fun r => ?_).of_eq fun s => by rw [parseFnChildren]
    by_cases second : isVariadic = true
    · exact (Steady.pure none).of_eq fun s => by rw [if_pos second]
    · cases part : (if isVariadicParam then r.sliceOf false else some r) with
      | none => exact (Steady.pure none).of_eq fun s => by rw [if_neg second]
      | some paramType =>
        exact ((parseFnChildren_steady rest isVariadicParam).andThen fun parts =>
          .pure (some (paramType :: parts.1, parts.2.1, parts.2.2))).of_eq fun s => by rw [if_neg second]

theorem parseTypeItems_steady (items : TypeItems δ) (index : Nat) :
    Steady names.packageName (parseTypeItems names items index) := by
  cases items with
  | nil => exact (Steady.pure _).of_eq fun s => by rw [parseTypeItems]
  | cons t rest =>
    by_cases full : 256 ≤ index
    · exact (Steady.pure none).of_eq fun s => by rw [parseTypeItems, if_pos full]
    · refine (((parseTypeRef_steady t).map_aliases (f := fun s r => (tupleFieldName index, canonicalizeTypeRefBaseName s r)) ?_).andThen fun field =>
        (parseTypeItems_steady rest (index + 1)).andThen fun fields =>
          .pure (some (field :: fields))).of_eq ?_
      · intro s t same
        simp only [canonicalize_reads_aliases same]
      · intro s
        rw [parseTypeItems, if_neg full, Parsed.andThen_assoc]
        rfl

theorem parseTypeFields_steady (fields : TypeFields δ) (index : Nat) :
    Steady names.packageName (parseTypeFields names fields index) := by
  cases fields with
  | nil => exact (Steady.pure _).of_eq fun s => by rw [parseTypeFields]
  | cons name t rest =>
    by_cases full : 256 ≤ index
    · exact (Steady.pure none).of_eq fun s => by rw [parseTypeFields, if_pos full]
    · refine (((parseTypeRef_steady t).map_aliases (f := fun s r => (name.toCIdent, canonicalizeTypeRefBaseName s r)) ?_).andThen fun field =>
        (parseTypeFields_steady rest (index + 1)).andThen fun fields =>
          .pure (some (field :: fields))).of_eq ?_
      · intro s t same
        simp only [canonicalize_reads_aliases same]
      · intro s
        rw [parseTypeFields, if_neg full, Parsed.andThen_assoc]
        rfl

end

end Steady

/-! ### The base name of a type reference -/

namespace TypeRef

def setBase (baseName : CIdent) (r : TypeRef) : TypeRef := { r with baseName := baseName }

@[simp] theorem setBase_setBase (a b : CIdent) (r : TypeRef) : (r.setBase b).setBase a = r.setBase a := rfl

@[simp] theorem setBase_self (r : TypeRef) : r.setBase r.baseName = r := rfl

@[simp] theorem scalar_setBase (a b : CIdent) : (scalar b).setBase a = scalar a := rfl

@[simp] theorem setBase_baseName (a : CIdent) (r : TypeRef) : (r.setBase a).baseName = a := rfl

@[simp] theorem setBase_containerKind (a : CIdent) (r : TypeRef) : (r.setBase a).containerKind = r.containerKind := rfl

@[simp] theorem setBase_isOptional (a : CIdent) (r : TypeRef) : (r.setBase a).isOptional = r.isOptional := rfl

theorem pointTo_setBase (a : CIdent) (isRef isReadOnlyRef : Bool) (r : TypeRef) :
    (r.setBase a).pointTo isRef isReadOnlyRef = (r.pointTo isRef isReadOnlyRef).setBase a := by
  simp only [pointTo, setBase_containerKind]
  split <;> rfl

theorem pointTo_baseName (isRef isReadOnlyRef : Bool) (r : TypeRef) :
    (r.pointTo isRef isReadOnlyRef).baseName = r.baseName := by
  simp only [pointTo]
  split <;> rfl

theorem optionalOf_setBase (a : CIdent) (r : TypeRef) : (r.setBase a).optionalOf = r.optionalOf.setBase a := rfl

theorem arrayOf_setBase (a : CIdent) (n : Nat) (r : TypeRef) :
    (r.setBase a).arrayOf n = (r.arrayOf n).map (setBase a) := by
  obtain ⟨base, ptrDepth, kind⟩ := r
  cases kind <;> rfl

theorem sliceOf_setBase (a : CIdent) (isMutable : Bool) (r : TypeRef) :
    (r.setBase a).sliceOf isMutable = (r.sliceOf isMutable).map (setBase a) := by
  obtain ⟨base, ptrDepth, kind⟩ := r
  cases kind <;> rfl

theorem varrayOf_setBase (a : CIdent) (r : TypeRef) : (r.setBase a).varrayOf = r.varrayOf.map (setBase a) := by
  obtain ⟨base, ptrDepth, kind⟩ := r
  cases kind <;> rfl

/-- A type reference without its base name. -/
def shape (r : TypeRef) : TypeRef := r.setBase BuiltinTypeName.rawptr.cName

theorem shape_setBase (a : CIdent) (r : TypeRef) : (r.setBase a).shape = r.shape := rfl

theorem eq_setBase_of_shape {r q : TypeRef} (same : r.shape = q.shape) : q = r.setBase q.baseName := by
  have back : q = q.shape.setBase q.baseName := rfl
  rw [← same] at back
  exact back

end TypeRef

/-! ### What is accepted does not depend on the tables -/

/-- The shape of what a parser gives is the same in all tables. -/
def Uniform (shape : α → β) (parse : Tables → Parsed α) : Prop :=
  ∀ s t, (parse s).1.map shape = (parse t).1.map shape

theorem Parsed.andThen_shape {ε : Type} {shape : α → β} {shapeNext : γ → ε} {x y : Parsed α}
    {next other : α → Tables → Parsed γ} (same : x.1.map shape = y.1.map shape)
    (later : ∀ a b, shape a = shape b → ∀ s t, (next a s).1.map shapeNext = (other b t).1.map shapeNext) :
    (x.andThen next).1.map shapeNext = (y.andThen other).1.map shapeNext := by
  obtain ⟨left, s⟩ := x
  obtain ⟨right, t⟩ := y
  cases left with
  | none =>
    cases right with
    | none => rfl
    | some b => cases same
  | some a =>
    cases right with
    | none => cases same
    | some b => exact later a b (Option.some.inj same) s t

theorem Uniform.andThen {ε : Type} {shape : α → β} {shapeNext : γ → ε} {parse : Tables → Parsed α}
    {next : α → Tables → Parsed γ} (first : Uniform shape parse)
    (later : ∀ a b, shape a = shape b → ∀ s t, (next a s).1.map shapeNext = (next b t).1.map shapeNext) :
    Uniform shapeNext fun s => (parse s).andThen next :=
  fun s t => Parsed.andThen_shape (first s t) later

theorem Uniform.of_eq {shape : α → β} {parse other : Tables → Parsed α} (uniform : Uniform shape other)
    (same : ∀ s, parse s = other s) : Uniform shape parse := by
  rw [funext same]
  exact uniform

theorem Uniform.pure (shape : α → β) (value : Option α) : Uniform shape fun s => (value, s) := fun _ _ => rfl

theorem canonicalizeTypeRefBaseName_shape (s : Tables) (r : TypeRef) :
    (canonicalizeTypeRefBaseName s r).shape = r.shape := rfl

section Uniform

variable (names : Names δ)

def fieldShape (f : CIdent × TypeRef) : CIdent × TypeRef := (f.1, f.2.shape)

def fnShape (parts : List TypeRef × Bool × TypeRef) : List TypeRef × Bool × TypeRef :=
  (parts.1.map TypeRef.shape, parts.2.1, parts.2.2.shape)

theorem map_shape_of_setBase {f : TypeRef → Option TypeRef}
    (commutes : ∀ (a : CIdent) (r : TypeRef), f (r.setBase a) = (f r).map (TypeRef.setBase a)) {r q : TypeRef}
    (same : r.shape = q.shape) : (f r).map TypeRef.shape = (f q).map TypeRef.shape := by
  rw [TypeRef.eq_setBase_of_shape same, commutes, Option.map_map]
  rfl

mutual

theorem parseTypeRef_uniform (t : TypeTree δ) : Uniform TypeRef.shape (parseTypeRef names t) := by
  cases t with
  | TYPE_NAME l => exact (Uniform.pure _ _).of_eq fun s => by rw [parseTypeRef]
  | TYPE_VALUE v => exact (Uniform.pure _ _).of_eq fun s => by rw [parseTypeRef]
  | TYPE_PTR child =>
    exact ((parseTypeRef_uniform child).andThen fun a b same _ _ =>
      map_shape_of_setBase (f := fun r => some (r.pointTo false false))
        (fun c r => by rw [TypeRef.pointTo_setBase]; rfl) same).of_eq fun s => by rw [parseTypeRef]
  | TYPE_REF child =>
    exact ((parseTypeRef_uniform child).andThen fun a b same _ _ =>
      map_shape_of_setBase (f := fun r => some (r.pointTo true true))
        (fun c r => by rw [TypeRef.pointTo_setBase]; rfl) same).of_eq fun s => by rw [parseTypeRef]
  | TYPE_MUTREF child =>
    exact ((parseTypeRef_uniform child).andThen fun a b same _ _ =>
      map_shape_of_setBase (f := fun r => some (r.pointTo true false))
        (fun c r => by rw [TypeRef.pointTo_setBase]; rfl) same).of_eq fun s => by rw [parseTypeRef]
  | TYPE_ARRAY len child =>
    exact ((parseTypeRef_uniform child).andThen fun a b same _ _ =>
      map_shape_of_setBase (f := fun r => (arrayLenValue len).bind fun n => r.arrayOf n)
        (fun c r => by cases arrayLenValue len <;> simp [TypeRef.arrayOf_setBase]) same).of_eq
      fun s => by rw [parseTypeRef]
  | TYPE_VARRAY lenName child =>
    exact ((parseTypeRef_uniform child).andThen fun a b same _ _ =>
      map_shape_of_setBase TypeRef.varrayOf_setBase same).of_eq fun s => by rw [parseTypeRef]
  | TYPE_SLICE child =>
    exact ((parseTypeRef_uniform child).andThen fun a b same _ _ =>
      map_shape_of_setBase (fun c => TypeRef.sliceOf_setBase c false) same).of_eq fun s => by rw [parseTypeRef]
  | TYPE_MUTSLICE child =>
    exact ((parseTypeRef_uniform child).andThen fun a b same _ _ =>
      map_shape_of_setBase (fun c => TypeRef.sliceOf_setBase c true) same).of_eq fun s => by rw [parseTypeRef]
  | TYPE_OPTIONAL child =>
    exact ((parseTypeRef_uniform child).andThen fun a b same _ _ =>
      map_shape_of_setBase (f := fun r => some r.optionalOf) (fun c r => rfl) same).of_eq fun s => by rw [parseTypeRef]
  | TYPE_FN children =>
    exact ((parseFnChildren_uniform children false).andThen fun a b _ _ _ => rfl).of_eq fun s => by rw [parseTypeRef]
  | TYPE_TUPLE items =>
    refine ((parseTypeItems_uniform items 0).andThen fun a b same s t => ?_).of_eq fun s => by rw [parseTypeRef]
    have lengths : a.length = b.length := by
      rw [← List.length_map (f := fieldShape), same, List.length_map]
    by_cases few : a.length < 2
    · rw [if_pos few, if_pos (lengths ▸ few)]
    · rw [if_neg few, if_neg (lengths ▸ few)]
      rfl
  | TYPE_ANON isUnion fields =>
    exact ((parseTypeFields_uniform fields 0).andThen fun a b _ _ _ => rfl).of_eq fun s => by rw [parseTypeRef]

theorem parseFnChildren_uniform (children : FnChildren δ) (isVariadic : Bool) :
    Uniform fnShape (parseFnChildren names children isVariadic) := by
  cases children with
  | none => exact (Uniform.pure _ _).of_eq fun s => by rw [parseFnChildren]
  | result t =>
    refine ((parseTypeRef_uniform t).andThen fun a b same s t => ?_).of_eq fun s => by rw [parseFnChildren]
    simp only [Option.map_some, fnShape, same]
  | param isConst isVariadicParam t rest =>
    refine ((parseTypeRef_uniform t).andThen fun a b same s t => ?_).of_eq fun s => by rw [parseFnChildren]
    by_cases second : isVariadic = true
    · rw [if_pos second, if_pos second]
    · rw [if_neg second, if_neg second]
      have parts : (if isVariadicParam then a.sliceOf false else some a).map TypeRef.shape =
          (if isVariadicParam then b.sliceOf false else some b).map TypeRef.shape := by
        cases isVariadicParam with
        | false => exact congrArg some same
        | true => exact map_shape_of_setBase (fun c => TypeRef.sliceOf_setBase c false) same
      revert parts
      cases (if isVariadicParam then a.sliceOf false else some a) with
      | none =>
        intro parts
        rw [Option.map_none, eq_comm, Option.map_eq_none_iff] at parts
        rw [parts]
      | some p =>
        intro parts
        obtain ⟨q, isPart, sameShape⟩ := Option.map_eq_some_iff.mp (parts.symm.trans (Option.map_some ..))
        rw [isPart]
        refine Parsed.andThen_shape (parseFnChildren_uniform rest isVariadicParam s t) fun x y sameRest _ _ => ?_
        simp only [fnShape, Prod.mk.injEq] at sameRest
        simp only [Option.map_some, fnShape, List.map_cons, sameShape, sameRest]

theorem parseTypeItems_uniform (items : TypeItems δ) (index : Nat) :
    Uniform (List.map fieldShape) (parseTypeItems names items index) := by
  cases items with
  | nil => exact (Uniform.pure _ _).of_eq fun s => by rw [parseTypeItems]
  | cons t rest =>
    by_cases full : 256 ≤ index
    · exact (Uniform.pure _ none).of_eq fun s => by rw [parseTypeItems, if_pos full]
    · refine ((parseTypeRef_uniform t).andThen fun a b same s t => ?_).of_eq
        fun s => by rw [parseTypeItems, if_neg full]
      refine Parsed.andThen_shape (parseTypeItems_uniform rest (index + 1) s t) fun x y sameRest _ _ => ?_
      simp only [Option.map_some, List.map_cons, fieldShape, canonicalizeTypeRefBaseName_shape, same, sameRest]

theorem parseTypeFields_uniform (fields : TypeFields δ) (index : Nat) :
    Uniform (List.map fieldShape) (parseTypeFields names fields index) := by
  cases fields with
  | nil => exact (Uniform.pure _ _).of_eq fun s => by rw [parseTypeFields]
  | cons name t rest =>
    by_cases full : 256 ≤ index
    · exact (Uniform.pure _ none).of_eq fun s => by rw [parseTypeFields, if_pos full]
    · refine ((parseTypeRef_uniform t).andThen fun a b same s t => ?_).of_eq
        fun s => by rw [parseTypeFields, if_neg full]
      refine Parsed.andThen_shape (parseTypeFields_uniform rest (index + 1) s t) fun x y sameRest _ _ => ?_
      simp only [Option.map_some, List.map_cons, fieldShape, canonicalizeTypeRefBaseName_shape, same, sameRest]

end

end Uniform

end HopHop.CBackend
